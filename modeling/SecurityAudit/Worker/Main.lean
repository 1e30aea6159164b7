import SecurityAudit.Consumers.Quarantine
import SecurityAudit.Consumers.StreamReader

/-!
# The worker: `worker/main.py`

`run` takes the number of iterations; the production loop has no bound, and any finite
stretch of it is a stretch of `run` with a large enough one. The module variable that
remembers the last attempt to recreate the group is passed along. What is printed stands where
the source prints it: a line inside an `except` clause is formatted outside of any other `try`,
and may raise.
-/

namespace SecurityAudit

variable (env : Env)

/-- `_last_nogroup_recreate_attempt`. -/
abbrev LastAttempt : Type := Option ℕ

/-- `_handle_nogroup`: an alert, and at most one attempt to recreate the group per backoff
period, only where that is switched on. -/
def handleNogroup (context : Str) (last : LastAttempt) : Worker LastAttempt := do
  ask (.print (.nogroup context .noGroup))
  ask (.alert (.groupMissing context))
  if env.cfg.workerAutoRecreateStreamOnNogroup = false then return last
  else do
    let now : ℕ ← ask .monotonic
    if ∃ t ∈ last, now < t + env.cfg.workerNogroupRetryBackoffMs then return last
    else
      match ← StreamReader.ensureGroup.attempt with
      | .ok _ =>
        ask (.print (.recreateAttempted context))
        ask (.alert (.groupRecreated context))
        return some now
      | .error e =>
        ask (.print (.recreateFailed e))
        return some now

/-- `try: write() except Exception as e: print(...); return False`: whether it was written. -/
def tryWrite (write : Worker Bool) (failed : Exc → Line) : Worker Bool := do
  match ← write.attempt with
  | .ok _ => return true
  | .error e =>
    ask (.print (failed e))
    return false

/-- The warning about a signature that failed verification. -/
def warnInvalid (id : StreamId) (event : AuditEvent) : IntegrityStatus → Worker Unit
  | .invalid => ask (.print (.signatureInvalid id event.service event.event_id))
  | _ => return ()

/-- `handle_message`: deserialize, classify, persist, acknowledge, in this order. -/
def handleMessage (m : Message) : Worker Bool := do
  let rawData := m.fields.get "data"
  match ← (ask (.parse m.id rawData)).attempt with
  | .error e =>
    ask (.print (.parseFailed m.id e))
    return false
  | .ok event =>
    let integrityStatus := classifyEventIntegrity env.crypto event.service (m.fields.get "sig")
      rawData env.cfg.eventSigningSecret
    warnInvalid m.id event integrityStatus
    ask .openSession
    let written ← Prog.ensuring
      (tryWrite (Sink.write env m.id event integrityStatus) (.persistFailed m.id))
      (ask .closeSession)
    match written with
    | false => return false
    | true =>
      StreamReader.ack m.id (.handled event integrityStatus)
      return true

/-- `quarantine_and_ack`: record the poison entry, then acknowledge it. -/
def quarantineAndAck (entry : StreamReader.PoisonEntry) : Worker Bool := do
  ask .openSession
  let written ← Prog.ensuring
    (tryWrite (QuarantineSink.write env entry.message_id entry.fields entry.delivery_attempts)
      (.quarantineFailed entry.message_id))
    (ask .closeSession)
  match written with
  | false => return false
  | true =>
    StreamReader.ack entry.message_id .quarantined
    ask (.print (.poison entry.message_id entry.delivery_attempts))
    return true

/-- `for message in messages: handle_message(message)`. -/
def handleAll : List Message → Worker Unit :=
  Prog.forEach fun m => do
    let _ ← handleMessage env m
    return ()

/-- `sweep_pending`. -/
def sweepPending (consumer : Str) (last : LastAttempt) : Worker LastAttempt := do
  match ← (StreamReader.claimStale env.cfg consumer).attempt with
  | .error e =>
    ask (.print (.sweepFailed e))
    match e with
    | .noGroup => handleNogroup env (str "pending-entry sweep") last
    | _ => return last
  | .ok (claimed, poison) =>
    Prog.forEach (fun entry => do
      let _ ← quarantineAndAck env entry
      return ()) poison
    handleAll env claimed
    return last

/-- The group read of one iteration, with its error handling. -/
def readNew (consumer : Str) (last : LastAttempt) :
    Worker (List (Str × List Message) × LastAttempt) := do
  match ← (StreamReader.readGroup consumer).attempt with
  | .ok response => return (response, last)
  | .error .redisTimeoutError => return ([], last)
  | .error e =>
    ask (.print (.readFailed e))
    match e with
    | .noGroup =>
      let last ← handleNogroup env (str "read_group") last
      ask (.sleep env.cfg.workerNogroupRetryBackoffMs)
      return ([], last)
    | _ => return ([], last)

/-- The `while` loop of `run`. -/
def runLoop (consumer : Str) : ℕ → LastAttempt → Worker Unit
  | 0, _ => return ()
  | iterations + 1, last => do
    let last ← sweepPending env consumer last
    let (response, last) ← readNew env consumer last
    Prog.forEach (fun stream => handleAll env stream.2) response
    runLoop consumer iterations last

/-- `run`. -/
def run (consumer : Str) (maxIterations : ℕ) : Worker Unit := do
  StreamReader.ensureGroup
  runLoop env consumer maxIterations none

end SecurityAudit
