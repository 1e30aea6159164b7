import SecurityAudit.Audit.SecurityAlerts
import SecurityAudit.Calendar.DateTime
import SecurityAudit.RedisAcl.Commands
import SecurityAudit.Text.Lines
import SecurityAudit.Text.Numerals

/-!
# The health of the pipeline: `services/audit_health_service.py`

`get_pipeline_health` asks Redis about the stream and the consumer group, asks the database about
the two tables, raises alerts where the answers call for it, and adds what the status files of the
maintenance scripts say. Every question is a call, since anything may happen between two of them.
A figure that was not answered stays `none`.
-/

namespace SecurityAudit

namespace PipelineHealth

open Prog
open SecurityAlerts (AlertRequest)

/-! ## What is asked -/

/-- A row of `XPENDING stream group - + count`, as far as it is used. -/
structure PendingEntry where
  time_since_delivered : ℕ
  times_delivered : ℕ

/-- A row of `XINFO GROUPS`. Before Redis 7 there is no `lag`; where the server cannot tell, it is
`NULL`. -/
structure GroupInfo where
  name : Str
  lag : Option (Option ℕ)

inductive Call where
  /-- `XLEN stream` -/
  | xlen
  /-- `XPENDING stream group`: how many entries are pending; nothing of an empty summary -/
  | xpending
  /-- `XPENDING stream group - + count` -/
  | xpendingRange (count : ℕ)
  /-- `XINFO GROUPS stream` -/
  | xinfoGroups
  /-- `XINFO CONSUMERS stream group`: how long each consumer has been idle -/
  | xinfoConsumers
  /-- `SELECT MAX(created_at) FROM audit_events` -/
  | maxCreatedAt
  /-- `SELECT COUNT(stream_message_id) FROM quarantined_audit_events` -/
  | countQuarantined
  /-- `SELECT MAX(quarantined_at) FROM quarantined_audit_events` -/
  | maxQuarantinedAt
  /-- `os.environ.get(name)` -/
  | getenv (name : String)
  /-- `emit_security_alert(...)` -/
  | emit (request : AlertRequest)
  /-- `datetime.now(timezone.utc)` -/
  | utcnow
  /-- `path.read_text()` of a file in the status directory, nothing where it does not exist -/
  | readText (status_dir : Str) (name : String)

/-- The result type of each. -/
def Call.Reply : Call → Type
  | .xlen => ℕ
  | .xpending => Option ℕ
  | .xpendingRange _ => List PendingEntry
  | .xinfoGroups => List GroupInfo
  | .xinfoConsumers => List ℕ
  | .maxCreatedAt | .maxQuarantinedAt => Option Naive
  | .countQuarantined => Option ℕ
  | .getenv _ | .readText _ _ => Option Str
  | .emit _ => Unit
  | .utcnow => Naive

/-- An exception is the name of its type, which is all that is reported of it. -/
abbrev sig : Sig := ⟨Call, Call.Reply, Str⟩

abbrev ask (c : Call) : Prog sig c.Reply := @perform sig c

/-! ## Redis -/

/-- `RedisPipelineHealth`. -/
structure RedisPipelineHealth where
  available : Bool
  pending_count : Option ℕ
  oldest_pending_age_seconds : Option PyFloat
  retry_in_progress_count : Option ℕ
  consumer_lag : Option ℕ
  consumer_lag_source : Option Str
  stream_length : Option ℕ
  active_consumer_count : Option ℕ
  least_idle_consumer_ms : Option ℕ
  error : Option Str

/-- `RedisPipelineHealth(available=False, error=...)`. -/
def RedisPipelineHealth.unavailable (error : Str) : RedisPipelineHealth :=
  ⟨false, none, none, none, none, none, none, none, none, some error⟩

/-- A quotient that is a float, or none. -/
def quotient : Option Binary64 → Prog sig PyFloat
  | some mag => return .finite false mag
  | none => raise (str "OverflowError")

/-- `ms / 1000.0`: below `2^53` milliseconds both numbers are doubles. -/
def seconds (ms : ℕ) : Prog sig PyFloat := quotient (Binary64.ofRatio ms 1000)

/-- The age of the oldest entry, if there is one. -/
def oldestAge : List PendingEntry → Prog sig (Option PyFloat)
  | [] => return none
  | e :: _ => do
    let age ← seconds e.time_since_delivered
    return some age

/-- The two figures about pending entries, which are only asked for if there are any. -/
def pendingFigures (batch pending_count : ℕ) : Prog sig (Option PyFloat × Option ℕ) :=
  if pending_count = 0 then return (none, none)
  else do
    let oldest ← ask (.xpendingRange 1)
    let age ← oldestAge oldest
    let sample : List PendingEntry ← ask (.xpendingRange batch)
    return (age, some (sample.filter fun e => 1 < e.times_delivered).length)

/-- The `lag` of the first row of the group that has one. -/
def lagOf (group : Str) (infos : List GroupInfo) : Option ℕ :=
  ((infos.find? fun g => decide (g.name = group) && g.lag.isSome).bind GroupInfo.lag).join

/-- `consumer_lag` and `consumer_lag_source`. -/
def lagFigures (group : Str) : Prog sig (Option ℕ × Option Str) := do
  let infos ← (ask .xinfoGroups).attempt
  match infos with
  | .error _ => return (none, some (str "unsupported_redis_version"))
  | .ok infos =>
    match lagOf group infos with
    | some lag => return (some lag, some (str "xinfo_groups"))
    | none => return (none, some (str "unsupported_redis_version"))

/-- `active_consumer_count` and `least_idle_consumer_ms`. -/
def consumerFigures : Prog sig (Option ℕ × Option ℕ) := do
  let idles ← (ask .xinfoConsumers).attempt
  match idles with
  | .error _ => return (none, none)
  | .ok idles => return (some (List.length idles), List.min? idles)

/-- The body of the `try` of `get_redis_pipeline_health`. -/
def redisFigures (group : Str) (batch : ℕ) : Prog sig RedisPipelineHealth := do
  let stream_length ← ask .xlen
  let summary : Option ℕ ← ask .xpending
  let pending_count := summary.getD 0
  let (age, retries) ← pendingFigures batch pending_count
  let (lag, source) ← lagFigures group
  let (consumers, idle) ← consumerFigures
  return {
    available := true
    pending_count := some pending_count
    oldest_pending_age_seconds := age
    retry_in_progress_count := retries
    consumer_lag := lag
    consumer_lag_source := source
    stream_length := some stream_length
    active_consumer_count := consumers
    least_idle_consumer_ms := idle
    error := none }

/-- `get_redis_pipeline_health`. -/
def getRedisPipelineHealth (group : Str) (batch : ℕ) : Prog sig RedisPipelineHealth := do
  match ← (redisFigures group batch).attempt with
  | .ok health => return health
  | .error e => return .unavailable e

/-! ## The database -/

/-- `PersistencePipelineHealth`. -/
structure PersistencePipelineHealth where
  available : Bool
  last_successful_persistence_at : Option Naive
  quarantine_count : Option ℕ
  last_quarantine_at : Option Naive
  error : Option Str

/-- The body of the `try` of `get_persistence_pipeline_health`. -/
def persistenceFigures : Prog sig PersistencePipelineHealth := do
  let last_success ← ask .maxCreatedAt
  let quarantine_count : Option ℕ ← ask .countQuarantined
  let last_quarantine ← ask .maxQuarantinedAt
  return ⟨true, last_success, some (quarantine_count.getD 0), last_quarantine, none⟩

/-- `get_persistence_pipeline_health`. -/
def getPersistencePipelineHealth : Prog sig PersistencePipelineHealth := do
  match ← persistenceFigures.attempt with
  | .ok health => return health
  | .error e => return ⟨false, none, none, none, some e⟩

/-! ## The status files -/

variable (N : Numerals)

/-- `int` of the interpreter, where `decimal` is the value of a digit of another script. -/
def pythonInt (decimal : CodePoint → Option ℕ) : Numerals where
  space := RedisAcl.isSpace
  decimal := decimal
  maxDigits := JVal.maxStrDigits
  space_digit c hc := by
    have hdigit := of_decide_eq_true hc
    simp only [RedisAcl.isSpace, decide_eq_false_iff_not]
    omega
  space_minus := by decide

/-- `_read_env_file` of the text of a file: what each line with `=` says. -/
def envEntries (text : Str) : List (Str × Str) :=
  ((splitLines text).filter fun line => decide (cp '=' ∈ line)).map (partition (cp '='))

/-- `values.get(key)`: a later line replaces an earlier one. -/
def valueOf (entries : List (Str × Str)) (key : String) : Option Str :=
  (entries.reverse.find? fun e => e.1 = str key).map Prod.snd

/-- `_read_env_file`. -/
def readEnvFile (status_dir : Str) (name : String) : Prog sig (List (Str × Str)) := do
  let text : Option Str ← ask (.readText status_dir name)
  return (text.map envEntries).getD []

/-- `RetentionIntegrityHealth`. -/
structure RetentionIntegrityHealth where
  last_integrity_verification_ts : Option Str
  last_integrity_verification_result : Option Str
  last_integrity_events_invalid : Option ℤ
  last_retention_run_ts : Option Str
  last_retention_run_result : Option Str
  last_retention_deleted_total : Option ℤ
  status_source : Str

/-- `RetentionIntegrityHealth(...)` from the entries of the two files. -/
def retentionIntegrity (verification retention : List (Str × Str)) : RetentionIntegrityHealth where
  last_integrity_verification_ts := valueOf verification "LAST_VERIFICATION_TS"
  last_integrity_verification_result := valueOf verification "LAST_VERIFICATION_RESULT"
  last_integrity_events_invalid :=
    (valueOf verification "LAST_VERIFICATION_EVENTS_INVALID").bind N.parse
  last_retention_run_ts := valueOf retention "LAST_RETENTION_RUN_TS"
  last_retention_run_result := valueOf retention "LAST_RETENTION_RUN_RESULT"
  last_retention_deleted_total :=
    (valueOf retention "LAST_RETENTION_RUN_DELETED_TOTAL").bind N.parse
  status_source := str "configured"

/-- `get_retention_integrity_health`. -/
def getRetentionIntegrityHealth : Prog sig RetentionIntegrityHealth := do
  let status_dir : Option Str ← ask (.getenv "AUDIT_HEALTH_STATUS_DIR")
  match status_dir.filter fun dir => dir ≠ [] with
  | none => return ⟨none, none, none, none, none, none, str "not_configured"⟩
  | some dir =>
    let verification ← readEnvFile dir "audit-integrity-verification.env"
    let retention ← readEnvFile dir "audit-retention-run.env"
    return retentionIntegrity N verification retention

/-! ## Alerts -/

/-- `_int_env`. -/
def intEnv (name : String) : Prog sig (Option ℤ) := do
  let v : Option Str ← ask (.getenv name)
  return (v.filter fun text => text ≠ []).bind N.parse

/-- A count as metadata. -/
def countValue (n : Option ℕ) : JVal := n.elim .null fun n => .int n

/-- An error name as metadata. -/
def errorValue (e : Option Str) : JVal := e.elim .null .str

/-- `emit_security_alert` with the module's defaults. -/
def alert (condition severity component message : String) (metadata : List (String × JVal)) :
    Prog sig Unit :=
  ask (.emit ⟨str condition, str severity, str component, str message,
    some (metadata.map fun kv => (str kv.1, kv.2)), none⟩)

/-- An alert if the threshold is set and the value is above it. -/
def alertAbove (above : ℤ → Bool) (threshold : Option ℤ) (send : ℤ → Prog sig Unit) :
    Prog sig Unit :=
  match threshold with
  | none => return ()
  | some t => if above t then send t else return ()

/-- `x > t` of a float and an integer, which Python compares exactly. -/
def floatAbove (x : PyFloat) (t : ℤ) : Bool :=
  match x with
  | .nan => false
  | .infinity neg => !neg
  | .finite neg mag =>
    decide (t * 2 ^ Binary64.minExp < if neg then -(mag.units : ℤ) else mag.units)

/-- The alerts about Redis that need no threshold. -/
def connectionAlert (redis : RedisPipelineHealth) : Prog sig Unit :=
  if redis.available = false then
    alert "redis_stream_unavailable" "critical" "audit-delivery"
      "Redis Streams pipeline is unavailable" [("error", errorValue redis.error)]
  else if redis.active_consumer_count = some 0 then
    alert "audit_worker_never_registered" "critical" "audit-worker"
      "No consumer has ever registered in the audit worker consumer group"
      [("stream_length", countValue redis.stream_length)]
  else return ()

/-- The alerts about Redis that need one. -/
def backlogAlerts (redis : RedisPipelineHealth) (pending age stall : Option ℤ) : Prog sig Unit :=
  if redis.available = false then return ()
  else do
    alertAbove (fun t => t < (redis.pending_count.getD 0 : ℕ)) pending fun t =>
      alert "pel_backlog_threshold_exceeded" "warning" "audit-delivery"
        "Pending-entries-list backlog exceeds configured threshold"
        [("pending_count", countValue redis.pending_count), ("threshold", .int t)]
    alertAbove (fun t => redis.oldest_pending_age_seconds.any fun x => floatAbove x t) age fun t =>
      alert "pel_entry_age_threshold_exceeded" "warning" "audit-delivery"
        "Oldest pending stream entry exceeds configured age threshold"
        [("oldest_pending_age_seconds", redis.oldest_pending_age_seconds.elim .null .float),
          ("threshold", .int t)]
    alertAbove (fun t => redis.least_idle_consumer_ms.any fun n : ℕ => t < n) stall fun t =>
      alert "audit_worker_stalled" "warning" "audit-worker"
        "Least-idle consumer exceeds configured stall threshold -- worker may have stopped processing"
        [("least_idle_consumer_ms", countValue redis.least_idle_consumer_ms), ("threshold", .int t)]

/-- The alerts about the database. -/
def databaseAlert (persistence : PersistencePipelineHealth) (quarantine : Option ℤ) :
    Prog sig Unit :=
  if persistence.available = false then
    alert "audit_database_unavailable" "critical" "audit-persistence"
      "Audit database is unavailable" [("error", errorValue persistence.error)]
  else
    alertAbove (fun t => t < (persistence.quarantine_count.getD 0 : ℕ)) quarantine fun t =>
      alert "quarantine_count_threshold_exceeded" "warning" "audit-worker"
        "Quarantined-event count exceeds configured threshold"
        [("quarantine_count", countValue persistence.quarantine_count), ("threshold", .int t)]

/-- `_evaluate_health_alerts`: nothing that is raised on the way gets out. -/
def evaluateHealthAlerts (redis : RedisPipelineHealth) (persistence : PersistencePipelineHealth) :
    Prog sig Unit := do
  let _ ← Prog.attempt do
    connectionAlert redis
    let pending ← intEnv N "AUDIT_ALERT_PEL_PENDING_THRESHOLD"
    let age ← intEnv N "AUDIT_ALERT_PEL_AGE_THRESHOLD_SECONDS"
    let stall ← intEnv N "AUDIT_ALERT_WORKER_STALL_THRESHOLD_MS"
    let quarantine ← intEnv N "AUDIT_ALERT_QUARANTINE_COUNT_THRESHOLD"
    backlogAlerts redis pending age stall
    databaseAlert persistence quarantine
  return ()

/-! ## The whole check -/

/-- `AuditPipelineHealth`. -/
structure AuditPipelineHealth where
  generated_at : Naive
  redis : RedisPipelineHealth
  persistence : PersistencePipelineHealth
  retention_integrity : RetentionIntegrityHealth

/-- `get_pipeline_health`. -/
def getPipelineHealth (group : Str) (batch : ℕ) : Prog sig AuditPipelineHealth := do
  let redis ← getRedisPipelineHealth group batch
  let persistence ← getPersistencePipelineHealth
  evaluateHealthAlerts N redis persistence
  let generated_at : Naive ← ask .utcnow
  let retention_integrity ← getRetentionIntegrityHealth N
  return ⟨generated_at, redis, persistence, retention_integrity⟩

end PipelineHealth

end SecurityAudit
