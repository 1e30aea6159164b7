import SecurityAudit.Prog.Calls
import SecurityAudit.Worker.Main

/-!
# Which calls each function makes

One lemma for each function of the worker: the calls it may make, whatever they are answered
with. A statement about the calls of a run only has to look at these.
-/

namespace SecurityAudit

open Prog

/-- The calls of a session that is opened, used and closed. -/
def Call.OfSession : Call → Prop
  | .openSession | .closeSession | .rollback => True
  | _ => False

/-- The calls by which an event is written for the entry `id`. -/
def Call.CommitsEvent (id : StreamId) : Call → Prop
  | .commitAuditEvent id' _ _ _ => id' = id
  | .rollback => True
  | _ => False

/-- The calls by which the entry `id` is written to the quarantine. -/
def Call.CommitsQuarantined (id : StreamId) : Call → Prop
  | .commitQuarantined id' _ => id' = id
  | .rollback | .alert _ => True
  | _ => False

/-- The calls that handle the entry `id`. -/
def Call.Handles (id : StreamId) : Call → Prop
  | .parse id' _ | .commitAuditEvent id' _ _ _ | .xack id' _ => id' = id
  | .print _ => True
  | c => c.OfSession

/-- The calls that quarantine the entry `id`. -/
def Call.Quarantines (id : StreamId) : Call → Prop
  | .commitQuarantined id' _ => id' = id
  | .xack id' reason => id' = id ∧ reason = .quarantined
  | .print _ | .alert _ => True
  | c => c.OfSession

/-- The calls that look for stale entries and claim them. -/
def Call.Reclaims : Call → Prop
  | .xpendingRange | .xrange _ | .xclaim _ _ => True
  | _ => False

/-- The calls that deal with a failed read, and with a missing group. -/
def Call.Recreates : Call → Prop
  | .xgroupCreate | .monotonic | .print _ | .alert _ => True
  | _ => False

theorem Call.CommitsEvent.handles {id : StreamId} {c : Call} (h : c.CommitsEvent id) :
    c.Handles id := by
  cases c <;> first | exact h | trivial

theorem Call.CommitsQuarantined.quarantines {id : StreamId} {c : Call}
    (h : c.CommitsQuarantined id) : c.Quarantines id := by
  cases c <;> first | exact h | trivial

variable (env : Env)

theorem calls_sinkWrite (id : StreamId) (e : AuditEvent) (status : IntegrityStatus) :
    (Sink.write env id e status).All (Call.CommitsEvent id) := by
  refine (all_ofExcept _).bind fun row => (all_perform (by exact rfl)).attempt.bind fun o => ?_
  rcases o with ex | _
  · cases ex with
    | integrityError => exact (all_perform trivial).bind fun _ => trivial
    | _ => trivial
  · trivial

/-- A write that is tried, and the line that is printed where it fails. -/
theorem calls_tryWrite {P : Call → Prop} {write : Worker Bool} {failed : Exc → Line}
    (hwrite : write.All P) (hprint : ∀ line, P (.print line)) : (tryWrite write failed).All P := by
  refine hwrite.attempt.bind fun o => ?_
  rcases o with e | _
  · exact (all_perform (hprint _)).bind fun _ => trivial
  · trivial

theorem calls_warnInvalid {P : Call → Prop} (hprint : ∀ line, P (.print line)) (id : StreamId)
    (e : AuditEvent) (status : IntegrityStatus) : (warnInvalid id e status).All P := by
  cases status with
  | invalid => exact all_perform (hprint _)
  | _ => trivial

theorem calls_handleMessage (m : Message) : (handleMessage env m).All (Call.Handles m.id) := by
  refine (all_perform (by exact rfl)).attempt.bind fun o => ?_
  rcases o with ex | event
  · exact (all_perform trivial).bind fun _ => trivial
  · refine (calls_warnInvalid (fun _ => trivial) _ _ _).bind fun _ => ?_
    refine (all_perform trivial).bind fun _ => ?_
    have hwrite := (calls_sinkWrite env m.id event (classifyEventIntegrity env.crypto event.service
      (m.fields.get "sig") (m.fields.get "data") env.cfg.eventSigningSecret)).mono
      fun _ => Call.CommitsEvent.handles
    refine ((calls_tryWrite hwrite fun _ => trivial).ensuring (all_perform trivial)).bind
      fun written => ?_
    cases written with
    | false => trivial
    | true => exact (all_perform (by exact rfl)).bind fun _ => trivial

theorem calls_quarantineWrite (id : StreamId) (fields : Fields) (attempts : ℕ) :
    (QuarantineSink.write env id fields attempts).All (Call.CommitsQuarantined id) := by
  refine (all_ofExcept _).bind fun row => All.bind ?_ fun _ =>
    (all_perform trivial).bind fun _ => trivial
  refine (all_perform (by exact rfl)).attempt.bind fun o => ?_
  rcases o with ex | _
  · cases ex with
    | integrityError => exact all_perform trivial
    | _ => trivial
  · trivial

theorem calls_quarantineAndAck (entry : StreamReader.PoisonEntry) :
    (quarantineAndAck env entry).All (Call.Quarantines entry.message_id) := by
  refine (all_perform trivial).bind fun _ => ?_
  have hwrite := (calls_quarantineWrite env entry.message_id entry.fields
    entry.delivery_attempts).mono fun _ => Call.CommitsQuarantined.quarantines
  refine ((calls_tryWrite hwrite fun _ => trivial).ensuring (all_perform trivial)).bind
    fun written => ?_
  cases written with
  | false => trivial
  | true =>
    exact (all_perform ⟨rfl, rfl⟩).bind fun _ => (all_perform trivial).bind fun _ => trivial

theorem calls_fetchPoison (rows : List PendingInfo) :
    (StreamReader.fetchPoison rows).All fun c : Call => ∃ id, c = .xrange id := by
  induction rows with
  | nil => trivial
  | cons row rows ih =>
    exact (all_perform ⟨row.message_id, rfl⟩).bind fun _ => ih.bind fun _ => trivial

theorem calls_claimStale (consumer : Str) :
    (StreamReader.claimStale env.cfg consumer).All Call.Reclaims := by
  refine All.bind (all_perform trivial) fun stale => ?_
  split_ifs
  · trivial
  · refine ((calls_fetchPoison _).mono ?_).bind fun poison => ?_
    · rintro c ⟨id, rfl⟩
      trivial
    · split_ifs
      · trivial
      · exact (all_perform trivial).bind fun _ => trivial

theorem calls_ensureGroup : StreamReader.ensureGroup.All Call.Recreates := by
  refine (all_perform trivial).attempt.bind fun o => ?_
  rcases o with ex | _
  · cases ex <;> trivial
  · trivial

theorem calls_handleNogroup (context : Str) (last : LastAttempt) :
    (handleNogroup env context last).All Call.Recreates := by
  refine (all_perform trivial).bind fun _ => (all_perform trivial).bind fun _ => ?_
  split_ifs
  · trivial
  · refine (all_perform trivial).bind fun now => ?_
    split_ifs
    · trivial
    · refine calls_ensureGroup.attempt.bind fun o => ?_
      rcases o with e | _
      · exact (all_perform trivial).bind fun _ => trivial
      · exact (all_perform trivial).bind fun _ => (all_perform trivial).bind fun _ => trivial

theorem calls_handleAll (ms : List Message) :
    (handleAll env ms).All fun c => ∃ m ∈ ms, Call.Handles m.id c := by
  refine all_forEach fun m hm => All.bind ((calls_handleMessage env m).mono ?_) fun _ => trivial
  exact fun c hc => ⟨m, hm, hc⟩

theorem calls_quarantineAll (poison : List StreamReader.PoisonEntry) :
    (Prog.forEach (fun entry => do
      let _ ← quarantineAndAck env entry
      return ()) poison).All fun c => ∃ entry ∈ poison, Call.Quarantines entry.message_id c := by
  refine all_forEach fun entry he =>
    All.bind ((calls_quarantineAndAck env entry).mono ?_) fun _ => trivial
  exact fun c hc => ⟨entry, he, hc⟩

/-- The calls of a sweep. -/
def Call.OfSweep (c : Call) : Prop :=
  c.Reclaims ∨ c.Recreates ∨ ∃ id, c.Handles id ∨ c.Quarantines id

theorem calls_sweepPending (consumer : Str) (last : LastAttempt) :
    (sweepPending env consumer last).All Call.OfSweep := by
  refine (((calls_claimStale env consumer).mono fun c hc => .inl hc).attempt).bind fun o => ?_
  rcases o with ex | ⟨claimed, poison⟩
  · refine (all_perform (.inr (.inl trivial))).bind fun _ => ?_
    cases ex with
    | noGroup => exact (calls_handleNogroup env _ last).mono fun c hc => .inr (.inl hc)
    | _ => trivial
  · refine ((calls_quarantineAll env poison).mono ?_).bind fun _ =>
      ((calls_handleAll env claimed).mono ?_).bind fun _ => trivial
    · rintro c ⟨entry, -, hc⟩
      exact .inr (.inr ⟨_, .inr hc⟩)
    · rintro c ⟨m, -, hc⟩
      exact .inr (.inr ⟨_, .inl hc⟩)

end SecurityAudit
