import SecurityAudit.Consumers.Processor
import SecurityAudit.Audit.RecordIntegrity

/-!
# Persisting an event: `consumers/sink.py`

`sinkRecord` is the row `Sink.write` builds: the event's own columns, the status it was
classified with, and the hash of a `dict` under the writer's key. The source spells the columns
twice, for the `dict` (`eventRow`) and for the row, and so does the model; that they agree is
part of `sinkRecord_eq_ok`. `Sink.write` commits the row, and takes a primary key that is already
there for success.
-/

namespace SecurityAudit

open RecordIntegrity

variable (env : Env)

/-- The `dict` that is hashed: the columns of an event under a classification, with the
timestamp already naive UTC. -/
def eventRow (e : AuditEvent) (timestamp : Naive) (status : IntegrityStatus) : AuditRow where
  event_id := e.event_id
  timestamp := timestamp
  service := e.service
  event_type := e.event_type
  user_id := e.user_id
  organization_id := e.organization_id
  tenant_scope := e.tenant_scope.text
  action := e.action
  resource := e.resource
  decision := e.decision
  reason := e.reason
  trace_id := e.trace_id
  context := .obj e.context
  integrity_status := status.text
  record_integrity_hash := none
  integrity_key_id := none

/-- The row `Sink.write` adds to the session. -/
def sinkRecord (e : AuditEvent) (status : IntegrityStatus) : Except Exc AuditRow := do
  let (key, keyId) ← env.cfg.requireRecordIntegrityKey
  let timestamp ← toNaiveUtc e.timestamp
  let hash ← computeAuditEventHash env.crypto (eventRow e timestamp status) key (some keyId)
  return {
    event_id := e.event_id
    timestamp := timestamp
    service := e.service
    event_type := e.event_type
    user_id := e.user_id
    organization_id := e.organization_id
    tenant_scope := e.tenant_scope.text
    action := e.action
    resource := e.resource
    decision := e.decision
    reason := e.reason
    trace_id := e.trace_id
    context := .obj e.context
    integrity_status := status.text
    record_integrity_hash := some hash
    integrity_key_id := some keyId }

/-- `Sink.write`, for the event of the entry `source`. -/
def Sink.write (source : StreamId) (e : AuditEvent) (status : IntegrityStatus) : Worker Bool := do
  let row ← Prog.ofExcept (sinkRecord env e status)
  match ← (ask (.commitAuditEvent source e status row)).attempt with
  | .ok _ => return true
  | .error .integrityError =>
    ask .rollback
    return true
  | .error ex => .raise ex

/-! ## The row -/

variable {env} {e : AuditEvent} {status : IntegrityStatus} {row : AuditRow}

/-- What a row that `Sink.write` builds is: the columns that were hashed, with the hash. -/
theorem sinkRecord_eq_ok (h : sinkRecord env e status = .ok row) :
    ∃ key keyId timestamp hash, env.cfg.requireRecordIntegrityKey = .ok (key, keyId) ∧
      toNaiveUtc e.timestamp = .ok timestamp ∧
      computeAuditEventHash env.crypto (eventRow e timestamp status) key (some keyId) = .ok hash ∧
      row = { eventRow e timestamp status with
        record_integrity_hash := some hash, integrity_key_id := some keyId } := by
  obtain ⟨⟨key, keyId⟩, hkey, h⟩ := bind_eq_ok.mp h
  obtain ⟨timestamp, ht, h⟩ := bind_eq_ok.mp h
  obtain ⟨hash, hhash, h⟩ := bind_eq_ok.mp h
  exact ⟨key, keyId, timestamp, hash, hkey, ht, hhash, (Except.ok.inj h).symm⟩

theorem event_id_of_sinkRecord (h : sinkRecord env e status = .ok row) :
    row.event_id = e.event_id := by
  obtain ⟨_, _, _, _, -, -, -, rfl⟩ := sinkRecord_eq_ok h
  rfl

/-- The columns other than the timestamp are stored as they are built. -/
theorem sinkRecord_stored {stored : AuditRow} (h : sinkRecord env e status = .ok row)
    (hs : row.stored? = some stored) :
    ∃ timestamp t, toNaiveUtc e.timestamp = .ok timestamp ∧ timestamp.storeSecond? = some t ∧
      stored = { eventRow e t status with
        record_integrity_hash := row.record_integrity_hash
        integrity_key_id := row.integrity_key_id } := by
  obtain ⟨key, keyId, timestamp, hash, -, ht, -, rfl⟩ := sinkRecord_eq_ok h
  obtain ⟨t, hstore, rfl⟩ := AuditRow.stored?_eq hs
  exact ⟨timestamp, t, ht, hstore, rfl⟩

/-- The stored row carries the hash of its own columns, under the writer's key. -/
theorem sinkRecord_hash {stored : AuditRow} (h : sinkRecord env e status = .ok row)
    (hs : row.stored? = some stored) :
    ∃ key keyId hash, env.cfg.requireRecordIntegrityKey = .ok (key, keyId) ∧
      stored.integrity_key_id = some keyId ∧ stored.record_integrity_hash = some hash ∧
      computeAuditEventHash env.crypto stored key (some keyId) = .ok hash := by
  obtain ⟨key, keyId, timestamp, hash, hkey, -, hhash, rfl⟩ := sinkRecord_eq_ok h
  obtain ⟨t, hstore, rfl⟩ := AuditRow.stored?_eq hs
  refine ⟨key, keyId, hash, hkey, rfl, rfl, ?_⟩
  rw [← hhash]
  exact computeAuditEventHash_stored env.crypto hstore rfl key (some keyId)

end SecurityAudit
