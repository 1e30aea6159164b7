import SecurityAudit.Consumers.Sink

/-!
# Quarantining a poison entry: `consumers/quarantine.py`

As in the other sink, the columns are spelled twice, for the `dict` that is hashed (`poisonRow`)
and for the row. An alert follows the commit.
-/

namespace SecurityAudit

open RecordIntegrity

/-- The failure category, the service where it can be told, and the failure detail. -/
structure PoisonReason where
  failure_category : Str
  service : Option Str
  failure_detail : Option Str

/-- `type(e).__name__` of what `json.loads` raises. -/
def loadsErrorName : JVal.LoadsError → Str
  | .decode => str "JSONDecodeError"
  | .intTooLong => str "ValueError"

/-- `payload.get("service") if isinstance(payload.get("service"), str) else None`. -/
def serviceOf (payload : List (Str × JVal)) : Option Str :=
  match JVal.lookup (str "service") payload with
  | some (.str s) => some s
  | _ => none

/-- `classify_poison_reason`. -/
def classifyPoisonReason : Option Str → PoisonReason
  | none => ⟨str "malformed", none, some (str "MissingDataField")⟩
  | some raw =>
    match JVal.loads raw with
    | .error e => ⟨str "malformed", none, some (loadsErrorName e)⟩
    | .ok (.obj payload) => ⟨str "persistence_exhausted", serviceOf payload, none⟩
    | .ok _ => ⟨str "malformed", none, some (str "NotAJsonObject")⟩

variable (env : Env)

/-- The `dict` that is hashed. -/
def poisonRow (messageId : Str) (fields : Fields) (deliveryAttempts : ℕ) : QuarantineRow where
  stream_message_id := messageId
  raw_data := fields.get "data"
  raw_signature := fields.get "sig"
  service := (classifyPoisonReason (fields.get "data")).service
  failure_category := (classifyPoisonReason (fields.get "data")).failure_category
  failure_detail := (classifyPoisonReason (fields.get "data")).failure_detail
  delivery_attempts := deliveryAttempts
  record_integrity_hash := none
  integrity_key_id := none

/-- The row `QuarantineSink.write` adds to the session. -/
def quarantineRecord (messageId : Str) (fields : Fields) (deliveryAttempts : ℕ) :
    Except Exc QuarantineRow := do
  let (key, keyId) ← env.cfg.requireRecordIntegrityKey
  let rawData := fields.get "data"
  let rawSignature := fields.get "sig"
  let reason := classifyPoisonReason rawData
  let hash ← computeQuarantineRecordHash env.crypto (poisonRow messageId fields deliveryAttempts)
    key (some keyId)
  return {
    stream_message_id := messageId
    raw_data := rawData
    raw_signature := rawSignature
    service := reason.service
    failure_category := reason.failure_category
    failure_detail := reason.failure_detail
    delivery_attempts := deliveryAttempts
    record_integrity_hash := some hash
    integrity_key_id := some keyId }

/-- The `commit` of the row: one that is there already is rolled back and is as good. -/
def QuarantineSink.commit (messageId : StreamId) (row : QuarantineRow) : Worker Unit := do
  match ← (ask (.commitQuarantined messageId row)).attempt with
  | .ok _ => return ()
  | .error .integrityError => ask .rollback
  | .error ex => .raise ex

/-- The alert about a quarantined entry. -/
def poisonAlert (fields : Fields) (deliveryAttempts : ℕ) : Alert :=
  let reason := classifyPoisonReason (fields.get "data")
  .poisonQuarantined reason.failure_category reason.service deliveryAttempts

/-- `QuarantineSink.write`. -/
def QuarantineSink.write (messageId : StreamId) (fields : Fields) (deliveryAttempts : ℕ) :
    Worker Bool := do
  let row ← Prog.ofExcept (quarantineRecord env messageId.text fields deliveryAttempts)
  QuarantineSink.commit messageId row
  ask (.alert (poisonAlert fields deliveryAttempts))
  return true

variable {env}

/-- What a row that `QuarantineSink.write` builds is: the columns that were hashed, with the
hash. -/
theorem quarantineRecord_eq_ok {messageId : Str} {fields : Fields} {deliveryAttempts : ℕ}
    {row : QuarantineRow} (h : quarantineRecord env messageId fields deliveryAttempts = .ok row) :
    ∃ key keyId hash, env.cfg.requireRecordIntegrityKey = .ok (key, keyId) ∧
      computeQuarantineRecordHash env.crypto (poisonRow messageId fields deliveryAttempts) key
        (some keyId) = .ok hash ∧
      row = { poisonRow messageId fields deliveryAttempts with
        record_integrity_hash := some hash, integrity_key_id := some keyId } := by
  obtain ⟨⟨key, keyId⟩, hkey, h⟩ := bind_eq_ok.mp h
  obtain ⟨hash, hhash, h⟩ := bind_eq_ok.mp h
  exact ⟨key, keyId, hash, hkey, hhash, (Except.ok.inj h).symm⟩

end SecurityAudit
