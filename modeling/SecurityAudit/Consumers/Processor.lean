import SecurityAudit.Worker.Calls

/-!
# Parsing and classifying: `consumers/processor.py`
-/

namespace SecurityAudit

/-- `json.loads` as an exception-raising function. -/
def jsonLoads (s : Str) : Except Exc JVal :=
  match JVal.loads s with
  | .ok v => .ok v
  | .error .decode => .error .jsonDecodeError
  | .error .intTooLong => .error .valueError

/-- The items `AuditEvent(**payload)` is called with: only an object can be unpacked. -/
def unpack : JVal → Except Exc (List (Str × JVal))
  | .obj kvs => .ok kvs
  | _ => .error .typeError

/-- `parse_audit_event`. `uuid` and `utcnow` are what the default factories return, should
they be called. -/
def parseAuditEvent (env : Env) (uuid : Str) (utcnow : Naive) (rawEvent : Option Str) :
    Except Exc AuditEvent := do
  let raw ← orRaise .typeError rawEvent
  let payload ← jsonLoads raw
  let kvs ← unpack payload
  AuditEvent.validate env.parseDatetime uuid utcnow kvs

/-- `classify_event_integrity`. -/
def classifyEventIntegrity (C : Crypto) (service : Str) (signature : Option Str)
    (data : Option Str) (secret : Str) : IntegrityStatus :=
  match signature with
  | none => .unsigned
  | some sig =>
    if sig = [] then .unsigned
    else if Signing.verifyAuditEvent C service data sig secret = true then .valid
    else .invalid

theorem jsonLoads_eq_ok {s : Str} {v : JVal} : jsonLoads s = .ok v ↔ JVal.loads s = .ok v := by
  unfold jsonLoads
  cases JVal.loads s with
  | ok w => simp
  | error e => cases e <;> simp

/-- What an accepted payload is: the text of a JSON object whose fields validate. -/
theorem parseAuditEvent_eq_ok {env : Env} {uuid : Str} {utcnow : Naive} {rawEvent : Option Str}
    {e : AuditEvent} :
    parseAuditEvent env uuid utcnow rawEvent = .ok e ↔
      ∃ raw kvs, rawEvent = some raw ∧ JVal.loads raw = .ok (.obj kvs) ∧
        AuditEvent.validate env.parseDatetime uuid utcnow kvs = .ok e := by
  constructor
  · intro h
    obtain ⟨raw, hraw, h⟩ := bind_eq_ok.mp h
    obtain ⟨payload, hpayload, h⟩ := bind_eq_ok.mp h
    obtain ⟨kvs, hkvs, h⟩ := bind_eq_ok.mp h
    refine ⟨raw, kvs, orRaise_eq_ok.mp hraw, ?_, h⟩
    rw [jsonLoads_eq_ok.mp hpayload]
    cases payload <;> cases hkvs
    rfl
  · rintro ⟨raw, kvs, rfl, hloads, h⟩
    exact bind_eq_ok.mpr ⟨raw, rfl, bind_eq_ok.mpr
      ⟨_, jsonLoads_eq_ok.mpr hloads, bind_eq_ok.mpr ⟨kvs, rfl, h⟩⟩⟩

/-- Only a signature that is the right one classifies as valid. -/
theorem classifyEventIntegrity_valid {C : Crypto} {service : Str} {signature data : Option Str}
    {secret : Str} (h : classifyEventIntegrity C service signature data secret = .valid) :
    ∃ sig, signature = some sig ∧ Signing.signAuditEvent C service data secret = .ok sig := by
  unfold classifyEventIntegrity at h
  cases signature with
  | none => cases h
  | some sig =>
    dsimp only at h
    split_ifs at h with hne hverify
    exact ⟨sig, rfl, (Signing.verifyAuditEvent_iff C service data sig secret).mp hverify⟩

end SecurityAudit
