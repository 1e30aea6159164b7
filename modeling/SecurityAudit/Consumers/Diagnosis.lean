import SecurityAudit.Audit.Acceptance
import SecurityAudit.Worker.Scenarios

/-!
# The diagnosis of a poison entry against the parser

`classify_poison_reason` calls every JSON object `persistence_exhausted`: a good event that the
database never took. `parse_audit_event` takes only objects that fit the event model. So the two
agree on every payload but the objects that do not fit (`diagnosis_agrees_iff`).
-/

namespace SecurityAudit

variable {env : Env} {uuid : Str} {utcnow : Naive} {raw : Option Str}

/-- An entry is diagnosed as exhausted exactly if its payload parses, as malformed otherwise, and
the service named is the event's. -/
structure DiagnosisAgrees (env : Env) (uuid : Str) (utcnow : Naive) (raw : Option Str) : Prop where
  exhausted : (classifyPoisonReason raw).failure_category = str "persistence_exhausted" ↔
    ∃ e, parseAuditEvent env uuid utcnow raw = .ok e
  malformed : (∀ e, parseAuditEvent env uuid utcnow raw ≠ .ok e) →
    (classifyPoisonReason raw).failure_category = str "malformed"
  service : ∀ e, parseAuditEvent env uuid utcnow raw = .ok e →
    (classifyPoisonReason raw).failure_category = str "persistence_exhausted" →
      (classifyPoisonReason raw).service = some e.service

/-- A payload is called exhausted if it is a JSON object, and malformed if it is anything
else. -/
theorem failure_category_cases (raw : Option Str) :
    ((classifyPoisonReason raw).failure_category = str "persistence_exhausted" ∧
      ∃ text kvs, raw = some text ∧ JVal.loads text = .ok (.obj kvs) ∧
        (classifyPoisonReason raw).service = serviceOf kvs) ∨
    ((classifyPoisonReason raw).failure_category = str "malformed" ∧
      ∀ text kvs, raw = some text → JVal.loads text ≠ .ok (.obj kvs)) := by
  cases raw with
  | none => exact .inr ⟨rfl, by simp⟩
  | some text =>
    cases hloads : JVal.loads text with
    | error e =>
      right
      refine ⟨by simp [classifyPoisonReason, hloads], ?_⟩
      rintro _ kvs ⟨⟩
      simp [hloads]
    | ok v =>
      by_cases hobj : ∃ kvs, v = .obj kvs
      · obtain ⟨kvs, rfl⟩ := hobj
        left
        exact ⟨by simp [classifyPoisonReason, hloads], text, kvs, rfl, hloads,
          by simp [classifyPoisonReason, hloads]⟩
      · right
        constructor
        · cases v <;> first
            | exact absurd ⟨_, rfl⟩ hobj
            | simp [classifyPoisonReason, hloads]
        · rintro _ kvs ⟨⟩ h
          rw [hloads] at h
          exact hobj ⟨kvs, Except.ok.inj h⟩

theorem exhausted_ne_malformed : str "persistence_exhausted" ≠ str "malformed" := by
  decide

/-- The parser takes an object that fits the model, and nothing else. -/
theorem parse_isOk_iff : (∃ e, parseAuditEvent env uuid utcnow raw = .ok e) ↔
    ∃ text kvs, raw = some text ∧ JVal.loads text = .ok (.obj kvs) ∧
      AuditEvent.Acceptable env.parseDatetime kvs := by
  constructor
  · rintro ⟨e, he⟩
    obtain ⟨text, kvs, hraw, hloads, hvalid⟩ := parseAuditEvent_eq_ok.mp he
    exact ⟨text, kvs, hraw, hloads, AuditEvent.validate_isOk_iff.mp ⟨e, hvalid⟩⟩
  · rintro ⟨text, kvs, hraw, hloads, haccept⟩
    obtain ⟨e, hvalid⟩ := AuditEvent.validate_isOk_iff.mpr haccept
    exact ⟨e, parseAuditEvent_eq_ok.mpr ⟨text, kvs, hraw, hloads, hvalid⟩⟩

/-- Both readers take the service from the same place. -/
theorem serviceOf_of_validate {parseDatetime : JVal → Option DateTime} {kvs : List (Str × JVal)}
    {e : AuditEvent} (h : AuditEvent.validate parseDatetime uuid utcnow kvs = .ok e) :
    serviceOf kvs = some e.service := by
  obtain ⟨f, hf, he⟩ := bind_eq_ok.mp h
  have hservice : e.service = f.service := by rw [AuditEvent.validateTenantScope_eq he]
  have hread := (AuditEvent.readFields_eq_ok.mp hf).2.2.1
  unfold AuditEvent.field at hread
  unfold serviceOf
  cases hlookup : JVal.lookup (str "service") kvs with
  | none =>
    rw [hlookup] at hread
    cases hread
  | some v =>
    rw [hlookup] at hread
    cases v <;> cases hread
    rw [hservice]

/-- **The diagnosis agrees with the parser exactly on the payloads that are no JSON object or fit
the event model.** -/
theorem diagnosis_agrees_iff (env : Env) (uuid : Str) (utcnow : Naive) (raw : Option Str) :
    DiagnosisAgrees env uuid utcnow raw ↔
      ∀ text kvs, raw = some text → JVal.loads text = .ok (.obj kvs) →
        AuditEvent.Acceptable env.parseDatetime kvs := by
  constructor
  · intro h text kvs hraw hloads
    obtain ⟨hcategory, -⟩ | ⟨-, hnone⟩ := failure_category_cases raw
    · obtain ⟨text', kvs', hraw', hloads', haccept⟩ := parse_isOk_iff.mp (h.exhausted.mp hcategory)
      obtain rfl : text = text' := Option.some.inj (hraw.symm.trans hraw')
      obtain rfl : kvs = kvs' := JVal.obj.inj (Except.ok.inj (hloads.symm.trans hloads'))
      exact haccept
    · exact absurd hloads (hnone text kvs hraw)
  · intro h
    obtain ⟨hcategory, text, kvs, hraw, hloads, hservice⟩ | ⟨hcategory, hnone⟩ :=
      failure_category_cases raw
    · have hparses : ∃ e, parseAuditEvent env uuid utcnow raw = .ok e :=
        parse_isOk_iff.mpr ⟨text, kvs, hraw, hloads, h text kvs hraw hloads⟩
      refine ⟨iff_of_true hcategory hparses, fun hfails => ?_, fun e he _ => ?_⟩
      · obtain ⟨e, he⟩ := hparses
        exact absurd he (hfails e)
      · obtain ⟨text', kvs', hraw', hloads', hvalid⟩ := parseAuditEvent_eq_ok.mp he
        obtain rfl : text = text' := Option.some.inj (hraw.symm.trans hraw')
        obtain rfl : kvs = kvs' := JVal.obj.inj (Except.ok.inj (hloads.symm.trans hloads'))
        rw [hservice, serviceOf_of_validate hvalid]
    · have hfails : ¬∃ e, parseAuditEvent env uuid utcnow raw = .ok e := by
        intro hparses
        obtain ⟨text, kvs, hraw, hloads, -⟩ := parse_isOk_iff.mp hparses
        exact hnone text kvs hraw hloads
      have hother : (classifyPoisonReason raw).failure_category ≠ str "persistence_exhausted" := by
        rw [hcategory]
        exact exhausted_ne_malformed.symm
      exact ⟨iff_of_false hother hfails, fun _ => hcategory, fun e he => absurd ⟨e, he⟩ hfails⟩

/-- The empty object is called exhausted and does not parse. -/
theorem empty_object_misdiagnosed : ¬∀ (env : Env) (uuid : Str) (utcnow : Naive)
    (raw : Option Str), DiagnosisAgrees env uuid utcnow raw := by
  intro h
  have hagrees := h Sample.env [] Sample.utcnow (some (str "\x7b\x7d"))
  have hcategory : (classifyPoisonReason (some (str "\x7b\x7d"))).failure_category =
      str "persistence_exhausted" := by decide
  obtain ⟨e, he⟩ := hagrees.exhausted.mp hcategory
  have hfails : parseAuditEvent Sample.env [] Sample.utcnow (some (str "\x7b\x7d")) =
      .error .validationError := by rfl
  rw [hfails] at he
  cases he

end SecurityAudit
