import SecurityAudit.Audit.Models

/-!
# What the event model accepts

`AuditEvent.Acceptable` is the schema on its own: which keys a payload must have, which types its
values may have, and how scope and organization go together. `AuditEvent(**payload)` returns an
event exactly for such a payload (`validate_isOk_iff`), whatever the default factories draw.
-/

namespace SecurityAudit

namespace AuditEvent

/-- The value of a key meets `p`, if the key is there. -/
def Optional (payload : List (Str × JVal)) (name : String) (p : JVal → Prop) : Prop :=
  ∀ v, JVal.lookup (str name) payload = some v → p v

/-- The key is there, and its value meets `p`. -/
def Required (payload : List (Str × JVal)) (name : String) (p : JVal → Prop) : Prop :=
  ∃ v, JVal.lookup (str name) payload = some v ∧ p v

/-- A string. -/
def IsStr (v : JVal) : Prop := ∃ s, v = .str s

/-- A string or null. -/
def IsOptionalStr (v : JVal) : Prop := v = .null ∨ IsStr v

/-- A string that names a scope. -/
def IsScope (v : JVal) : Prop := ∃ scope : TenantScope, v = .str scope.text

/-- An object. -/
def IsDict (v : JVal) : Prop := ∃ kvs, v = .obj kvs

/-- The payloads the model is for. -/
structure Acceptable (parseDatetime : JVal → Option DateTime) (payload : List (Str × JVal)) :
    Prop where
  event_id : Optional payload "event_id" IsStr
  timestamp : Optional payload "timestamp" fun v => (parseDatetime v).isSome = true
  service : Required payload "service" IsStr
  event_type : Required payload "event_type" IsStr
  user_id : Optional payload "user_id" IsOptionalStr
  organization_id : Optional payload "organization_id" IsOptionalStr
  tenant_scope : Optional payload "tenant_scope" IsScope
  action : Optional payload "action" IsStr
  resource : Optional payload "resource" IsOptionalStr
  decision : Optional payload "decision" IsOptionalStr
  reason : Optional payload "reason" IsOptionalStr
  trace_id : Optional payload "trace_id" IsOptionalStr
  context : Optional payload "context" IsDict
  /-- an organization is named exactly in an organization's scope, a scope of `"unknown"` or none
  at all being filled in -/
  named : Required payload "organization_id" IsStr →
    JVal.lookup (str "tenant_scope") payload ≠ some (.str TenantScope.global.text)
  unnamed : ¬Required payload "organization_id" IsStr →
    JVal.lookup (str "tenant_scope") payload ≠ some (.str TenantScope.organization.text)

variable {payload : List (Str × JVal)} {name : String} {α : Type} {d : Except Exc α}
  {read : JVal → Except Exc α}

/-! ## Fields -/

theorem strField_isOk {v : JVal} : (∃ s, strField v = .ok s) ↔ IsStr v := by
  cases v <;> simp [strField, IsStr]

theorem optionalStr_isOk {v : JVal} : (∃ s, optionalStr v = .ok s) ↔ IsOptionalStr v := by
  cases v <;> simp [optionalStr, IsOptionalStr, IsStr]

theorem dictField_isOk {v : JVal} : (∃ kvs, dictField v = .ok kvs) ↔ IsDict v := by
  cases v <;> simp [dictField, IsDict]

theorem scopeField_eq_ok {v : JVal} {scope : TenantScope} :
    scopeField v = .ok scope ↔ v = .str scope.text := by
  cases v with
  | str s =>
    rw [scopeField, orRaise_eq_ok]
    constructor
    · intro h
      unfold TenantScope.ofText? at h
      split_ifs at h with h₁ h₂ h₃ <;> cases h
      · rw [h₁]
      · rw [h₂]
      · rw [h₃]
    · intro h
      rw [JVal.str.inj h, TenantScope.ofText?_text]
  | _ => simp [scopeField]

theorem scopeField_isOk {v : JVal} : (∃ scope, scopeField v = .ok scope) ↔ IsScope v := by
  simp only [scopeField_eq_ok, IsScope]

theorem timestampField_isOk {parseDatetime : JVal → Option DateTime} {v : JVal} :
    (∃ t, timestampField parseDatetime v = .ok t) ↔ (parseDatetime v).isSome = true := by
  simp only [timestampField, orRaise_eq_ok, Option.isSome_iff_exists]

/-- A field with a default. -/
theorem field_isOk {p : JVal → Prop} {a : α} (hread : ∀ v, (∃ x, read v = .ok x) ↔ p v) :
    (∃ x, field payload name (.ok a) read = .ok x) ↔ Optional payload name p := by
  unfold field Optional
  cases JVal.lookup (str name) payload with
  | none => simp
  | some v => simp [hread v]

/-- A field without one. -/
theorem required_isOk {p : JVal → Prop} (hread : ∀ v, (∃ x, read v = .ok x) ↔ p v) :
    (∃ x, field payload name required read = .ok x) ↔ Required payload name p := by
  unfold field Required
  cases JVal.lookup (str name) payload with
  | none => simp [required]
  | some v => simp [hread v]

/-! ## Events -/

section

variable {parseDatetime : JVal → Option DateTime} {uuid : Str} {utcnow : Naive}

/-- A payload is read field by field. -/
theorem readFields_eq_ok {f : AuditFields} :
    readFields parseDatetime uuid utcnow payload = .ok f ↔
      field payload "event_id" (.ok uuid) strField = .ok f.event_id ∧
      field payload "timestamp" (.ok (.naive utcnow)) (timestampField parseDatetime) =
        .ok f.timestamp ∧
      field payload "service" required strField = .ok f.service ∧
      field payload "event_type" required strField = .ok f.event_type ∧
      field payload "user_id" (.ok none) optionalStr = .ok f.user_id ∧
      field payload "organization_id" (.ok none) optionalStr = .ok f.organization_id ∧
      field payload "tenant_scope" (.ok .unknown) scopeField = .ok f.tenant_scope ∧
      field payload "action" (.ok []) strField = .ok f.action ∧
      field payload "resource" (.ok none) optionalStr = .ok f.resource ∧
      field payload "decision" (.ok none) optionalStr = .ok f.decision ∧
      field payload "reason" (.ok none) optionalStr = .ok f.reason ∧
      field payload "trace_id" (.ok none) optionalStr = .ok f.trace_id ∧
      field payload "context" (.ok []) dictField = .ok f.context := by
  constructor
  · intro h
    obtain ⟨_, h₁, h⟩ := bind_eq_ok.mp h
    obtain ⟨_, h₂, h⟩ := bind_eq_ok.mp h
    obtain ⟨_, h₃, h⟩ := bind_eq_ok.mp h
    obtain ⟨_, h₄, h⟩ := bind_eq_ok.mp h
    obtain ⟨_, h₅, h⟩ := bind_eq_ok.mp h
    obtain ⟨_, h₆, h⟩ := bind_eq_ok.mp h
    obtain ⟨_, h₇, h⟩ := bind_eq_ok.mp h
    obtain ⟨_, h₈, h⟩ := bind_eq_ok.mp h
    obtain ⟨_, h₉, h⟩ := bind_eq_ok.mp h
    obtain ⟨_, h₁₀, h⟩ := bind_eq_ok.mp h
    obtain ⟨_, h₁₁, h⟩ := bind_eq_ok.mp h
    obtain ⟨_, h₁₂, h⟩ := bind_eq_ok.mp h
    obtain ⟨_, h₁₃, h⟩ := bind_eq_ok.mp h
    cases h
    exact ⟨h₁, h₂, h₃, h₄, h₅, h₆, h₇, h₈, h₉, h₁₀, h₁₁, h₁₂, h₁₃⟩
  · rintro ⟨h₁, h₂, h₃, h₄, h₅, h₆, h₇, h₈, h₉, h₁₀, h₁₁, h₁₂, h₁₃⟩
    unfold readFields
    simp only [h₁, h₂, h₃, h₄, h₅, h₆, h₇, h₈, h₉, h₁₀, h₁₁, h₁₂, h₁₃, ok_bind, pure_ok]

/-- The validator refuses an organization outside of an organization's scope, and the scope
without an organization. -/
theorem validateTenantScope_isOk {f : AuditFields} :
    (∃ e, validateTenantScope f = .ok e) ↔
      (f.organization_id ≠ none → f.tenant_scope ≠ .global) ∧
      (f.organization_id = none → f.tenant_scope ≠ .organization) := by
  obtain ⟨_, _, _, _, _, org, scope, _, _, _, _, _, _⟩ := f
  cases org <;> cases scope <;> simp [validateTenantScope]

/-- An organization is named by a string, and nothing else. -/
theorem named_iff {org : Option Str}
    (h : field payload "organization_id" (.ok none) optionalStr = .ok org) :
    org ≠ none ↔ Required payload "organization_id" IsStr := by
  unfold field at h
  unfold Required
  cases hlookup : JVal.lookup (str "organization_id") payload with
  | none =>
    rw [hlookup] at h
    cases h
    simp
  | some v =>
    rw [hlookup] at h
    cases v <;> cases h <;> simp [IsStr]

/-- A scope other than the default is read where it stands in the payload. -/
theorem scope_iff {scope scope' : TenantScope} (hne : scope' ≠ .unknown)
    (h : field payload "tenant_scope" (.ok .unknown) scopeField = .ok scope) :
    scope = scope' ↔ JVal.lookup (str "tenant_scope") payload = some (.str scope'.text) := by
  unfold field at h
  cases hlookup : JVal.lookup (str "tenant_scope") payload with
  | none =>
    rw [hlookup] at h
    cases h
    simp [hne.symm]
  | some v =>
    rw [hlookup] at h
    rw [scopeField_eq_ok.mp h, Option.some.injEq, JVal.str.injEq]
    exact TenantScope.text_injective.eq_iff.symm

/-- **The model accepts exactly the acceptable payloads.** -/
theorem validate_isOk_iff :
    (∃ e, validate parseDatetime uuid utcnow payload = .ok e) ↔
      Acceptable parseDatetime payload := by
  constructor
  · rintro ⟨e, h⟩
    obtain ⟨f, hf, he⟩ := bind_eq_ok.mp h
    obtain ⟨h₁, h₂, h₃, h₄, h₅, h₆, h₇, h₈, h₉, h₁₀, h₁₁, h₁₂, h₁₃⟩ := readFields_eq_ok.mp hf
    obtain ⟨hnamed, hunnamed⟩ := validateTenantScope_isOk.mp ⟨e, he⟩
    have horg := named_iff h₆
    exact {
      event_id := (field_isOk fun _ => strField_isOk).mp ⟨_, h₁⟩
      timestamp := (field_isOk fun _ => timestampField_isOk).mp ⟨_, h₂⟩
      service := (required_isOk fun _ => strField_isOk).mp ⟨_, h₃⟩
      event_type := (required_isOk fun _ => strField_isOk).mp ⟨_, h₄⟩
      user_id := (field_isOk fun _ => optionalStr_isOk).mp ⟨_, h₅⟩
      organization_id := (field_isOk fun _ => optionalStr_isOk).mp ⟨_, h₆⟩
      tenant_scope := (field_isOk fun _ => scopeField_isOk).mp ⟨_, h₇⟩
      action := (field_isOk fun _ => strField_isOk).mp ⟨_, h₈⟩
      resource := (field_isOk fun _ => optionalStr_isOk).mp ⟨_, h₉⟩
      decision := (field_isOk fun _ => optionalStr_isOk).mp ⟨_, h₁₀⟩
      reason := (field_isOk fun _ => optionalStr_isOk).mp ⟨_, h₁₁⟩
      trace_id := (field_isOk fun _ => optionalStr_isOk).mp ⟨_, h₁₂⟩
      context := (field_isOk fun _ => dictField_isOk).mp ⟨_, h₁₃⟩
      named := fun h hglobal =>
        hnamed (horg.mpr h) ((scope_iff (by decide) h₇).mpr hglobal)
      unnamed := fun h horganization =>
        hunnamed (by rwa [← horg, not_not] at h) ((scope_iff (by decide) h₇).mpr horganization) }
  · intro h
    obtain ⟨event_id, h₁⟩ := (field_isOk fun _ => strField_isOk).mpr h.event_id
    obtain ⟨timestamp, h₂⟩ := (field_isOk fun _ => timestampField_isOk).mpr h.timestamp
    obtain ⟨service, h₃⟩ := (required_isOk fun _ => strField_isOk).mpr h.service
    obtain ⟨event_type, h₄⟩ := (required_isOk fun _ => strField_isOk).mpr h.event_type
    obtain ⟨user_id, h₅⟩ := (field_isOk fun _ => optionalStr_isOk).mpr h.user_id
    obtain ⟨org, h₆⟩ := (field_isOk fun _ => optionalStr_isOk).mpr h.organization_id
    obtain ⟨scope, h₇⟩ := (field_isOk fun _ => scopeField_isOk).mpr h.tenant_scope
    obtain ⟨action, h₈⟩ := (field_isOk fun _ => strField_isOk).mpr h.action
    obtain ⟨resource, h₉⟩ := (field_isOk fun _ => optionalStr_isOk).mpr h.resource
    obtain ⟨decision, h₁₀⟩ := (field_isOk fun _ => optionalStr_isOk).mpr h.decision
    obtain ⟨reason, h₁₁⟩ := (field_isOk fun _ => optionalStr_isOk).mpr h.reason
    obtain ⟨trace_id, h₁₂⟩ := (field_isOk fun _ => optionalStr_isOk).mpr h.trace_id
    obtain ⟨context, h₁₃⟩ := (field_isOk fun _ => dictField_isOk).mpr h.context
    let f : AuditFields := ⟨event_id, timestamp, service, event_type, user_id, org, scope, action,
      resource, decision, reason, trace_id, context⟩
    have hf : readFields parseDatetime uuid utcnow payload = .ok f :=
      readFields_eq_ok.mpr ⟨h₁, h₂, h₃, h₄, h₅, h₆, h₇, h₈, h₉, h₁₀, h₁₁, h₁₂, h₁₃⟩
    have horg := named_iff h₆
    have hglobal : org ≠ none → scope ≠ .global := fun hsome heq =>
      h.named (horg.mp hsome) ((scope_iff (by decide) h₇).mp heq)
    have horganization : org = none → scope ≠ .organization := fun hnone heq =>
      h.unnamed (fun hnamed => horg.mpr hnamed hnone) ((scope_iff (by decide) h₇).mp heq)
    have hvalid : ∃ e, validateTenantScope f = .ok e :=
      validateTenantScope_isOk.mpr ⟨hglobal, horganization⟩
    obtain ⟨e, he⟩ := hvalid
    exact ⟨e, bind_eq_ok.mpr ⟨f, hf, he⟩⟩

end

end AuditEvent

end SecurityAudit
