import SecurityAudit.Audit.Signing
import SecurityAudit.Calendar.DateTime
import SecurityAudit.Json.Loads

/-!
# The audit event: `audit/models.py`

`AuditEvent` is what pydantic builds: the declared fields, and the outcome of the model
validator as a field of the structure, so an event whose scope and organization disagree
does not exist. `AuditEvent.validate` is the constructor call `AuditEvent(**payload)`: it
takes each declared field from the payload's items, ignores every other key, and runs
`validate_tenant_scope`. The two default factories (`uuid4`, `utcnow`) are values drawn by the
caller; pydantic's reading of a timestamp is a parameter.
-/

namespace SecurityAudit

/-- The tenant scope literals. -/
inductive TenantScope where
  | organization
  | global
  | unknown
deriving DecidableEq

namespace TenantScope

def text : TenantScope → Str
  | .organization => str "organization"
  | .global => str "global"
  | .unknown => str "unknown"

/-- `Literal["organization", "global", "unknown"]`. -/
def ofText? (s : Str) : Option TenantScope :=
  if s = text .organization then some .organization
  else if s = text .global then some .global
  else if s = text .unknown then some .unknown
  else none

theorem ofText?_text (t : TenantScope) : ofText? t.text = some t := by
  cases t <;> decide

theorem text_injective : Function.Injective text := fun a b h => by
  have := ofText?_text a
  rw [h, ofText?_text] at this
  exact (Option.some.inj this).symm

end TenantScope

/-- The first-class fields of an event. `Scoped` below is what makes it an `AuditEvent`. -/
structure AuditFields where
  event_id : Str
  timestamp : DateTime
  service : Str
  event_type : Str
  user_id : Option Str
  organization_id : Option Str
  tenant_scope : TenantScope
  action : Str
  resource : Option Str
  decision : Option Str
  reason : Option Str
  trace_id : Option Str
  context : List (Str × JVal)

/-- An organization scope and an organization id come together or not at all. -/
def AuditFields.Scoped (f : AuditFields) : Prop :=
  f.tenant_scope = .organization ↔ f.organization_id.isSome = true

/-- A validated event. -/
structure AuditEvent extends AuditFields where
  scope_ok : toAuditFields.Scoped

namespace AuditEvent

/-- `validate_tenant_scope`. -/
def validateTenantScope (f : AuditFields) : Except Exc AuditEvent :=
  let f := if f.organization_id ≠ none ∧ f.tenant_scope = .unknown then
    { f with tenant_scope := .organization } else f
  if h : f.tenant_scope = .organization ∧ f.organization_id = none then .error .validationError
  else if h' : f.tenant_scope ≠ .organization ∧ f.organization_id ≠ none then
    .error .validationError
  else .ok ⟨f, by
    unfold AuditFields.Scoped
    rw [Option.isSome_iff_ne_none]
    tauto⟩

/-- A `str` field: pydantic takes a string and nothing else JSON has. -/
def strField : JVal → Except Exc Str
  | .str s => .ok s
  | _ => .error .validationError

/-- A `str | None` field. -/
def optionalStr : JVal → Except Exc (Option Str)
  | .null => .ok none
  | .str s => .ok (some s)
  | _ => .error .validationError

/-- The `tenant_scope` field. -/
def scopeField : JVal → Except Exc TenantScope
  | .str s => orRaise .validationError (TenantScope.ofText? s)
  | _ => .error .validationError

/-- The `dict[str, Any]` field. -/
def dictField : JVal → Except Exc (List (Str × JVal))
  | .obj kvs => .ok kvs
  | _ => .error .validationError

/-- A declared field of a payload: its value validated, or the default where the key is
missing. -/
def field {α : Type} (payload : List (Str × JVal)) (name : String) (default : Except Exc α)
    (read : JVal → Except Exc α) : Except Exc α :=
  match JVal.lookup (str name) payload with
  | none => default
  | some v => read v

/-- A field without a default. -/
def required {α : Type} : Except Exc α := .error .validationError

section Validate

variable (parseDatetime : JVal → Option DateTime)

/-- A `datetime` field. -/
def timestampField (v : JVal) : Except Exc DateTime := orRaise .validationError (parseDatetime v)

/-- The declared fields of a payload. -/
def readFields (uuid : Str) (utcnow : Naive) (payload : List (Str × JVal)) :
    Except Exc AuditFields := do
  let event_id ← field payload "event_id" (.ok uuid) strField
  let timestamp ← field payload "timestamp" (.ok (.naive utcnow)) (timestampField parseDatetime)
  let service ← field payload "service" required strField
  let event_type ← field payload "event_type" required strField
  let user_id ← field payload "user_id" (.ok none) optionalStr
  let organization_id ← field payload "organization_id" (.ok none) optionalStr
  let tenant_scope ← field payload "tenant_scope" (.ok .unknown) scopeField
  let action ← field payload "action" (.ok []) strField
  let resource ← field payload "resource" (.ok none) optionalStr
  let decision ← field payload "decision" (.ok none) optionalStr
  let reason ← field payload "reason" (.ok none) optionalStr
  let trace_id ← field payload "trace_id" (.ok none) optionalStr
  let context ← field payload "context" (.ok []) dictField
  return ⟨event_id, timestamp, service, event_type, user_id, organization_id,
    tenant_scope, action, resource, decision, reason, trace_id, context⟩

/-- `AuditEvent(**payload)`. `parseDatetime` is pydantic's reading of a `datetime`; `uuid` and
`utcnow` are what the default factories return. -/
def validate (uuid : Str) (utcnow : Naive) (payload : List (Str × JVal)) :
    Except Exc AuditEvent := do
  validateTenantScope (← readFields parseDatetime uuid utcnow payload)

end Validate

/-- The validator fills in the scope of an event that names an organization, and changes
nothing else. -/
theorem validateTenantScope_eq {f : AuditFields} {e : AuditEvent}
    (h : validateTenantScope f = .ok e) :
    e.toAuditFields = { f with tenant_scope := e.tenant_scope } := by
  unfold validateTenantScope at h
  dsimp only at h
  split_ifs at h <;> cases h <;> rfl

/-- An event that names an organization is organization-scoped. -/
theorem scope_of_organization (e : AuditEvent) {org : Str} (h : e.organization_id = some org) :
    e.tenant_scope = .organization :=
  e.scope_ok.mpr (by simp [h])

/-- The `event_id` of a validated payload that has one does not depend on the draws. -/
theorem event_id_of_validate {parseDatetime : JVal → Option DateTime} {uuid : Str}
    {utcnow : Naive} {payload : List (Str × JVal)} {e : AuditEvent} {v : JVal}
    (hv : JVal.lookup (str "event_id") payload = some v)
    (h : validate parseDatetime uuid utcnow payload = .ok e) : strField v = .ok e.event_id := by
  obtain ⟨f, hf, he⟩ := bind_eq_ok.mp h
  have hid : e.event_id = f.event_id := by rw [validateTenantScope_eq he]
  obtain ⟨event_id, hevent_id, hf⟩ := bind_eq_ok.mp hf
  rw [field, hv] at hevent_id
  -- the other fields do not touch it
  iterate 12 obtain ⟨_, -, hf⟩ := bind_eq_ok.mp hf
  rw [hid, ← Except.ok.inj hf]
  exact hevent_id

end AuditEvent

end SecurityAudit
