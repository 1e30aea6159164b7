import SecurityAudit.Json.Native
import SecurityAudit.Audit.Acceptance
import SecurityAudit.Worker.Calls

/-!
# The producer of this repository: `audit/logger.py`

`AuditLogger.log` turns an event into JSON text once, signs exactly that text and adds both to
the stream as the fields of one entry. Anything that raises on the way is swallowed, and nothing
is added. The text pydantic writes for a `datetime` is a parameter.
The second half is about the way back: the payload is read as the event it was made from. How deep
pydantic lets a context nest, on either way, is outside the model.
-/

namespace SecurityAudit

/-- `json.dumps(value)`. -/
def jsonDumps (v : JVal) : Except Exc Str :=
  if v.intsFit = true then .ok (v.printed [cp ' ']) else .error .valueError

/-- `json.loads` reads back what `json.dumps` wrote. -/
theorem loads_jsonDumps {v : JVal} {text : Str} (hv : v.JsonNative) (h : jsonDumps v = .ok text) :
    JVal.loads text = .ok v := by
  unfold jsonDumps at h
  split_ifs at h with hfit
  rw [← Except.ok.inj h]
  exact JVal.loads_printed (List.forall_mem_singleton.mpr (by decide)) (hv.wellFormed hfit)

namespace AuditLogger

/-- The value of a `str | None` field. -/
def optionalValue : Option Str → JVal
  | none => .null
  | some s => .str s

variable (datetimeText : DateTime → Str)

/-- `event.model_dump(mode="json")`. -/
def modelDump (e : AuditEvent) : List (Str × JVal) :=
  [(str "event_id", .str e.event_id),
    (str "timestamp", .str (datetimeText e.timestamp)),
    (str "service", .str e.service),
    (str "event_type", .str e.event_type),
    (str "user_id", optionalValue e.user_id),
    (str "organization_id", optionalValue e.organization_id),
    (str "tenant_scope", .str e.tenant_scope.text),
    (str "action", .str e.action),
    (str "resource", optionalValue e.resource),
    (str "decision", optionalValue e.decision),
    (str "reason", optionalValue e.reason),
    (str "trace_id", optionalValue e.trace_id),
    (str "context", .obj e.context)]

/-- The fields `log` adds to the stream. -/
def fields (C : Crypto) (secret : Str) (e : AuditEvent) : Except Exc Fields := do
  let payload := modelDump datetimeText e
  let data ← jsonDumps (.obj payload)
  match JVal.lookup (str "service") payload with
  | some (.str service) =>
    if service = [] then return [(str "data", data)]
    else do
      let sig ← Signing.signAuditEvent C service (some data) secret
      return [(str "data", data), (str "sig", sig)]
  | _ => return [(str "data", data)]

/-- `AuditLogger.log`: what it adds to the stream, and nothing where something raised. -/
def log (C : Crypto) (secret : Str) (e : AuditEvent) : Option Fields :=
  match fields datetimeText C secret e with
  | .ok published => some published
  | .error _ => none

/-! ## What is published -/

variable {datetimeText}

theorem keys_modelDump (e : AuditEvent) : ((modelDump datetimeText e).map Prod.fst).Nodup := by
  simp only [modelDump, List.map_cons, List.map_nil]
  decide

/-- A key of the payload is found. -/
theorem lookup_modelDump {e : AuditEvent} {key : Str} {v : JVal}
    (h : (key, v) ∈ modelDump datetimeText e) :
    JVal.lookup key (modelDump datetimeText e) = some v := by
  unfold JVal.lookup
  cases hfind : (modelDump datetimeText e).find? fun kv => kv.1 = key with
  | none => simpa using List.find?_eq_none.mp hfind _ h
  | some kv =>
    have hkey : kv.1 = key := by simpa using List.find?_some hfind
    have hsame : kv = (key, v) :=
      List.inj_on_of_nodup_map (keys_modelDump e) (List.mem_of_find?_eq_some hfind) h hkey
    rw [hsame]
    rfl

/-- A signed event is published as its text and the signature of that text. -/
theorem fields_of_log {C : Crypto} {secret : Str} {e : AuditEvent} {published : Fields}
    (hservice : e.service ≠ []) (h : log datetimeText C secret e = some published) :
    ∃ data sig, jsonDumps (.obj (modelDump datetimeText e)) = .ok data ∧
      Signing.signAuditEvent C e.service (some data) secret = .ok sig ∧
      published = [(str "data", data), (str "sig", sig)] := by
  have hlookup : JVal.lookup (str "service") (modelDump datetimeText e) = some (.str e.service) :=
    lookup_modelDump (by simp [modelDump])
  unfold log at h
  split at h
  · next published' hfields =>
    obtain ⟨data, hdata, hfields⟩ := bind_eq_ok.mp hfields
    simp only [hlookup, if_neg hservice] at hfields
    obtain ⟨sig, hsig, hfields⟩ := bind_eq_ok.mp hfields
    rw [← Option.some.inj h, ← Except.ok.inj hfields]
    exact ⟨data, sig, hdata, hsig, rfl⟩
  · cases h

/-! ## Read back -/

variable {parseDatetime : JVal → Option DateTime} {uuid : Str} {utcnow : Naive} {e : AuditEvent}

theorem optionalStr_optionalValue (s : Option Str) :
    AuditEvent.optionalStr (optionalValue s) = .ok s := by
  cases s <;> rfl

/-- A field of the payload is read as what it was made from. -/
theorem field_modelDump {α : Type} {name : String} {v : JVal} {default : Except Exc α}
    {read : JVal → Except Exc α} {a : α} (h : (str name, v) ∈ modelDump datetimeText e)
    (hread : read v = .ok a) :
    AuditEvent.field (modelDump datetimeText e) name default read = .ok a := by
  rw [AuditEvent.field, lookup_modelDump h]
  exact hread

/-- A validated event passes the validator as it is. -/
theorem validateTenantScope_self (e : AuditEvent) :
    AuditEvent.validateTenantScope e.toAuditFields = .ok e := by
  obtain ⟨⟨_, _, _, _, _, org, scope, _, _, _, _, _, _⟩, hscope⟩ := e
  unfold AuditFields.Scoped at hscope
  cases org <;> cases scope <;> simp [AuditEvent.validateTenantScope] at hscope ⊢

/-- **The payload of an event is read as that event**, whatever the default factories draw. -/
theorem validate_modelDump (hparse : parseDatetime (.str (datetimeText e.timestamp)) =
    some e.timestamp) :
    AuditEvent.validate parseDatetime uuid utcnow (modelDump datetimeText e) = .ok e := by
  have hread : AuditEvent.readFields parseDatetime uuid utcnow (modelDump datetimeText e) =
      .ok e.toAuditFields := by
    refine AuditEvent.readFields_eq_ok.mpr ⟨?_, ?_, ?_, ?_, ?_, ?_, ?_, ?_, ?_, ?_, ?_, ?_, ?_⟩
    · exact field_modelDump (v := .str e.event_id) (by simp [modelDump]) rfl
    · exact field_modelDump (v := .str (datetimeText e.timestamp)) (by simp [modelDump])
        (by rw [AuditEvent.timestampField, hparse, orRaise_some])
    · exact field_modelDump (v := .str e.service) (by simp [modelDump]) rfl
    · exact field_modelDump (v := .str e.event_type) (by simp [modelDump]) rfl
    · exact field_modelDump (by simp [modelDump]) (optionalStr_optionalValue e.user_id)
    · exact field_modelDump (by simp [modelDump]) (optionalStr_optionalValue e.organization_id)
    · exact field_modelDump (by simp [modelDump]) (AuditEvent.scopeField_eq_ok.mpr rfl)
    · exact field_modelDump (v := .str e.action) (by simp [modelDump]) rfl
    · exact field_modelDump (by simp [modelDump]) (optionalStr_optionalValue e.resource)
    · exact field_modelDump (by simp [modelDump]) (optionalStr_optionalValue e.decision)
    · exact field_modelDump (by simp [modelDump]) (optionalStr_optionalValue e.reason)
    · exact field_modelDump (by simp [modelDump]) (optionalStr_optionalValue e.trace_id)
    · exact field_modelDump (v := .obj e.context) (by simp [modelDump]) rfl
  rw [AuditEvent.validate, hread, ok_bind]
  exact validateTenantScope_self e

end AuditLogger

/-! ## What an event may hold -/

/-- Unicode text or `None`. -/
def CleanOptional (s : Option Str) : Prop := ∀ t ∈ s, JVal.Clean t

/-- An event of Unicode text and a context that is JSON. -/
structure AuditEvent.Native (e : AuditEvent) : Prop where
  event_id : JVal.Clean e.event_id
  service : JVal.Clean e.service
  event_type : JVal.Clean e.event_type
  user_id : CleanOptional e.user_id
  organization_id : CleanOptional e.organization_id
  action : JVal.Clean e.action
  resource : CleanOptional e.resource
  decision : CleanOptional e.decision
  reason : CleanOptional e.reason
  trace_id : CleanOptional e.trace_id
  context : JVal.JsonNative (.obj e.context)

end SecurityAudit
