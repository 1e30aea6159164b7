import SecurityAudit.Db.Models
import SecurityAudit.Db.Select

/-!
# The read queries: `services/audit_query_service.py`

Every filter is a condition in SQL, the count and the page are taken of the same condition, and
the order is newest first with the event id to break ties. A bound on the timestamp is a
`datetime` the driver is given; it sends what the wall clock shows and drops the offset. Texts are
compared as they are, as under a binary collation.
-/

namespace SecurityAudit

/-- The table `audit_events`, with its primary key. -/
structure AuditTable where
  rows : List AuditRow
  primaryKey : (rows.map AuditRow.event_id).Nodup

namespace AuditQuery

/-- The optional conditions both queries take. -/
structure Filters where
  user_id : Option Str
  service : Option Str
  event_type : Option Str
  decision : Option Str
  integrity_status : Option Str
  from_timestamp : Option DateTime
  to_timestamp : Option DateTime

/-- What the SQL driver makes of a bound `datetime`. -/
def boundValue : DateTime → Naive
  | .naive t => t
  | .aware t => t.wall

/-- `column == value` in SQL. `NULL` equals nothing, and `== None` is `IS NULL`. -/
def sqlEq (column value : Option Str) : Bool := decide (column = value)

/-- `if value is not None: query.filter(column == value)`. -/
def optionally (value : Option Str) (column : Option Str) : Bool :=
  match value with
  | none => true
  | some v => sqlEq column (some v)

/-- `if from_timestamp is not None: query.filter(timestamp >= from_timestamp)`. -/
def notBefore (value : Option DateTime) (timestamp : Naive) : Bool :=
  match value with
  | none => true
  | some v => decide ((boundValue v).us ≤ timestamp.us)

/-- `if to_timestamp is not None: query.filter(timestamp <= to_timestamp)`. -/
def notAfter (value : Option DateTime) (timestamp : Naive) : Bool :=
  match value with
  | none => true
  | some v => decide (timestamp.us ≤ (boundValue v).us)

/-- The filters on columns other than the timestamp. -/
def Filters.onColumns (f : Filters) (r : AuditRow) : Bool :=
  optionally f.user_id r.user_id && optionally f.service (some r.service) &&
    optionally f.event_type (some r.event_type) && optionally f.decision r.decision &&
    optionally f.integrity_status (some r.integrity_status)

/-- The filters on the timestamp. -/
def Filters.onTimestamp (f : Filters) (r : AuditRow) : Bool :=
  notBefore f.from_timestamp r.timestamp && notAfter f.to_timestamp r.timestamp

/-! ## What matches -/

/-- The row passes every filter that is set. -/
structure Filters.Matches (f : Filters) (r : AuditRow) : Prop where
  user_id : ∀ v ∈ f.user_id, r.user_id = some v
  service : ∀ v ∈ f.service, r.service = v
  event_type : ∀ v ∈ f.event_type, r.event_type = v
  decision : ∀ v ∈ f.decision, r.decision = some v
  integrity_status : ∀ v ∈ f.integrity_status, r.integrity_status = v
  from_timestamp : ∀ v ∈ f.from_timestamp, (boundValue v).us ≤ r.timestamp.us
  to_timestamp : ∀ v ∈ f.to_timestamp, r.timestamp.us ≤ (boundValue v).us

theorem optionally_iff {value column : Option Str} :
    optionally value column = true ↔ ∀ v ∈ value, column = some v := by
  cases value <;> simp [optionally, sqlEq]

theorem matches_iff {f : Filters} {r : AuditRow} :
    (f.onColumns r = true ∧ f.onTimestamp r = true) ↔ f.Matches r := by
  have hfrom : notBefore f.from_timestamp r.timestamp = true ↔
      ∀ v ∈ f.from_timestamp, (boundValue v).us ≤ r.timestamp.us := by
    cases f.from_timestamp <;> simp [notBefore]
  have hto : notAfter f.to_timestamp r.timestamp = true ↔
      ∀ v ∈ f.to_timestamp, r.timestamp.us ≤ (boundValue v).us := by
    cases f.to_timestamp <;> simp [notAfter]
  simp only [Filters.onColumns, Filters.onTimestamp, Bool.and_eq_true, optionally_iff, hfrom, hto,
    Option.some.injEq]
  constructor
  · rintro ⟨⟨⟨⟨⟨huser, hservice⟩, htype⟩, hdecision⟩, hstatus⟩, hfrom, hto⟩
    exact ⟨huser, hservice, htype, hdecision, hstatus, hfrom, hto⟩
  · intro h
    exact ⟨⟨⟨⟨⟨h.user_id, h.service⟩, h.event_type⟩, h.decision⟩, h.integrity_status⟩,
      h.from_timestamp, h.to_timestamp⟩

instance (f : Filters) (r : AuditRow) : Decidable (f.Matches r) := decidable_of_iff _ matches_iff

/-! ## Pages -/

/-- `order_by(timestamp.desc(), event_id.desc())`. -/
def newestFirst (a b : AuditRow) : Prop :=
  b.timestamp.us < a.timestamp.us ∨ (a.timestamp.us = b.timestamp.us ∧ b.event_id ≤ a.event_id)

instance : DecidableRel newestFirst := fun _ _ => inferInstanceAs (Decidable (_ ∨ _))

/-- The page and the total of a condition. The server takes any offset here; the real one refuses an
offset of `2 ^ 64` or more. -/
def pageAndTotal (t : AuditTable) (p : AuditRow → Bool) (page page_size : ℕ) : List AuditRow × ℕ :=
  (Select.page newestFirst p ((page - 1) * page_size) page_size t.rows, Select.count p t.rows)

/-- `list_audit_events`. -/
def listAuditEvents (t : AuditTable) (page page_size : ℕ) (organization_id : Option Str)
    (f : Filters) : List AuditRow × ℕ :=
  pageAndTotal t (fun r => optionally organization_id r.organization_id && f.onColumns r &&
    f.onTimestamp r) page page_size

/-- The rows a caller may see: of one organization, or of any. -/
def inScope (organization_id : Option Str) (platform_wide : Bool) (r : AuditRow) : Bool :=
  if platform_wide = false then
    sqlEq r.organization_id organization_id &&
      sqlEq (some r.tenant_scope) (some (TenantScope.text .organization))
  else optionally organization_id r.organization_id

/-- `list_safe_audit_events`. -/
def listSafeAuditEvents (t : AuditTable) (page page_size : ℕ) (organization_id : Option Str)
    (platform_wide : Bool) (f : Filters) : List AuditRow × ℕ :=
  pageAndTotal t (fun r => inScope organization_id platform_wide r && f.onColumns r &&
    f.onTimestamp r) page page_size

/-- `SAFE_METADATA_KEYS`. -/
def safeMetadataKeys : List String :=
  ["trace_id", "request_id", "workflow_id", "run_id", "resource_type", "resource_id", "backend"]

/-- `project_safe_metadata`. -/
def projectSafeMetadata (r : AuditRow) : List (Str × JVal) :=
  match r.context with
  | .obj context => safeMetadataKeys.filterMap fun key =>
      (JVal.lookup (str key) context).map fun v => (str key, v)
  | _ => []

/-- The order tells the rows of a table apart. -/
theorem orders (t : AuditTable) : Select.Orders newestFirst t.rows := by
  refine ⟨fun a b => ?_, fun a b c hab hbc => ?_, fun a ha b hb hab hba => ?_⟩
  · unfold newestFirst
    rcases lt_trichotomy a.timestamp.us b.timestamp.us with h | h | h
    · exact .inr (.inl h)
    · exact (le_total b.event_id a.event_id).imp (fun hle => .inr ⟨h, hle⟩)
        fun hle => .inr ⟨h.symm, hle⟩
    · exact .inl (.inl h)
  · unfold newestFirst at *
    rcases hab with hab | ⟨hab, hab'⟩
    · rcases hbc with hbc | ⟨hbc, -⟩
      · exact .inl (hbc.trans hab)
      · exact .inl (by omega)
    · rcases hbc with hbc | ⟨hbc, hbc'⟩
      · exact .inl (by omega)
      · exact .inr ⟨hab.trans hbc, hbc'.trans hab'⟩
  · have hid : a.event_id = b.event_id := by
      rcases hab with hab | ⟨hab, hab'⟩ <;> rcases hba with hba | ⟨hba, hba'⟩
      · omega
      · omega
      · omega
      · exact le_antisymm hba' hab'
    exact List.inj_on_of_nodup_map t.primaryKey ha hb hid

/-- Two tables with the same selected rows answer alike. -/
theorem pageAndTotal_congr {t t' : AuditTable} {p q : AuditRow → Bool}
    (h : (t.rows.filter p).Perm (t'.rows.filter q)) (page page_size : ℕ) :
    pageAndTotal t p page page_size = pageAndTotal t' q page page_size :=
  Prod.ext (Select.page_congr (orders t) h _ _) (Select.count_congr h)

end AuditQuery

end SecurityAudit
