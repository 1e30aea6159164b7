import SecurityAudit.Audit.Models

/-!
# The two tables: `db/models.py`

`AuditRow` and `QuarantineRow` are the column values a row of `audit_events` or
`quarantined_audit_events` has as the ORM hands them over: text, `NULL`, a naive timestamp, a
JSON value. The server-generated `created_at` and `quarantined_at` are left out, since no
modelled function reads them. A `DATETIME` column keeps whole seconds and rounds half up.

A server in strict mode refuses a row that one of its columns cannot take (`Fits`). Three columns
are not asked about: a stream id has at most 41 characters, a hash has 64, and for a JSON column
there is only the limit of the server on a packet.
-/

namespace SecurityAudit

/-- A row of `audit_events`. `context` is the value of a JSON column, `JVal.null` for `NULL`. -/
structure AuditRow where
  event_id : Str
  timestamp : Naive
  service : Str
  event_type : Str
  user_id : Option Str
  organization_id : Option Str
  tenant_scope : Str
  action : Str
  resource : Option Str
  decision : Option Str
  reason : Option Str
  trace_id : Option Str
  context : JVal
  integrity_status : Str
  record_integrity_hash : Option Str
  integrity_key_id : Option Str

/-- A row of `quarantined_audit_events`. -/
structure QuarantineRow where
  stream_message_id : Str
  raw_data : Option Str
  raw_signature : Option Str
  service : Option Str
  failure_category : Str
  failure_detail : Option Str
  delivery_attempts : ℤ
  record_integrity_hash : Option Str
  integrity_key_id : Option Str

/-- `Text`: at most 65535 bytes. -/
def FitsText (s : Str) : Prop := (s.map utf8Width).sum ≤ 65535

instance : DecidablePred FitsText := fun s => by unfold FitsText; infer_instance

/-- Each column can take its value. -/
def AuditRow.Fits (r : AuditRow) : Prop :=
  r.event_id.length ≤ 64 ∧ r.service.length ≤ 255 ∧ r.event_type.length ≤ 255 ∧
  (∀ s ∈ r.user_id, s.length ≤ 255) ∧ (∀ s ∈ r.organization_id, s.length ≤ 255) ∧
  r.tenant_scope.length ≤ 16 ∧ r.action.length ≤ 255 ∧ (∀ s ∈ r.resource, s.length ≤ 255) ∧
  (∀ s ∈ r.decision, s.length ≤ 64) ∧ (∀ s ∈ r.reason, FitsText s) ∧
  (∀ s ∈ r.trace_id, s.length ≤ 255) ∧ r.integrity_status.length ≤ 16 ∧
  ∀ s ∈ r.integrity_key_id, s.length ≤ 64

instance : DecidablePred AuditRow.Fits := fun r => by unfold AuditRow.Fits; infer_instance

/-- Each column can take its value. -/
def QuarantineRow.Fits (r : QuarantineRow) : Prop :=
  (∀ s ∈ r.raw_data, FitsText s) ∧ (∀ s ∈ r.raw_signature, FitsText s) ∧
  (∀ s ∈ r.service, s.length ≤ 255) ∧ r.failure_category.length ≤ 32 ∧
  (∀ s ∈ r.failure_detail, s.length ≤ 255) ∧ r.delivery_attempts ≤ 2147483647 ∧
  ∀ s ∈ r.integrity_key_id, s.length ≤ 64

instance : DecidablePred QuarantineRow.Fits := fun r => by
  unfold QuarantineRow.Fits; infer_instance

/-- What a `DATETIME` column keeps of a timestamp: the nearest second, half up; `none` past the
end of the range. -/
def Naive.storeSecond? (t : Naive) : Option Naive :=
  Naive.ofInt? (((t.us + 500000) / secondUs * secondUs : ℕ) : ℤ)

/-- The row the database keeps of a row it is given. -/
def AuditRow.stored? (r : AuditRow) : Option AuditRow :=
  (r.timestamp.storeSecond?).map fun t => { r with timestamp := t }

theorem Naive.storeSecond?_us {t u : Naive} (h : t.storeSecond? = some u) :
    u.us = (t.us + 500000) / secondUs * secondUs := by
  have := Naive.ofInt?_eq_some h
  omega

theorem Naive.storeSecond?_whole {t u : Naive} (h : t.storeSecond? = some u) : u.Whole := by
  unfold Naive.Whole Naive.microsecond
  rw [Naive.storeSecond?_us h]
  exact Nat.mul_mod_left _ _

theorem Naive.storeSecond?_of_whole {t : Naive} (h : t.Whole) : t.storeSecond? = some t := by
  have hus : (t.us + 500000) / secondUs * secondUs = t.us := by
    unfold Naive.Whole Naive.microsecond secondUs at h
    unfold secondUs
    omega
  rw [Naive.storeSecond?, hus, Naive.ofInt?_us]

theorem AuditRow.stored?_eq {r s : AuditRow} (h : r.stored? = some s) :
    ∃ t, r.timestamp.storeSecond? = some t ∧ s = { r with timestamp := t } := by
  obtain ⟨t, ht, rfl⟩ := Option.map_eq_some_iff.mp h
  exact ⟨t, ht, rfl⟩

end SecurityAudit
