import SecurityAudit.Api.AuditEvents

/-!
# Page after page: `api/routes_audit_events.py`

`/audit/events` answers with one page of the query's rows and the number of pages. The rows of a
page are cut out of the whole result by `OFFSET` and `LIMIT`, and the number of pages is computed
from the count in another module; `pages_partition` says that the two fit.
-/

namespace SecurityAudit

open AuditQuery

/-- `(total + page_size - 1) // page_size if total else 0`. -/
def totalPages (total page_size : ℕ) : ℕ :=
  if total = 0 then 0 else (total + page_size - 1) / page_size

/-- `AuditEventOut`. -/
structure AuditEventOut where
  event_id : Str
  timestamp : Naive
  service : Str
  event_type : Str
  user_id : Option Str
  organization_id : Option Str
  tenant_scope : Str
  action : Str
  resource : Option Str
  decision : Option Str
  reason : Option Str
  trace_id : Option Str
  context : List (Str × JVal)
  integrity_status : Str

/-- `AuditEventOut.model_validate(row)`, which takes only an object for the context, and then the
context replaced by its safe part. -/
def auditEventOut (r : AuditRow) : Except Exc AuditEventOut :=
  match r.context with
  | .obj _ => .ok {
      event_id := r.event_id
      timestamp := r.timestamp
      service := r.service
      event_type := r.event_type
      user_id := r.user_id
      organization_id := r.organization_id
      tenant_scope := r.tenant_scope
      action := r.action
      resource := r.resource
      decision := r.decision
      reason := r.reason
      trace_id := r.trace_id
      context := projectSafeMetadata r
      integrity_status := r.integrity_status }
  | _ => .error .validationError

/-- The part of `AuditEventListResponse` that depends on the request and the ledger. -/
structure AuditEventList where
  items : List AuditEventOut
  total : ℕ
  page : ℕ
  page_size : ℕ
  total_pages : ℕ

/-- `list_audit_events`, the route. `none` is the 503 for a database that raises
`SQLAlchemyError`. -/
def listAuditEventsRoute (page page_size : ℕ) (f : Filters) (db : Option AuditTable) :
    Except Exc (Option AuditEventList) :=
  match db with
  | none => .ok none
  | some t => do
    let (rows, total) := listAuditEvents t page page_size none f
    let items ← rows.mapM auditEventOut
    return some ⟨items, total, page, page_size, totalPages total page_size⟩

/-! ## What matches -/

/-- The row is of the organization, if one is named. -/
def OfOrganization (organization_id : Option Str) (r : AuditRow) : Prop :=
  ∀ org ∈ organization_id, r.organization_id = some org

/-- The row is in the scope of the tenant-safe query. -/
def InScope (organization_id : Option Str) (platform_wide : Bool) (r : AuditRow) : Prop :=
  if platform_wide = true then OfOrganization organization_id r
  else r.organization_id = organization_id ∧ r.tenant_scope = TenantScope.text .organization

/-- A row comes strictly before another one: it is newer, or as new with the greater id. -/
def Before (a b : AuditRow) : Prop :=
  b.timestamp.us < a.timestamp.us ∨ (a.timestamp.us = b.timestamp.us ∧ b.event_id < a.event_id)

/-- The answers to the requests for the pages `1` to `total_pages`, one after the other. -/
def concatenated (page_size : ℕ) (answer : ℕ → List AuditRow × ℕ) : List AuditRow :=
  (List.range (totalPages (answer 1).2 page_size)).flatMap fun k => (answer (k + 1)).1

/-- The pages are a partition of the matching rows. -/
structure Partition (t : AuditTable) (Matches : AuditRow → Prop) (page_size : ℕ)
    (answer : ℕ → List AuditRow × ℕ) : Prop where
  matching : ∀ r, r ∈ concatenated page_size answer ↔ r ∈ t.rows ∧ Matches r
  decreasing : (concatenated page_size answer).Pairwise Before
  once : (concatenated page_size answer).Nodup
  total : ∀ page, (answer page).2 = {r | r ∈ t.rows ∧ Matches r}.ncard
  later : ∀ page, totalPages (answer page).2 page_size < page → (answer page).1 = []
  full : ∀ page, 1 ≤ page → page < totalPages (answer page).2 page_size →
    (answer page).1.length = page_size

theorem inScope_iff {organization_id : Option Str} {platform_wide : Bool} {r : AuditRow} :
    inScope organization_id platform_wide r = true ↔ InScope organization_id platform_wide r := by
  cases platform_wide with
  | false => simp [inScope, InScope, sqlEq]
  | true =>
    show optionally organization_id r.organization_id = true ↔ _
    exact optionally_iff

theorem totalPages_eq {page_size : ℕ} (h : 1 ≤ page_size) (total : ℕ) :
    totalPages total page_size = Select.pages total page_size := by
  unfold totalPages
  split_ifs with hzero
  · rw [hzero, Select.pages, Nat.zero_add, Nat.div_eq_of_lt (by omega)]
  · rfl

/-- Rows of a table in the order of the query come strictly one before the other. -/
theorem pairwise_before (t : AuditTable) (p : AuditRow → Bool) :
    ((t.rows.filter p).insertionSort newestFirst).Pairwise Before := by
  have horders := (orders t).sublist (List.filter_sublist (p := p))
  have htotal : Std.Total newestFirst := ⟨horders.total⟩
  have htrans : IsTrans AuditRow newestFirst := ⟨horders.trans⟩
  have hperm := List.perm_insertionSort newestFirst (t.rows.filter p)
  have hids : (((t.rows.filter p).insertionSort newestFirst).map AuditRow.event_id).Nodup :=
    (hperm.map _).nodup_iff.mpr (t.primaryKey.sublist (List.filter_sublist.map _))
  have hne := List.pairwise_map.mp hids
  refine ((List.pairwise_insertionSort newestFirst _).and hne).imp ?_
  rintro a b ⟨hab | ⟨htime, hid⟩, hne⟩
  · exact .inl hab
  · exact .inr ⟨htime, lt_of_le_of_ne hid (Ne.symm hne)⟩

/-- The pages of any condition that says whether a row matches. -/
theorem partition_pageAndTotal (t : AuditTable) {p : AuditRow → Bool} {Matches : AuditRow → Prop}
    (hp : ∀ r, p r = true ↔ Matches r) {page_size : ℕ} (h : 1 ≤ page_size) :
    Partition t Matches page_size fun page => pageAndTotal t p page page_size := by
  have hall : concatenated page_size (fun page => pageAndTotal t p page page_size) =
      (t.rows.filter p).insertionSort newestFirst := by
    rw [← Select.flatMap_all_pages newestFirst h, ← totalPages_eq h]
    rfl
  have hmem : ∀ r, r ∈ (t.rows.filter p).insertionSort newestFirst ↔ r ∈ t.rows ∧ Matches r := by
    intro r
    rw [List.mem_insertionSort, List.mem_filter, hp]
  have hnodup : ((t.rows.filter p).insertionSort newestFirst).Nodup :=
    (List.perm_insertionSort _ _).nodup_iff.mpr (t.primaryKey.of_map.filter _)
  constructor
  · rwa [hall]
  · rw [hall]
    exact pairwise_before t p
  · rwa [hall]
  · intro page
    classical
    have hset : {r | r ∈ t.rows ∧ Matches r} =
        ((t.rows.filter p).insertionSort newestFirst).toFinset := by
      ext r
      simp [← hmem]
    rw [hset, Set.ncard_coe_finset, List.toFinset_card_of_nodup hnodup, Select.length_sorted]
    rfl
  · intro page hpage
    rw [totalPages_eq h] at hpage
    exact Select.page_eq_nil newestFirst h p t.rows (Nat.le_sub_one_of_lt hpage)
  · intro page hone hpage
    rw [totalPages_eq h] at hpage
    exact Select.length_page newestFirst p t.rows (by rwa [Nat.sub_add_cancel hone])

/-- **Pages partition the result**, of either query, for every ledger, every combination of
filters and every page size. -/
theorem pages_partition (t : AuditTable) (f : Filters) (page_size : ℕ) (h : 1 ≤ page_size) :
    (∀ organization_id, Partition t (fun r => OfOrganization organization_id r ∧ f.Matches r)
      page_size fun page => listAuditEvents t page page_size organization_id f) ∧
    ∀ organization_id platform_wide, Partition t
      (fun r => InScope organization_id platform_wide r ∧ f.Matches r) page_size
      fun page => listSafeAuditEvents t page page_size organization_id platform_wide f := by
  refine ⟨fun organization_id => partition_pageAndTotal t (fun r => ?_) h,
    fun organization_id platform_wide => partition_pageAndTotal t (fun r => ?_) h⟩
  · rw [Bool.and_eq_true, Bool.and_eq_true, and_assoc, matches_iff, optionally_iff]
    rfl
  · rw [Bool.and_eq_true, Bool.and_eq_true, and_assoc, matches_iff, inScope_iff]

/-- Two events of one second. -/
def Sample.twoRows : AuditTable :=
  ⟨[Sample.rowOf "evt-1" "1", Sample.rowOf "evt-2" "1"], by decide⟩

/-- Pages of one row. -/
theorem pages_partition_two :
    Partition Sample.twoRows (fun r => OfOrganization none r ∧ Sample.firstPage.filters.Matches r) 1
      fun page => listAuditEvents Sample.twoRows page 1 none Sample.firstPage.filters :=
  (pages_partition Sample.twoRows Sample.firstPage.filters 1 (le_refl 1)).1 none

end SecurityAudit
