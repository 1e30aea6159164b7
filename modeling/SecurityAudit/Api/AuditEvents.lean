import SecurityAudit.Services.AuditQuery
import SecurityAudit.Worker.Scenarios

/-!
# Tenant-safe reads: `api/routes_audit_safe.py`, `api/deps_audit.py`

The route refuses a time range that ends before it begins and an organization outside the
caller's scope, and answers with one page of the query's rows. `AuditAccess` is what the verified
token grants: one organization, or every one. The times and the source evidence that every answer
carries are left out.
-/

namespace SecurityAudit

open AuditQuery

/-- `AuditAccess`. -/
structure AuditAccess where
  platform_wide : Bool
  organization_id : Option Str

/-- The access of a caller whose token names the organization. -/
def AuditAccess.ofOrganization (org : Str) : AuditAccess := ⟨false, some org⟩

/-- The query parameters other than `organization_id`, as the route accepts them. -/
structure SafeQuery where
  page : ℕ
  page_size : ℕ
  filters : Filters
  page_pos : 1 ≤ page
  page_size_pos : 1 ≤ page_size
  page_size_le : page_size ≤ 100

/-- `SafeAuditEventOut`. -/
structure SafeAuditEventOut where
  event_id : Str
  timestamp : Naive
  organization_id : Option Str
  tenant_scope : Str
  actor : Option Str
  event_type : Str
  action : Str
  decision : Option Str
  integrity : Str
  metadata : List (Str × JVal)

/-- The part of `SafeAuditEventListResponse` that depends on the request and the ledger. -/
structure SafeAuditEventList where
  items : List SafeAuditEventOut
  total : ℕ
  page : ℕ
  page_size : ℕ
  total_pages : ℕ

/-- An answer: the list, an `HTTPException`, or the 503 for a database that fails. -/
inductive SafeResponse where
  | list (body : SafeAuditEventList)
  | exception (status : ℕ) (detail : Str)
  | unavailable

/-- `a > b`. Comparing a naive and an aware `datetime` raises. -/
def DateTime.gt : DateTime → DateTime → Except Exc Bool
  | .naive a, .naive b => .ok (decide (b.us < a.us))
  | .aware a, .aware b => .ok (decide ((b.wall.us : ℤ) - b.offset < a.wall.us - a.offset))
  | _, _ => .error .typeError

/-- `from_timestamp and to_timestamp and from_timestamp > to_timestamp`. -/
def rangeReversed : Option DateTime → Option DateTime → Except Exc Bool
  | some a, some b => a.gt b
  | _, _ => .ok false

/-- The integrity literals of the read model. -/
def knownIntegrity : List Str := [str "valid", str "invalid", str "unsigned", str "unknown"]

/-- The item of one row. -/
def safeItem (r : AuditRow) : SafeAuditEventOut where
  event_id := r.event_id
  timestamp := r.timestamp
  organization_id := r.organization_id
  tenant_scope := if r.tenant_scope = [] then str "unknown" else r.tenant_scope
  actor := r.user_id
  event_type := r.event_type
  action := r.action
  decision := r.decision
  integrity := if r.integrity_status ∈ knownIntegrity then r.integrity_status else str "unknown"
  metadata := projectSafeMetadata r

/-- The body of an answer: one page of rows and the total. -/
def safeBody (q : SafeQuery) (result : List AuditRow × ℕ) : SafeAuditEventList where
  items := result.1.map safeItem
  total := result.2
  page := q.page
  page_size := q.page_size
  total_pages := if result.2 = 0 then 0 else (result.2 + q.page_size - 1) / q.page_size

/-- The caller may not ask for this organization. -/
def outsideScope (access : AuditAccess) (organization_id : Option Str) : Prop :=
  access.platform_wide = false ∧ organization_id ≠ none ∧ organization_id ≠ access.organization_id

instance (access : AuditAccess) (organization_id : Option Str) :
    Decidable (outsideScope access organization_id) := inferInstanceAs (Decidable (_ ∧ _))

/-- `list_safe_audit_events`. `none` is a database that raises `SQLAlchemyError`. -/
def listSafeAuditEventsRoute (q : SafeQuery) (organization_id : Option Str) (access : AuditAccess)
    (db : Option AuditTable) : Except Exc SafeResponse := do
  if ← rangeReversed q.filters.from_timestamp q.filters.to_timestamp then
    return .exception 422 (str "from_timestamp must not be after to_timestamp")
  else if outsideScope access organization_id then
    return .exception 403 (str "organization_id is outside verified scope")
  else
    let effective_org := if access.platform_wide then organization_id else access.organization_id
    match db with
    | none => return .unavailable
    | some t =>
      return .list (safeBody q (listSafeAuditEvents t q.page q.page_size effective_org
        access.platform_wide q.filters))

/-! ## Two ledgers, one organization -/

/-- The rows of one organization. -/
def ofOrganization (org : Str) (r : AuditRow) : Bool :=
  decide (r.organization_id = some org ∧ r.tenant_scope = TenantScope.text .organization)

theorem inScope_organization (org : Str) (r : AuditRow) :
    inScope (some org) false r = ofOrganization org r := by
  simp only [inScope, ofOrganization, sqlEq, if_true, Option.some.injEq, Bool.decide_and]

/-- The rows the caller of one organization is answered from. -/
def visible (org : Str) (f : Filters) (r : AuditRow) : Bool :=
  ofOrganization org r && f.onColumns r && f.onTimestamp r

/-- Tables with the same rows of an organization select the same rows for it. -/
theorem visible_perm {org : Str} {f : Filters} {t t' : AuditTable}
    (h : (t.rows.filter (ofOrganization org)).Perm (t'.rows.filter (ofOrganization org))) :
    (t.rows.filter (visible org f)).Perm (t'.rows.filter (visible org f)) := by
  have himp : ∀ r, visible org f r = true → ofOrganization org r = true := by
    intro r hr
    simp only [visible, Bool.and_eq_true] at hr
    exact hr.1.1
  rw [← Select.filter_of_imp himp t.rows, ← Select.filter_of_imp himp t'.rows]
  exact h.filter _

/-- The query of an organization's caller, on the rows that are visible to it. -/
theorem listSafeAuditEvents_organization (t : AuditTable) (page page_size : ℕ) (org : Str)
    (f : Filters) :
    listSafeAuditEvents t page page_size (some org) false f =
      pageAndTotal t (visible org f) page page_size := by
  unfold listSafeAuditEvents visible
  simp only [inScope_organization]

/-- What the route answers a caller of one organization who asks for no other one. -/
theorem listSafeAuditEventsRoute_organization (q : SafeQuery) {organization_id : Option Str}
    {org : Str} (h : organization_id = none ∨ organization_id = some org) (db : Option AuditTable) :
    listSafeAuditEventsRoute q organization_id (.ofOrganization org) db = (do
      if ← rangeReversed q.filters.from_timestamp q.filters.to_timestamp then
        return .exception 422 (str "from_timestamp must not be after to_timestamp")
      else
        match db with
        | none => return .unavailable
        | some t =>
          return .list (safeBody q (pageAndTotal t (visible org q.filters) q.page q.page_size))) := by
  have hinside : ¬outsideScope (.ofOrganization org) organization_id := by
    rintro ⟨-, hne, hne'⟩
    exact h.elim hne hne'
  unfold listSafeAuditEventsRoute
  simp only [if_neg hinside]
  cases db with
  | none => rfl
  | some t =>
    simp only [AuditAccess.ofOrganization, Bool.false_eq_true, if_false,
      listSafeAuditEvents_organization]

/-- The stored row of an event is one of the organization's just where the event names it. -/
theorem ofOrganization_stored {env : Env} {org : Str} {e : AuditEvent} {status : IntegrityStatus}
    {row stored : AuditRow} (h : sinkRecord env e status = .ok row) (hs : row.stored? = some stored) :
    ofOrganization org stored = decide (e.organization_id = some org) := by
  obtain ⟨_, _, -, -, rfl⟩ := sinkRecord_stored h hs
  show decide (e.organization_id = some org ∧ e.tenant_scope.text = TenantScope.text .organization) = _
  refine decide_eq_decide.mpr (and_iff_left_of_imp fun horg => ?_)
  rw [e.scope_of_organization horg]

/-- **Tenant isolation.** A caller of organization `org` gets the same answer from any two
ledgers with the same rows of `org`, whatever else they hold. Asking for an organization can
only give 403 or the answer without asking. And in a ledger written by `Sink.write` the total
counts every row whose event named `org` and that matches the filters, and no other. -/
theorem tenant_isolation (org : Str) (q : SafeQuery) :
    (∀ t t' : AuditTable,
      (t.rows.filter (ofOrganization org)).Perm (t'.rows.filter (ofOrganization org)) →
      listSafeAuditEventsRoute q none (.ofOrganization org) (some t) =
        listSafeAuditEventsRoute q none (.ofOrganization org) (some t')) ∧
    (∀ (organization_id : Option Str) (db : Option AuditTable),
      listSafeAuditEventsRoute q organization_id (.ofOrganization org) db =
          .ok (.exception 403 (str "organization_id is outside verified scope")) ∨
        listSafeAuditEventsRoute q organization_id (.ofOrganization org) db =
          listSafeAuditEventsRoute q none (.ofOrganization org) db) ∧
    ∀ (env : Env) (t : AuditTable) (written : List (AuditEvent × AuditRow)),
      t.rows = written.map Prod.snd →
      (∀ p ∈ written, ∃ status row, sinkRecord env p.1 status = .ok row ∧
        row.stored? = some p.2) →
      ∀ body, listSafeAuditEventsRoute q none (.ofOrganization org) (some t) = .ok (.list body) →
        body.total = (written.filter fun p =>
          decide (p.1.organization_id = some org ∧ q.filters.Matches p.2)).length := by
  refine ⟨fun t t' h => ?_, fun organization_id db => ?_, fun env t written hrows hwritten body h => ?_⟩
  · rw [listSafeAuditEventsRoute_organization q (.inl rfl),
      listSafeAuditEventsRoute_organization q (.inl rfl)]
    simp only [pageAndTotal_congr (visible_perm h)]
  · by_cases hinside : organization_id = none ∨ organization_id = some org
    · right
      rw [listSafeAuditEventsRoute_organization q hinside,
        listSafeAuditEventsRoute_organization q (.inl rfl)]
    · have houtside : outsideScope (.ofOrganization org) organization_id := by
        rw [not_or] at hinside
        exact ⟨rfl, hinside⟩
      unfold listSafeAuditEventsRoute
      simp only [if_pos houtside]
      have hscoped : ¬outsideScope (.ofOrganization org) none := fun h => h.2.1 rfl
      simp only [if_neg hscoped]
      -- the range is checked before the scope, in both requests alike
      cases hrange : rangeReversed q.filters.from_timestamp q.filters.to_timestamp with
      | error e => exact .inr rfl
      | ok reversed =>
        cases reversed with
        | true => exact .inr rfl
        | false => exact .inl rfl
  · rw [listSafeAuditEventsRoute_organization q (.inl rfl)] at h
    obtain ⟨reversed, -, h⟩ := bind_eq_ok.mp h
    cases reversed with
    | true => cases Except.ok.inj h
    | false =>
      obtain rfl := SafeResponse.list.inj (Except.ok.inj h)
      show ((t.rows.filter (visible org q.filters)).length = _)
      rw [hrows, List.filter_map, List.length_map]
      refine congrArg List.length (List.filter_congr fun p hp => ?_)
      obtain ⟨status, row, hrow, hstored⟩ := hwritten p hp
      show visible org q.filters p.2 = _
      rw [Bool.eq_iff_iff, visible, ofOrganization_stored hrow hstored, Bool.and_assoc,
        Bool.and_eq_true, Bool.and_eq_true, matches_iff, decide_eq_true_iff, decide_eq_true_iff]

namespace Sample

/-- An event of an organization. -/
def rowOf (id org : String) : AuditRow :=
  { rowWithHash none with
    event_id := str id
    organization_id := some (str org)
    tenant_scope := TenantScope.text .organization }

/-- The first page, with no filters. -/
def firstPage : SafeQuery where
  page := 1
  page_size := 20
  filters := ⟨none, none, none, none, none, none, none⟩
  page_pos := le_refl 1
  page_size_pos := by decide
  page_size_le := by decide

end Sample

/-- One event of the caller's organization, without and with an event of another one. -/
theorem tenant_isolation_two :
    listSafeAuditEventsRoute Sample.firstPage none (.ofOrganization (str "1"))
        (some ⟨[Sample.rowOf "evt-1" "1"], by decide⟩) =
      listSafeAuditEventsRoute Sample.firstPage none (.ofOrganization (str "1"))
        (some ⟨[Sample.rowOf "evt-2" "2", Sample.rowOf "evt-1" "1"], by decide⟩) := by
  have hother : ofOrganization (str "1") (Sample.rowOf "evt-2" "2") = false := by decide
  refine (tenant_isolation (str "1") Sample.firstPage).1 _ _ (.of_eq ?_)
  show [Sample.rowOf "evt-1" "1"].filter _ = _
  rw [List.filter_cons_of_neg (a := Sample.rowOf "evt-2" "2") (by simp [hother])]

end SecurityAudit
