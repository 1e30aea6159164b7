import SecurityAudit.Api.AuditEvents

/-!
# What a time filter selects

A caller means a closed interval of instants. The code compares the two bounds in Python, where
a naive and an aware `datetime` cannot be compared, and each bound with the column in SQL, where
the offset is gone. So what is selected is the interval between the wall clocks of the bounds,
and the question is when that is the interval between their instants.
-/

namespace SecurityAudit

open AuditQuery

/-! ## What is meant -/

/-- The instant, in microseconds of UTC. A naive `datetime` is UTC. -/
def DateTime.instant : DateTime → ℤ
  | .naive t => t.us
  | .aware t => t.wall.us - t.offset

/-- Both bounds are given and the first is the later instant. -/
def Reversed (a b : Option DateTime) : Prop := ∃ x ∈ a, ∃ y ∈ b, y.instant < x.instant

instance (a b : Option DateTime) : Decidable (Reversed a b) :=
  match a, b with
  | some x, some y => decidable_of_iff (y.instant < x.instant) (by simp [Reversed])
  | none, _ => .isFalse (by simp [Reversed])
  | some _, none => .isFalse (by simp [Reversed])

/-- The instant lies in the closed interval. -/
def inInterval (a b : Option DateTime) (t : Naive) : Bool :=
  (a.all fun x => decide (x.instant ≤ (t.us : ℤ))) && b.all fun y => decide ((t.us : ℤ) ≤ y.instant)

/-- The answer in which the time filters are instants. -/
def instantsAnswer (q : SafeQuery) (organization_id : Option Str) (access : AuditAccess)
    (t : AuditTable) : SafeResponse :=
  if Reversed q.filters.from_timestamp q.filters.to_timestamp then
    .exception 422 (str "from_timestamp must not be after to_timestamp")
  else if outsideScope access organization_id then
    .exception 403 (str "organization_id is outside verified scope")
  else
    let effective_org := if access.platform_wide then organization_id else access.organization_id
    .list (safeBody q (pageAndTotal t (fun r => inScope effective_org access.platform_wide r &&
      q.filters.onColumns r &&
      inInterval q.filters.from_timestamp q.filters.to_timestamp r.timestamp) q.page q.page_size))

/-- The rows and the total of `/audit/events` in which the time filters are instants. -/
def instantsPage (f : Filters) (page page_size : ℕ) (t : AuditTable) : List AuditRow × ℕ :=
  pageAndTotal t (fun r => optionally none r.organization_id && f.onColumns r &&
    inInterval f.from_timestamp f.to_timestamp r.timestamp) page page_size

/-! ## When it is what is selected -/

/-- Exactly one of two given bounds is aware. -/
def Mixed : Option DateTime → Option DateTime → Prop
  | some (.naive _), some (.aware _) => True
  | some (.aware _), some (.naive _) => True
  | _, _ => False

/-- The first representable instant the filter lets pass, by wall clock and by instant. -/
def wallFrom : Option DateTime → ℤ
  | none => 0
  | some x => (boundValue x).us

def instantFrom : Option DateTime → ℤ
  | none => 0
  | some x => max 0 x.instant

/-- The last one. -/
def wallTo : Option DateTime → ℤ
  | none => endOfTime - 1
  | some y => (boundValue y).us

def instantTo : Option DateTime → ℤ
  | none => endOfTime - 1
  | some y => min (endOfTime - 1) y.instant

/-- Without their offsets the bounds enclose the same representable instants: the ends agree, or
there is nothing between them either way. -/
def SameInterval (a b : Option DateTime) : Prop :=
  (wallFrom a = instantFrom a ∧ wallTo b = instantTo b) ∨
    (wallTo b < wallFrom a ∧ instantTo b < instantFrom a)

theorem onTimestamp_eq (f : Filters) (r : AuditRow) : f.onTimestamp r = true ↔
    wallFrom f.from_timestamp ≤ r.timestamp.us ∧ (r.timestamp.us : ℤ) ≤ wallTo f.to_timestamp := by
  have hlt := r.timestamp.lt
  unfold Filters.onTimestamp
  rw [Bool.and_eq_true]
  refine and_congr ?_ ?_
  · cases f.from_timestamp with
    | none => simp [notBefore, wallFrom]
    | some x => simp [notBefore, wallFrom]
  · cases f.to_timestamp with
    | none =>
      simp only [notAfter, wallTo, true_iff]
      omega
    | some y => simp [notAfter, wallTo]

theorem inInterval_eq (a b : Option DateTime) (t : Naive) : inInterval a b t = true ↔
    instantFrom a ≤ t.us ∧ (t.us : ℤ) ≤ instantTo b := by
  have hlt := t.lt
  unfold inInterval
  rw [Bool.and_eq_true]
  refine and_congr ?_ ?_
  · cases a with
    | none => simp [instantFrom]
    | some x => simp [instantFrom]
  · cases b with
    | none =>
      simp only [Option.all_none, instantTo, true_iff]
      omega
    | some y =>
      simp only [Option.all_some, decide_eq_true_eq, instantTo, le_min_iff]
      omega

/-- The bounds of a filter are in the range of `datetime`, or let nothing pass. -/
theorem bounds_nonneg (a b : Option DateTime) :
    (0 ≤ wallFrom a ∧ wallTo b < endOfTime) ∧ (0 ≤ instantFrom a ∧ instantTo b < endOfTime) := by
  have hwall : ∀ x : DateTime, 0 ≤ ((boundValue x).us : ℤ) ∧ ((boundValue x).us : ℤ) < endOfTime :=
    fun x => ⟨by omega, by exact_mod_cast (boundValue x).lt⟩
  refine ⟨⟨?_, ?_⟩, ?_, ?_⟩
  · cases a with
    | none => exact le_refl 0
    | some x => exact (hwall x).1
  · cases b with
    | none => show ((endOfTime : ℕ) : ℤ) - 1 < endOfTime; omega
    | some y => exact (hwall y).2
  · cases a with
    | none => exact le_refl 0
    | some x => exact le_max_left _ _
  · cases b with
    | none => show ((endOfTime : ℕ) : ℤ) - 1 < endOfTime; omega
    | some y =>
      have hle : min (((endOfTime : ℕ) : ℤ) - 1) y.instant ≤ endOfTime - 1 := min_le_left _ _
      show min (((endOfTime : ℕ) : ℤ) - 1) y.instant < endOfTime
      omega

/-- The same interval is the same set of timestamps. -/
theorem sameInterval_iff (a b : Option DateTime) : SameInterval a b ↔
    ∀ t : Naive, (wallFrom a ≤ t.us ∧ (t.us : ℤ) ≤ wallTo b) ↔
      (instantFrom a ≤ t.us ∧ (t.us : ℤ) ≤ instantTo b) := by
  obtain ⟨⟨hwallFrom, hwallTo⟩, hinstantFrom, hinstantTo⟩ := bounds_nonneg a b
  constructor
  · rintro (⟨hfrom, hto⟩ | ⟨hwall, hinstant⟩) t
    · rw [hfrom, hto]
    · constructor
      · intro h
        omega
      · intro h
        omega
  · intro h
    -- every representable instant is the timestamp of some row
    have hall : ∀ n : ℤ, 0 ≤ n → n < endOfTime →
        ((wallFrom a ≤ n ∧ n ≤ wallTo b) ↔ (instantFrom a ≤ n ∧ n ≤ instantTo b)) := by
      intro n hn hlt
      obtain ⟨k, rfl⟩ := Int.eq_ofNat_of_zero_le hn
      exact h ⟨k, by exact_mod_cast hlt⟩
    unfold SameInterval
    by_cases hwall : wallFrom a ≤ wallTo b
    · have h₁ := (hall (wallFrom a) hwallFrom (by omega)).mp ⟨le_refl _, hwall⟩
      have h₂ := (hall (wallTo b) (by omega) hwallTo).mp ⟨hwall, le_refl _⟩
      have h₃ := (hall (instantFrom a) hinstantFrom (by omega)).mpr ⟨le_refl _, by omega⟩
      have h₄ := (hall (instantTo b) (by omega) hinstantTo).mpr ⟨by omega, le_refl _⟩
      left
      constructor <;> omega
    · by_cases hinstant : instantFrom a ≤ instantTo b
      · have h₁ := (hall (instantFrom a) hinstantFrom (by omega)).mpr ⟨le_refl _, hinstant⟩
        omega
      · right
        constructor <;> omega

/-- On the rows of any ledger the two readings of the filters agree. -/
theorem onTimestamp_eq_inInterval {f : Filters}
    (h : SameInterval f.from_timestamp f.to_timestamp) (r : AuditRow) :
    f.onTimestamp r = inInterval f.from_timestamp f.to_timestamp r.timestamp := by
  rw [Bool.eq_iff_iff, onTimestamp_eq, inInterval_eq]
  exact (sameInterval_iff _ _).mp h r.timestamp

/-- The range check raises on one naive and one aware bound. -/
theorem rangeReversed_mixed {a b : Option DateTime} (h : Mixed a b) :
    rangeReversed a b = .error .typeError := by
  unfold Mixed at h
  split at h
  · rfl
  · rfl
  · exact h.elim

/-- It looks at instants otherwise. -/
theorem rangeReversed_of_not_mixed {a b : Option DateTime} (h : ¬Mixed a b) :
    rangeReversed a b = .ok (decide (Reversed a b)) := by
  cases a with
  | none => simp [rangeReversed, Reversed]
  | some x =>
    cases b with
    | none => simp [rangeReversed, Reversed]
    | some y =>
      cases x <;> cases y
      · simp [rangeReversed, DateTime.gt, Reversed, DateTime.instant]
      · exact absurd trivial h
      · exact absurd trivial h
      · simp [rangeReversed, DateTime.gt, Reversed, DateTime.instant]

/-- A row at `t` that passes every filter on the other columns. -/
def rowMatching (f : Filters) (t : Naive) : AuditRow where
  event_id := []
  timestamp := t
  service := f.service.getD []
  event_type := f.event_type.getD []
  user_id := f.user_id
  organization_id := none
  tenant_scope := TenantScope.text .unknown
  action := []
  resource := none
  decision := f.decision
  reason := none
  trace_id := none
  context := .obj []
  integrity_status := f.integrity_status.getD []
  record_integrity_hash := none
  integrity_key_id := none

theorem onColumns_rowMatching (f : Filters) (t : Naive) :
    f.onColumns (rowMatching f t) = true := by
  have hsome : ∀ value : Option Str, optionally value (some (value.getD [])) = true := by
    intro value
    cases value <;> simp [optionally, sqlEq]
  have hself : ∀ value : Option Str, optionally value value = true := by
    intro value
    cases value <;> simp [optionally, sqlEq]
  simp only [Filters.onColumns, rowMatching, hsome, hself, Bool.and_self]

/-- A ledger of one row tells the two readings apart wherever they differ. -/
theorem sameInterval_of_pages {f : Filters} {page page_size : ℕ}
    (h : ∀ t, listAuditEvents t page page_size none f = instantsPage f page page_size t) :
    SameInterval f.from_timestamp f.to_timestamp := by
  rw [sameInterval_iff]
  intro t
  let r := rowMatching f t
  have hcolumns : f.onColumns r = true := onColumns_rowMatching f t
  have hsame : (optionally none r.organization_id && f.onColumns r && f.onTimestamp r) =
      (optionally none r.organization_id && f.onColumns r &&
        inInterval f.from_timestamp f.to_timestamp r.timestamp) :=
    Select.eq_of_count_singleton (congrArg Prod.snd (h ⟨[r], List.nodup_singleton _⟩))
  rw [hcolumns] at hsame
  have hiff : f.onTimestamp r = true ↔
      inInterval f.from_timestamp f.to_timestamp r.timestamp = true := by
    rw [← Bool.eq_iff_iff]
    exact hsame
  rwa [onTimestamp_eq, inInterval_eq] at hiff

/-- **When time filters mean instants.** For a query and a caller: both routes read the time filters as
instants over every ledger just where the bounds are not one naive and one aware `datetime` and
leave the same interval without their offsets. -/
theorem time_filters_iff (q : SafeQuery) (organization_id : Option Str) (access : AuditAccess) :
    ((∀ t, listSafeAuditEventsRoute q organization_id access (some t) =
        .ok (instantsAnswer q organization_id access t)) ∧
      ∀ t, listAuditEvents t q.page q.page_size none q.filters =
        instantsPage q.filters q.page q.page_size t) ↔
    ¬Mixed q.filters.from_timestamp q.filters.to_timestamp ∧
      SameInterval q.filters.from_timestamp q.filters.to_timestamp := by
  constructor
  · rintro ⟨hroute, hpage⟩
    refine ⟨fun hmixed => ?_, sameInterval_of_pages hpage⟩
    have hraise := hroute ⟨[], List.nodup_nil⟩
    unfold listSafeAuditEventsRoute at hraise
    rw [rangeReversed_mixed hmixed] at hraise
    cases hraise
  · rintro ⟨hmixed, hsame⟩
    constructor
    · intro t
      unfold listSafeAuditEventsRoute instantsAnswer
      rw [rangeReversed_of_not_mixed hmixed, ok_bind]
      by_cases hreversed : Reversed q.filters.from_timestamp q.filters.to_timestamp
      · simp [hreversed]
      · by_cases houtside : outsideScope access organization_id
        · simp [hreversed, houtside]
        · simp [hreversed, houtside, listSafeAuditEvents, onTimestamp_eq_inInterval hsame]
    · intro t
      unfold listAuditEvents instantsPage
      simp only [onTimestamp_eq_inInterval hsame]

namespace Sample

/-- 2026-01-01T00:00:00+01:00. -/
def newYearCentralEurope : DateTime :=
  .aware ⟨utcnow, 3600000000, by decide⟩

/-- An event of 2025-12-31T23:30:00. -/
def lateRow : AuditRow := { rowWithHash none with timestamp := ⟨63902820600000000, by decide⟩ }

def lateTable : AuditTable := ⟨[lateRow], List.nodup_singleton _⟩

/-- The first page of a query with time filters. -/
def between (a b : Option DateTime) : SafeQuery :=
  { firstPage with filters := { firstPage.filters with from_timestamp := a, to_timestamp := b } }

end Sample

/-- From midnight in Central Europe, half past eleven the evening before in UTC is not too early,
but is not selected; and with a naive bound next to an aware one there is no answer at all. -/
theorem time_filters_shifted :
    (inInterval (some Sample.newYearCentralEurope) none Sample.lateRow.timestamp = true ∧
      (listAuditEvents Sample.lateTable 1 20 none
        (Sample.between (some Sample.newYearCentralEurope) none).filters).2 = 0 ∧
      listSafeAuditEventsRoute (Sample.between (some Sample.newYearCentralEurope) none) none
        ⟨true, none⟩ (some Sample.lateTable) = .ok (.list ⟨[], 0, 1, 20, 0⟩)) ∧
    listSafeAuditEventsRoute (Sample.between (some (.naive Sample.utcnow))
        (some Sample.newYearCentralEurope)) none ⟨true, none⟩ (some Sample.lateTable) =
      .error .typeError := by
  let f : Filters := (Sample.between (some Sample.newYearCentralEurope) none).filters
  have hnot : (inScope none true Sample.lateRow && f.onColumns Sample.lateRow &&
      f.onTimestamp Sample.lateRow) = false := by decide
  have hfilter : Sample.lateTable.rows.filter (fun r => inScope none true r && f.onColumns r &&
      f.onTimestamp r) = [] := by
    show [Sample.lateRow].filter _ = []
    rw [List.filter_cons_of_neg (by rw [hnot]; simp)]
    rfl
  have hnone : listSafeAuditEvents Sample.lateTable 1 20 none true f = ([], 0) := by
    simp only [listSafeAuditEvents, pageAndTotal, Select.page, Select.count, hfilter]
    rfl
  refine ⟨⟨by decide, by decide +kernel, ?_⟩, rfl⟩
  show Except.ok (SafeResponse.list (safeBody _ (listSafeAuditEvents _ 1 20 none true f))) = _
  rw [hnone]
  rfl

end SecurityAudit
