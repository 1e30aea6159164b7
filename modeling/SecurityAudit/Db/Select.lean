import Mathlib

/-!
# Selecting rows

`SELECT ... WHERE p ORDER BY le LIMIT n OFFSET k` and `SELECT COUNT(*) ... WHERE p` over a table
given as the list of its rows. A table has no order of its own, so a query must not depend on
the order of the list: where the ordering tells any two selected rows apart, the answer depends
only on which rows are selected.
-/

namespace SecurityAudit

namespace Select

variable {α : Type} (le : α → α → Prop)

/-- `le` orders any two rows of the list, and no two alike. -/
structure Orders (rows : List α) : Prop where
  total : ∀ a b, le a b ∨ le b a
  trans : ∀ a b c, le a b → le b c → le a c
  antisymm : ∀ a ∈ rows, ∀ b ∈ rows, le a b → le b a → a = b

variable {le}

theorem Orders.sublist {rows rows' : List α} (h : Orders le rows) (hsub : rows'.Sublist rows) :
    Orders le rows' :=
  ⟨h.total, h.trans, fun a ha b hb => h.antisymm a (hsub.subset ha) b (hsub.subset hb)⟩

variable (le) [DecidableRel le]

/-- One page of the selected rows, in order. -/
def page (p : α → Bool) (offset limit : ℕ) (rows : List α) : List α :=
  (((rows.filter p).insertionSort le).drop offset).take limit

/-- The number of selected rows. -/
def count (p : α → Bool) (rows : List α) : ℕ := (rows.filter p).length

variable {le}

/-- Rows that the order tells apart are sorted into one list, however they came. -/
theorem insertionSort_eq_of_perm {rows rows' : List α} (h : Orders le rows)
    (hperm : rows.Perm rows') : rows.insertionSort le = rows'.insertionSort le := by
  have htotal : Std.Total le := ⟨h.total⟩
  have htrans : IsTrans α le := ⟨h.trans⟩
  have hsorted : (rows.insertionSort le).Perm (rows'.insertionSort le) :=
    ((List.perm_insertionSort le rows).trans hperm).trans (List.perm_insertionSort le rows').symm
  refine List.Perm.eq_of_pairwise ?_ (List.pairwise_insertionSort le rows)
    (List.pairwise_insertionSort le rows') hsorted
  intro a b ha hb hab hba
  have hb' : b ∈ rows := hperm.mem_iff.mpr ((List.perm_insertionSort le rows').mem_iff.mp hb)
  exact h.antisymm a ((List.perm_insertionSort le rows).mem_iff.mp ha) b hb' hab hba

/-- Two queries that select the same rows give the same pages. -/
theorem page_congr {p q : α → Bool} {rows rows' : List α} (h : Orders le rows)
    (hperm : (rows.filter p).Perm (rows'.filter q)) (offset limit : ℕ) :
    page le p offset limit rows = page le q offset limit rows' := by
  rw [page, page, insertionSort_eq_of_perm (h.sublist List.filter_sublist) hperm]

/-- They give the same count. -/
theorem count_congr {p q : α → Bool} {rows rows' : List α}
    (hperm : (rows.filter p).Perm (rows'.filter q)) : count p rows = count q rows' :=
  hperm.length_eq

/-- A change of the rows that neither the condition nor the order sees changes the rows of a
page, and nothing else. -/
theorem page_map {p : α → Bool} {f : α → α} (hp : ∀ a, p (f a) = p a)
    (hle : ∀ a b, le a b ↔ le (f a) (f b)) (offset limit : ℕ) (rows : List α) :
    page le p offset limit (rows.map f) = (page le p offset limit rows).map f := by
  have hfilter : (rows.map f).filter p = (rows.filter p).map f := by
    rw [List.filter_map]
    exact congrArg (List.map f) (List.filter_congr fun a _ => hp a)
  have hsort : ((rows.filter p).map f).insertionSort le =
      ((rows.filter p).insertionSort le).map f :=
    (List.map_insertionSort le le f _ fun a _ b _ => hle a b).symm
  rw [page, page, hfilter, hsort, ← List.map_drop, ← List.map_take]

theorem count_map {p : α → Bool} {f : α → α} (hp : ∀ a, p (f a) = p a) (rows : List α) :
    count p (rows.map f) = count p rows := by
  rw [count, count, List.filter_map, List.length_map]
  exact congrArg List.length (List.filter_congr fun a _ => hp a)

/-! ## Page by page -/

/-- The number of pages of `limit` rows that `total` rows fill. -/
def pages (total limit : ℕ) : ℕ := (total + limit - 1) / limit

/-- The pages are enough for the rows. -/
theorem le_pages_mul {limit : ℕ} (hlimit : 1 ≤ limit) (total : ℕ) :
    total ≤ pages total limit * limit := by
  have hmod : (total + limit - 1) % limit < limit := Nat.mod_lt _ hlimit
  have hdiv : (total + limit - 1) / limit * limit + (total + limit - 1) % limit =
      total + limit - 1 := Nat.div_add_mod' _ _
  unfold pages
  omega

/-- The rows go past every page before the last one. -/
theorem mul_le_of_lt_pages {total limit k : ℕ} (hk : k < pages total limit) :
    (k + 1) * limit ≤ total + limit - 1 :=
  (Nat.mul_le_mul_right _ hk).trans (Nat.div_mul_le_self _ _)

variable (le) in
/-- The first `k` pages hold what comes first. -/
theorem flatMap_page (p : α → Bool) (limit : ℕ) (rows : List α) (k : ℕ) :
    (List.range k).flatMap (fun i => page le p (i * limit) limit rows) =
      ((rows.filter p).insertionSort le).take (k * limit) := by
  induction k with
  | zero => simp
  | succ k ih => rw [List.range_succ, List.flatMap_append, ih, Nat.succ_mul, List.take_add,
      List.flatMap_singleton, page]

variable (le) in
theorem length_sorted (p : α → Bool) (rows : List α) :
    ((rows.filter p).insertionSort le).length = count p rows := List.length_insertionSort _ _

variable (le) in
/-- All pages hold all rows, in order. -/
theorem flatMap_all_pages {limit : ℕ} (hlimit : 1 ≤ limit) (p : α → Bool) (rows : List α) :
    (List.range (pages (count p rows) limit)).flatMap (fun i => page le p (i * limit) limit rows) =
      (rows.filter p).insertionSort le := by
  rw [flatMap_page, List.take_of_length_le]
  rw [length_sorted]
  exact le_pages_mul hlimit _

variable (le) in
/-- There is nothing after the last page. -/
theorem page_eq_nil {limit k : ℕ} (hlimit : 1 ≤ limit) (p : α → Bool) (rows : List α)
    (hk : pages (count p rows) limit ≤ k) : page le p (k * limit) limit rows = [] := by
  have hdrop : count p rows ≤ k * limit :=
    (le_pages_mul hlimit _).trans (Nat.mul_le_mul_right _ hk)
  rw [page, List.drop_of_length_le (by rwa [length_sorted]), List.take_nil]

variable (le) in
/-- Every page before the last one is full. -/
theorem length_page {limit k : ℕ} (p : α → Bool) (rows : List α)
    (hk : k + 1 < pages (count p rows) limit) :
    (page le p (k * limit) limit rows).length = limit := by
  have hfull := mul_le_of_lt_pages hk
  rw [page, List.length_take, List.length_drop, length_sorted]
  rw [Nat.succ_mul, Nat.succ_mul] at hfull
  omega

/-! ## While the rows change -/

variable (le) in
/-- The number of selected rows that come before a row. -/
def rank (p : α → Bool) (a : α) (rows : List α) : ℕ :=
  ((rows.filter p).filter fun b => ¬le a b).length

/-- The row and the rows that come before it stay. -/
def Stays (le : α → α → Prop) (a : α) (rows rows' : List α) : Prop :=
  ∀ b ∈ rows, le b a → b ∈ rows'

/-- The rank of a selected row is its place in the order. -/
theorem getElem?_rank {p : α → Bool} {a : α} {rows : List α} (h : Orders le rows)
    (hnodup : rows.Nodup) (ha : a ∈ rows) (hp : p a = true) :
    ((rows.filter p).insertionSort le)[rank le p a rows]? = some a := by
  have htotal : Std.Total le := ⟨h.total⟩
  have htrans : IsTrans α le := ⟨h.trans⟩
  have hperm := List.perm_insertionSort le (rows.filter p)
  have hmem : a ∈ (rows.filter p).insertionSort le :=
    hperm.mem_iff.mpr (List.mem_filter.mpr ⟨ha, hp⟩)
  obtain ⟨first, later, hsplit⟩ := List.append_of_mem hmem
  have hsorted := List.pairwise_insertionSort le (rows.filter p)
  have hdistinct : ((rows.filter p).insertionSort le).Nodup :=
    hperm.nodup_iff.mpr (hnodup.filter _)
  rw [hsplit] at hsorted hdistinct
  obtain ⟨-, hlater, hfirst⟩ := List.pairwise_append.mp hsorted
  have hbefore : ∀ b ∈ first, ¬le a b := by
    intro b hb hab
    have hb' : b ∈ rows := by
      have hb' : b ∈ (rows.filter p).insertionSort le := hsplit ▸ List.mem_append_left _ hb
      exact (List.mem_filter.mp (hperm.mem_iff.mp hb')).1
    have heq : b = a := h.antisymm b hb' a ha (hfirst b hb a List.mem_cons_self) hab
    exact (List.nodup_append.mp hdistinct).2.2 b hb a List.mem_cons_self heq
  have hafter : ∀ b ∈ a :: later, le a b := by
    intro b hb
    rcases List.mem_cons.mp hb with rfl | hb
    · exact (h.total b b).elim id id
    · exact (List.pairwise_cons.mp hlater).1 b hb
  -- so exactly the rows of the first part are counted
  have hrank : rank le p a rows = first.length := by
    have hcount : rank le p a rows = ((first ++ a :: later).filter fun b => ¬le a b).length := by
      rw [← hsplit]
      exact (hperm.symm.filter _).length_eq
    have hall : first.filter (fun b => ¬le a b) = first :=
      List.filter_eq_self.mpr fun b hb => decide_eq_true (hbefore b hb)
    have hnone : (a :: later).filter (fun b => ¬le a b) = [] :=
      List.filter_eq_nil_iff.mpr fun b hb => by simp [hafter b hb]
    rw [hcount, List.filter_append, hall, hnone, List.append_nil]
  rw [hrank, hsplit, List.getElem?_append_right le_rfl, Nat.sub_self]
  rfl

theorem rank_lt_count {p : α → Bool} {a : α} {rows : List α} (h : Orders le rows)
    (hnodup : rows.Nodup) (ha : a ∈ rows) (hp : p a = true) :
    rank le p a rows < count p rows := by
  rw [← length_sorted le]
  exact (List.getElem?_eq_some_iff.mp (getElem?_rank h hnodup ha hp)).1

/-- A row is on the page that its rank falls on. -/
theorem mem_page_of_rank {p : α → Bool} {a : α} {rows : List α} (h : Orders le rows)
    (hnodup : rows.Nodup) (ha : a ∈ rows) (hp : p a = true) {offset limit : ℕ}
    (hlow : offset ≤ rank le p a rows) (hhigh : rank le p a rows < offset + limit) :
    a ∈ page le p offset limit rows := by
  refine List.mem_iff_getElem?.mpr ⟨rank le p a rows - offset, ?_⟩
  have hplace : offset + (rank le p a rows - offset) = rank le p a rows := by omega
  rw [page, List.getElem?_take_of_lt (by omega), List.getElem?_drop, hplace]
  exact getElem?_rank h hnodup ha hp

/-- Where the rows before it stay, the rank of a row does not sink. -/
theorem rank_le_of_stays {p : α → Bool} {a : α} {rows rows' : List α} (h : Orders le rows)
    (hnodup : rows.Nodup) (hstays : Stays le a rows rows') :
    rank le p a rows ≤ rank le p a rows' := by
  have hsub : (rows.filter p).filter (fun b => ¬le a b) ⊆
      (rows'.filter p).filter fun b => ¬le a b := by
    intro b hb
    simp only [List.mem_filter, decide_eq_true_eq] at hb ⊢
    obtain ⟨⟨hb, hpb⟩, hbefore⟩ := hb
    exact ⟨⟨hstays b hb ((h.total b a).resolve_right hbefore), hpb⟩, hbefore⟩
  exact (((hnodup.filter _).filter _).subperm hsub).length_le

variable (le) in
/-- The pages from the `k`th on, up to the one that is the last when it is answered. Each is of
the rows there are at that moment. -/
inductive Walk {σ : Type} (rows : σ → List α) (step : σ → σ → Prop) (p : α → Bool) (limit : ℕ) :
    ℕ → σ → List α → Prop where
  | last {k : ℕ} {s : σ} (hlast : pages (count p (rows s)) limit ≤ k + 1) :
    Walk rows step p limit k s (page le p (k * limit) limit (rows s))
  | next {k : ℕ} {s s' : σ} {found : List α} (hmore : k + 1 < pages (count p (rows s)) limit)
    (hstep : step s s') (rest : Walk rows step p limit (k + 1) s' found) :
    Walk rows step p limit k s (page le p (k * limit) limit (rows s) ++ found)

/-- A row that stays, and before which all rows stay, is on one of the pages. -/
theorem mem_of_walk {σ : Type} {rows : σ → List α} {step : σ → σ → Prop} {I : σ → Prop}
    {p : α → Bool} {a : α} {limit k : ℕ} {s : σ} {found : List α} (hlimit : 1 ≤ limit)
    (horders : ∀ s, Orders le (rows s)) (hnodup : ∀ s, (rows s).Nodup)
    (hstep : ∀ s s', I s → step s s' → I s' ∧ Stays le a (rows s) (rows s'))
    (h : Walk le rows step p limit k s found) (hs : I s) (ha : a ∈ rows s) (hp : p a = true)
    (hk : k * limit ≤ rank le p a (rows s)) : a ∈ found := by
  induction h with
  | @last k s hlast =>
    -- the last page holds whatever does not come before it
    apply mem_page_of_rank (horders s) (hnodup s) ha hp hk
    have hcount := rank_lt_count (horders s) (hnodup s) ha hp
    have hpages := le_pages_mul hlimit (count p (rows s))
    have hmul : pages (count p (rows s)) limit * limit ≤ (k + 1) * limit :=
      Nat.mul_le_mul_right _ hlast
    rw [Nat.succ_mul] at hmul
    omega
  | @next k s s' found hmore hmoved rest ih =>
    by_cases hhere : rank le p a (rows s) < k * limit + limit
    · exact List.mem_append_left _ (mem_page_of_rank (horders s) (hnodup s) ha hp hk hhere)
    · apply List.mem_append_right
      obtain ⟨hs', hstays⟩ := hstep s s' hs hmoved
      have hrefl : le a a := ((horders s).total a a).elim id id
      have hrank := rank_le_of_stays (p := p) (horders s) (hnodup s) hstays
      apply ih hs' (hstays a ha hrefl)
      rw [Nat.succ_mul]
      omega

/-! ## Conditions -/

/-- A condition that implies another one selects the same rows of what the other selects. -/
theorem filter_of_imp {p q : α → Bool} (h : ∀ a, p a = true → q a = true) (rows : List α) :
    (rows.filter q).filter p = rows.filter p := by
  rw [List.filter_filter]
  refine List.filter_congr fun a _ => ?_
  by_cases hp : p a = true
  · simp [hp, h a hp]
  · simp [hp]

/-- A table of one row shows what a condition says of that row. -/
theorem eq_of_count_singleton {p q : α → Bool} {a : α} (h : count p [a] = count q [a]) :
    p a = q a := by
  unfold count at h
  by_cases hp : p a = true
  · by_cases hq : q a = true
    · rw [hp, hq]
    · simp [hp, hq] at h
  · by_cases hq : q a = true
    · simp [hp, hq] at h
    · rw [Bool.not_eq_true] at hp hq
      rw [hp, hq]

end Select

end SecurityAudit
