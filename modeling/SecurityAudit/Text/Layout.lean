import Mathlib

/-!
# Where the marks of a layout are

A layout is contents with a mark between each two neighbours. Every mark is made of letters of
its own kinds, and a letter is of one kind at most, but a content may hold anything. The marks of
a layout can be found again exactly if no content holds a mark of the kind before it or of the
kind behind it (`layout_unique_iff`): the first mark that another reading puts elsewhere lies in
a neighbouring content, or pushes a later mark into the content behind it.
-/

namespace SecurityAudit

namespace Layout

variable {α ι : Type} (Marks : ι → α → Prop)

/-- The letters are of these kinds, in order. -/
abbrev IsMark (B : List ι) (w : List α) : Prop := List.Forall₂ Marks B w

/-- Each mark with the content behind it is of its own kinds. -/
abbrev Laid (Bs : List (List ι)) (rest : List (List α × List α)) : Prop :=
  List.Forall₂ (fun B p => IsMark Marks B p.1) Bs rest

/-- The first content, and each mark with the content behind it. -/
def render (x : List α) (rest : List (List α × List α)) : List α :=
  x ++ rest.flatMap fun p => p.1 ++ p.2

/-- The content holds a mark of these kinds. -/
def Holds (B : List ι) (x : List α) : Prop := ∃ w, IsMark Marks B w ∧ w <:+: x

/-- None of the contents holds a mark of the kinds that stand before it or behind it. -/
def Quiet : List (List ι) → List (List α) → Prop
  | B :: Bs, x :: y :: ys => (¬Holds Marks B x ∧ ¬Holds Marks B y) ∧ Quiet Bs (y :: ys)
  | _, _ => True

/-- No letter is of two kinds. -/
def Distinct (kinds : List ι) : Prop :=
  ∀ i ∈ kinds, ∀ j ∈ kinds, ∀ a, Marks i a → Marks j a → i = j

variable {Marks} in
theorem Distinct.mono {kinds kinds' : List ι} (h : Distinct Marks kinds) (hsub : kinds' ⊆ kinds) :
    Distinct Marks kinds' :=
  fun i hi j hj => h i (hsub hi) j (hsub hj)

variable {Marks} {B B' : List ι} {Bs : List (List ι)} {x y z w b T T' : List α}
  {rest rest' : List (List α × List α)}

@[simp] theorem render_nil (x : List α) : render x [] = x := List.append_nil x

@[simp] theorem render_cons (x : List α) (p : List α × List α) (rest : List (List α × List α)) :
    render x (p :: rest) = x ++ (p.1 ++ render p.2 rest) := by
  simp [render]

theorem Holds.intro (hw : IsMark Marks B w) (h : x = y ++ (w ++ z)) : Holds Marks B x := by
  refine ⟨w, hw, y, z, ?_⟩
  rw [h, List.append_assoc]

theorem not_holds_nil (hB : B ≠ []) : ¬Holds Marks B [] := by
  rintro ⟨w, hw, hinfix⟩
  have hlength := hw.length_eq
  rw [List.infix_nil.mp hinfix] at hlength
  exact hB (List.length_eq_zero_iff.mp hlength)

/-- Empty contents are quiet. -/
theorem quiet_of_nil {contents : List (List α)} (hne : ∀ B ∈ Bs, B ≠ [])
    (h : ∀ x ∈ contents, x = []) : Quiet Marks Bs contents := by
  induction Bs generalizing contents with
  | nil =>
    cases contents <;> trivial
  | cons B Bs ih =>
    obtain ⟨hB, hne⟩ := List.forall_mem_cons.mp hne
    match contents with
    | [] => trivial
    | [_] => trivial
    | x :: y :: ys =>
      obtain ⟨hx, hys⟩ := List.forall_mem_cons.mp h
      obtain rfl := hx
      obtain rfl := (List.forall_mem_cons.mp hys).1
      exact ⟨⟨not_holds_nil hB, not_holds_nil hB⟩, ih hne hys⟩

/-- Two marks in one text: the second lies in front of the first, or behind it, or they have a
letter in common. -/
theorem marks_meet (hdistinct : Distinct Marks (B ++ B')) (hB : B ≠ []) (hB' : B' ≠ [])
    (hb : IsMark Marks B b) (hw : IsMark Marks B' w)
    (h : x ++ (b ++ T) = z ++ (w ++ T')) :
    (∃ u, x = z ++ (w ++ u)) ∨ (∃ u, z = x ++ (b ++ u) ∧ T = u ++ (w ++ T')) ∨
      ∃ i j k, x.length + i = z.length + j ∧ B[i]? = some k ∧ B'[j]? = some k := by
  have hblength : 0 < b.length := by
    rw [← hb.length_eq]
    exact List.length_pos_of_ne_nil hB
  have hwlength : 0 < w.length := by
    rw [← hw.length_eq]
    exact List.length_pos_of_ne_nil hB'
  by_cases hbefore : z.length + w.length ≤ x.length
  · left
    obtain ⟨u, hu⟩ : z ++ w <+: x := by
      refine List.prefix_of_prefix_length_le ⟨T', ?_⟩ ⟨b ++ T, h⟩ (by simpa using hbefore)
      rw [List.append_assoc]
    exact ⟨u, by rw [← hu, List.append_assoc]⟩
  by_cases hbehind : x.length + b.length ≤ z.length
  · right
    left
    obtain ⟨u, hu⟩ : x ++ b <+: z := by
      refine List.prefix_of_prefix_length_le ⟨T, ?_⟩ ⟨w ++ T', h.symm⟩ (by simpa using hbehind)
      rw [List.append_assoc]
    refine ⟨u, by rw [← hu, List.append_assoc], ?_⟩
    rw [← hu] at h
    simpa using h
  · right
    right
    -- the position where the later of the two begins is in both
    set p := max x.length z.length with hp
    obtain ⟨i, hi⟩ : ∃ i, p = x.length + i := ⟨p - x.length, by omega⟩
    obtain ⟨j, hj⟩ : ∃ j, p = z.length + j := ⟨p - z.length, by omega⟩
    have hib : i < b.length := by omega
    have hjw : j < w.length := by omega
    have hletter : b[i] = w[j] := by
      have hleft : (x ++ (b ++ T))[p]? = some b[i] := by
        rw [hi, List.getElem?_append_right (by omega), Nat.add_sub_cancel_left,
          List.getElem?_append_left hib, List.getElem?_eq_getElem hib]
      have hright : (z ++ (w ++ T'))[p]? = some w[j] := by
        rw [hj, List.getElem?_append_right (by omega), Nat.add_sub_cancel_left,
          List.getElem?_append_left hjw, List.getElem?_eq_getElem hjw]
      rw [h, hright] at hleft
      exact (Option.some.inj hleft).symm
    have hiB : i < B.length := by rw [hb.length_eq]; exact hib
    have hjB : j < B'.length := by rw [hw.length_eq]; exact hjw
    have hkind : B[i] = B'[j] := by
      refine hdistinct _ (List.mem_append_left _ (List.getElem_mem hiB)) _
        (List.mem_append_right _ (List.getElem_mem hjB)) b[i]
        ((List.forall₂_iff_get.mp hb).2 i hiB hib) ?_
      rw [hletter]
      exact (List.forall₂_iff_get.mp hw).2 j hjB hjw
    exact ⟨i, j, B[i], by omega, List.getElem?_eq_getElem hiB,
      by rw [hkind]; exact List.getElem?_eq_getElem hjB⟩

/-- A mark that another reading puts behind its place pushes the next one on, and so on to the
last content, which would have to hold one. -/
theorem not_shifted (hdistinct : Distinct Marks (B :: Bs).flatten) (hne : ∀ C ∈ B :: Bs, C ≠ [])
    (hnodup : (B :: Bs).flatten.Nodup) (hrest : Laid Marks Bs rest)
    (hrest' : Laid Marks Bs rest') (hquiet : Quiet Marks Bs (x :: rest.map Prod.snd))
    (hx : ¬Holds Marks B x) (hw : IsMark Marks B w)
    (h : render x rest = z ++ (w ++ render T rest')) : False := by
  induction Bs generalizing B x rest z w T rest' with
  | nil =>
    cases hrest
    cases hrest'
    rw [render_nil, render_nil] at h
    exact hx (.intro hw h)
  | cons B₁ Bs ih =>
    cases hrest with
    | @cons _ p _ rest hb hrest =>
    cases hrest' with
    | @cons _ p' _ rest' hb' hrest' =>
    obtain ⟨⟨-, hy⟩, hquiet⟩ := hquiet
    have hboth : B₁ ++ B ⊆ (B :: B₁ :: Bs).flatten := by
      rw [List.flatten_cons, List.flatten_cons]
      intro k hk
      simp only [List.mem_append] at hk ⊢
      tauto
    have hlater : (B₁ :: Bs).flatten ⊆ (B :: B₁ :: Bs).flatten :=
      List.subset_append_right B _
    rw [List.flatten_cons, List.flatten_cons, List.nodup_append] at hnodup
    rw [render_cons, render_cons] at h
    rcases marks_meet (hdistinct.mono hboth) (hne B₁ (by simp)) (hne B (by simp)) hb hw h with
      ⟨u, hu⟩ | ⟨u, -, hu⟩ | ⟨i, j, k, -, hi, hj⟩
    · exact hx (.intro hw hu)
    · have hshifted : render p.2 rest = (u ++ (w ++ T)) ++ (p'.1 ++ render p'.2 rest') := by
        rw [hu]
        simp
      exact ih (hdistinct.mono hlater) (fun C hC => hne C (List.mem_cons_of_mem _ hC))
        hnodup.2.1 hrest hrest' hquiet hy hb' hshifted
    · exact hnodup.2.2 k (List.mem_of_getElem? hj) k
        (List.mem_append_left _ (List.mem_of_getElem? hi)) rfl

/-- The marks of a layout with quiet contents are found again. -/
theorem layout_unique (hdistinct : Distinct Marks Bs.flatten) (hne : ∀ B ∈ Bs, B ≠ [])
    (hnodup : Bs.flatten.Nodup) (hrest : Laid Marks Bs rest) (hrest' : Laid Marks Bs rest')
    (hquiet : Quiet Marks Bs (x :: rest.map Prod.snd)) (h : render y rest' = render x rest) :
    y = x ∧ rest' = rest := by
  induction Bs generalizing x rest y rest' with
  | nil =>
    cases hrest
    cases hrest'
    simpa using h
  | cons B Bs ih =>
    cases hrest with
    | @cons _ p _ rest hb hrest =>
    cases hrest' with
    | @cons _ p' _ rest' hb' hrest' =>
    obtain ⟨⟨hx, hy⟩, hquiet⟩ := hquiet
    have htail : ∀ C ∈ Bs, C ≠ [] := fun C hC => hne C (List.mem_cons_of_mem _ hC)
    have hboth : B ++ B ⊆ (B :: Bs).flatten := by
      rw [List.flatten_cons]
      exact List.append_subset.mpr ⟨List.subset_append_left _ _, List.subset_append_left _ _⟩
    have hlater : Bs.flatten ⊆ (B :: Bs).flatten := by
      rw [List.flatten_cons]
      exact List.subset_append_right _ _
    have hnodup' := hnodup
    rw [List.flatten_cons, List.nodup_append] at hnodup
    rw [render_cons, render_cons] at h
    rcases marks_meet (hdistinct.mono hboth) (hne B (by simp)) (hne B (by simp)) hb hb' h.symm with
      ⟨u, hu⟩ | ⟨u, -, hu⟩ | ⟨i, j, k, hij, hi, hj⟩
    · exact absurd (.intro hb' hu) hx
    · exact (not_shifted hdistinct hne hnodup' hrest hrest' hquiet hy hb' hu).elim
    · -- the two marks have the same letter of the same kind, so they are in the same place
      have hplace : i = j := by
        obtain ⟨hi', hi⟩ := List.getElem?_eq_some_iff.mp hi
        obtain ⟨hj', hj⟩ := List.getElem?_eq_some_iff.mp hj
        exact (List.Nodup.getElem_inj_iff hnodup.1).mp (hi.trans hj.symm)
      have hlength : y.length = x.length := by omega
      obtain ⟨hcontents, hbehind⟩ := List.append_inj h hlength
      have hmarks : p'.1.length = p.1.length := by rw [← hb.length_eq, ← hb'.length_eq]
      obtain ⟨hmark, hbehind⟩ := List.append_inj hbehind hmarks
      obtain ⟨hcontent, hothers⟩ :=
        ih (hdistinct.mono hlater) htail hnodup.2.1 hrest hrest' hquiet hbehind
      exact ⟨hcontents, by rw [Prod.ext hmark hcontent, hothers]⟩

/-- A content that holds a neighbouring mark can be read in another way. -/
theorem exists_other_layout (hne : ∀ B ∈ Bs, B ≠ []) (hrest : Laid Marks Bs rest)
    (hquiet : ¬Quiet Marks Bs (x :: rest.map Prod.snd)) :
    ∃ y rest', Laid Marks Bs rest' ∧ render y rest' = render x rest ∧ ¬(y = x ∧ rest' = rest) := by
  induction Bs generalizing x rest with
  | nil => exact absurd trivial hquiet
  | cons B Bs ih =>
    cases hrest with
    | @cons _ p _ rest hb hrest =>
    have hlength : ∀ w, IsMark Marks B w → w ≠ [] := by
      intro w hw hnil
      have := hw.length_eq
      rw [hnil] at this
      exact hne B (by simp) (List.length_eq_zero_iff.mp this)
    by_cases hx : Holds Marks B x
    · -- the mark in front of its place
      obtain ⟨w, hw, u, v, rfl⟩ := hx
      refine ⟨u, (w, v ++ (p.1 ++ p.2)) :: rest, .cons hw hrest, ?_, ?_⟩
      · simp [render]
      · rintro ⟨hu, -⟩
        have hshort := congrArg List.length hu
        have hpos := List.length_pos_of_ne_nil (hlength w hw)
        simp only [List.length_append] at hshort
        omega
    by_cases hy : Holds Marks B p.2
    · -- the mark behind its place
      obtain ⟨w, hw, u, v, huv⟩ := hy
      refine ⟨x ++ (p.1 ++ u), (w, v) :: rest, .cons hw hrest, ?_, ?_⟩
      · simp [render, ← huv]
      · rintro ⟨hu, -⟩
        have hlong := congrArg List.length hu
        have hpos := List.length_pos_of_ne_nil (hlength p.1 hb)
        simp only [List.length_append] at hlong
        omega
    · have hquiet' : ¬Quiet Marks Bs (p.2 :: rest.map Prod.snd) := fun h => hquiet ⟨⟨hx, hy⟩, h⟩
      obtain ⟨y, rest', hlaid, hrender, hother⟩ :=
        ih (fun B hB => hne B (List.mem_cons_of_mem _ hB)) hrest hquiet'
      refine ⟨x, (p.1, y) :: rest', .cons hb hlaid, ?_, ?_⟩
      · rw [render_cons, render_cons, hrender]
      · rintro ⟨-, h⟩
        obtain ⟨hp, hrest⟩ := List.cons.inj h
        exact hother ⟨congrArg Prod.snd hp, hrest⟩

/-- **A layout can be read in one way only exactly if its contents are quiet.** -/
theorem layout_unique_iff (hdistinct : Distinct Marks Bs.flatten) (hne : ∀ B ∈ Bs, B ≠ [])
    (hnodup : Bs.flatten.Nodup) (hrest : Laid Marks Bs rest) :
    (∀ y rest', Laid Marks Bs rest' → render y rest' = render x rest → y = x ∧ rest' = rest) ↔
      Quiet Marks Bs (x :: rest.map Prod.snd) := by
  constructor
  · intro h
    by_contra hquiet
    obtain ⟨y, rest', hlaid, hrender, hother⟩ := exists_other_layout hne hrest hquiet
    exact hother (h y rest' hlaid hrender)
  · intro hquiet y rest' hrest' h
    exact layout_unique hdistinct hne hnodup hrest hrest' hquiet h

end Layout

end SecurityAudit
