import Mathlib

/-!
# Words of a text

Splitting a sequence into words at its separators, and stripping separators off its ends, for
any alphabet. A sequence that is not empty once stripped has one word around what is left, and
every other word is made of what was stripped (`words_around`); that is how a reader that strips
and a reader that splits are compared.
-/

namespace SecurityAudit

variable {α : Type} (sep : α → Bool)

/-- The words of a sequence: what stands between its separators. -/
def words (s : List α) : List (List α) := (s.splitOnP sep).filter fun w => !w.isEmpty

/-- The sequence without the separators at its ends. -/
def strip (s : List α) : List α := (s.dropWhile sep).rdropWhile sep

variable {sep}

@[simp] theorem words_nil : words sep ([] : List α) = [] := by
  simp [words, List.splitOnP_nil]

/-- Words split at a separator. -/
theorem words_append_sep {c : α} (hc : sep c = true) (x y : List α) :
    words sep (x ++ c :: y) = words sep x ++ words sep y := by
  unfold words
  rw [List.splitOnP_append_cons x y hc, List.filter_append]

/-- A sequence without separators is one word. -/
theorem words_eq_singleton {s : List α} (hne : s ≠ []) (h : ∀ c ∈ s, sep c = false) :
    words sep s = [s] := by
  unfold words
  rw [List.splitOnP_eq_singleton h, List.filter_cons_of_pos (by simp [hne]), List.filter_nil]

variable (sep) in
/-- What stands before, in and after a sequence up to its first separator. -/
theorem exists_first_sep (s : List α) : (∀ c ∈ s, sep c = false) ∨
    ∃ x c y, s = x ++ c :: y ∧ sep c = true ∧ ∀ a ∈ x, sep a = false := by
  induction s with
  | nil => simp
  | cons c s ih =>
    by_cases hc : sep c = true
    · exact .inr ⟨[], c, s, rfl, hc, by simp⟩
    · rw [Bool.not_eq_true] at hc
      rcases ih with ih | ⟨x, d, y, rfl, hd, hx⟩
      · exact .inl (by simpa [hc] using ih)
      · exact .inr ⟨c :: x, d, y, rfl, hd, by simpa [hc] using hx⟩

variable (sep) in
/-- The same up to its last separator. -/
theorem exists_last_sep (s : List α) : (∀ c ∈ s, sep c = false) ∨
    ∃ x c y, s = x ++ c :: y ∧ sep c = true ∧ ∀ a ∈ y, sep a = false := by
  rcases exists_first_sep sep s.reverse with h | ⟨x, c, y, hs, hc, hx⟩
  · exact .inl (by simpa using h)
  · refine .inr ⟨y.reverse, c, x.reverse, ?_, hc, by simpa using hx⟩
    rw [← List.reverse_reverse s, hs]
    simp

/-- A word is not empty, and consists of what it is a word of. -/
theorem mem_words {s w : List α} (h : w ∈ words sep s) : w ≠ [] ∧ ∀ c ∈ w, c ∈ s := by
  induction hn : s.length using Nat.strong_induction_on generalizing s with
  | _ n ih =>
    rcases exists_first_sep sep s with hs | ⟨x, c, y, rfl, hc, hx⟩
    · by_cases hne : s = []
      · simp [hne] at h
      · rw [words_eq_singleton hne hs, List.mem_singleton] at h
        exact ⟨h ▸ hne, fun c hc => h ▸ hc⟩
    · rw [words_append_sep hc] at h
      simp only [List.length_append, List.length_cons] at hn
      rcases List.mem_append.mp h with h | h
      · obtain ⟨hne, hmem⟩ := ih x.length (by omega) h rfl
        exact ⟨hne, fun d hd => by simp [hmem d hd]⟩
      · obtain ⟨hne, hmem⟩ := ih y.length (by omega) h rfl
        exact ⟨hne, fun d hd => by simp [hmem d hd]⟩

/-- One word goes around `t`; the others lie on either side of it. -/
theorem words_around {t : List α} (hne : t ≠ []) (ht : ∀ c ∈ t, sep c = false) (a b : List α) :
    ∃ (A : List (List α)) (u v : List α) (C : List (List α)),
      words sep (a ++ t ++ b) = A ++ (u ++ t ++ v) :: C ∧ (∀ c ∈ u, c ∈ a) ∧ (∀ c ∈ v, c ∈ b) ∧
      (∀ w ∈ A, w ≠ [] ∧ ∀ c ∈ w, c ∈ a) ∧ ∀ w ∈ C, w ≠ [] ∧ ∀ c ∈ w, c ∈ b := by
  -- what touches `t` on the left, and the words before it
  obtain ⟨A, u, hleft, hu, hA⟩ : ∃ (A : List (List α)) (u : List α),
      (∀ r, words sep (a ++ t ++ r) = A ++ words sep (u ++ t ++ r)) ∧
      (∀ c ∈ u, c ∈ a ∧ sep c = false) ∧ ∀ w ∈ A, w ≠ [] ∧ ∀ c ∈ w, c ∈ a := by
    rcases exists_last_sep sep a with ha | ⟨x, c, y, rfl, hc, hy⟩
    · exact ⟨[], a, fun r => rfl, fun c hc => ⟨hc, ha c hc⟩, by simp⟩
    · refine ⟨words sep x, y, fun r => ?_, fun d hd => ⟨by simp [hd], hy d hd⟩, fun w hw => ?_⟩
      · rw [← words_append_sep hc]
        simp
      · obtain ⟨hw, hmem⟩ := mem_words hw
        exact ⟨hw, fun d hd => by simp [hmem d hd]⟩
  -- what touches it on the right, and the words after it
  have hcore : ∀ v : List α, (∀ c ∈ v, sep c = false) →
      words sep (u ++ t ++ v) = [u ++ t ++ v] := by
    intro v hv
    refine words_eq_singleton (by simp [hne]) fun c hc => ?_
    simp only [List.mem_append] at hc
    rcases hc with (hc | hc) | hc
    · exact (hu c hc).2
    · exact ht c hc
    · exact hv c hc
  rcases exists_first_sep sep b with hb | ⟨x, c, y, rfl, hc, hx⟩
  · refine ⟨A, u, b, [], ?_, fun c hc => (hu c hc).1, fun c hc => hc, hA, by simp⟩
    rw [hleft, hcore b hb]
  · refine ⟨A, u, x, words sep y, ?_, fun c hc => (hu c hc).1, fun d hd => by simp [hd], hA,
      fun w hw => ?_⟩
    · have hassoc : u ++ t ++ (x ++ c :: y) = (u ++ t ++ x) ++ c :: y := by simp
      rw [hleft, hassoc, words_append_sep hc, hcore x hx]
      rfl
    · obtain ⟨hw, hmem⟩ := mem_words hw
      exact ⟨hw, fun d hd => by simp [hmem d hd]⟩

/-- A sequence that is not all separators has a word. -/
theorem words_ne_nil {s : List α} {c : α} (hmem : c ∈ s) (hc : sep c = false) :
    words sep s ≠ [] := by
  obtain ⟨a, b, rfl⟩ := List.append_of_mem hmem
  have hword : ∀ d ∈ [c], sep d = false := by simpa using hc
  obtain ⟨A, u, v, C, hwords, -⟩ := words_around (by simp) hword a b
  have happend : a ++ c :: b = a ++ [c] ++ b := by simp
  rw [happend, hwords]
  simp

/-- A sequence of one word is that word between separators. -/
theorem words_eq_single {s w : List α} (h : words sep s = [w]) :
    ∃ x y, s = x ++ w ++ y ∧ (∀ c ∈ x, sep c = true) ∧ ∀ c ∈ y, sep c = true := by
  induction hn : s.length using Nat.strong_induction_on generalizing s with
  | _ n ih =>
    rcases exists_first_sep sep s with hs | ⟨x, c, y, rfl, hc, hx⟩
    · by_cases hne : s = []
      · simp [hne] at h
      · rw [words_eq_singleton hne hs] at h
        exact ⟨[], [], by simpa using (List.cons.inj h).1, by simp, by simp⟩
    · rw [words_append_sep hc] at h
      rw [List.length_append, List.length_cons] at hn
      by_cases hne : x = []
      · subst hne
        rw [words_nil, List.nil_append] at h
        obtain ⟨x', y', rfl, hx', hy'⟩ := ih y.length (by omega) h rfl
        refine ⟨c :: x', y', by simp, fun d hd => ?_, hy'⟩
        rcases List.mem_cons.mp hd with rfl | hd
        · exact hc
        · exact hx' d hd
      · rw [words_eq_singleton hne hx] at h
        obtain ⟨rfl, hy⟩ := List.cons.inj h
        refine ⟨[], c :: y, by simp, by simp, fun d hd => ?_⟩
        rcases List.mem_cons.mp hd with rfl | hd
        · exact hc
        · by_contra hd'
          exact words_ne_nil hd (by simpa using hd') hy

/-! ## Stripping -/

variable (sep) in
/-- Stripping takes separators only. -/
theorem exists_strip (s : List α) : ∃ a b, s = a ++ strip sep s ++ b ∧
    (∀ c ∈ a, sep c = true) ∧ ∀ c ∈ b, sep c = true := by
  refine ⟨s.takeWhile sep, (s.dropWhile sep).rtakeWhile sep, ?_, fun c hc => ?_, fun c hc => ?_⟩
  · rw [strip, List.append_assoc, List.rdropWhile_append_rtakeWhile, List.takeWhile_append_dropWhile]
  · exact List.mem_takeWhile_imp hc
  · exact List.mem_rtakeWhile_imp hc

/-- A separator inside a stripped sequence has something else on either side. -/
theorem exists_sides {s x y : List α} {c : α} (h : strip sep s = x ++ c :: y)
    (hc : sep c = true) : (∃ d ∈ x, sep d = false) ∧ ∃ d ∈ y, sep d = false := by
  have hhead : ∀ d r, s.dropWhile sep = d :: r → sep d = false := by
    intro d r hd
    have hnot := List.head?_dropWhile_not sep s
    rw [hd] at hnot
    simpa using hnot
  constructor
  · obtain ⟨r, hr⟩ : strip sep s <+: s.dropWhile sep := List.rdropWhile_prefix sep _
    rw [h] at hr
    cases x with
    | nil => exact absurd hc (by simp [hhead c (y ++ r) hr.symm])
    | cons d x => exact ⟨d, by simp, hhead d (x ++ c :: y ++ r) hr.symm⟩
  · have hlast := List.rdropWhile_last_not sep (s.dropWhile sep)
      (by show strip sep s ≠ []; rw [h]; simp)
    have hstrip : (s.dropWhile sep).rdropWhile sep = x ++ c :: y := h
    simp only [hstrip] at hlast
    rcases List.eq_nil_or_concat y with rfl | ⟨y', d, rfl⟩
    · simp [hc] at hlast
    · refine ⟨d, by simp, ?_⟩
      simpa using hlast

/-- A sequence without separators is not changed by stripping. -/
theorem strip_eq_self {s : List α} (h : ∀ c ∈ s, sep c = false) : strip sep s = s := by
  have hdrop : s.dropWhile sep = s := by
    cases s with
    | nil => rfl
    | cons c s => simp [h c (by simp)]
  rw [strip, hdrop, List.rdropWhile_eq_self_iff]
  intro hne
  simp [h _ (List.getLast_mem hne)]

/-- Separators around a sequence are stripped off with its own. -/
theorem strip_around {x w y : List α} (hx : ∀ c ∈ x, sep c = true) (hy : ∀ c ∈ y, sep c = true) :
    strip sep (x ++ w ++ y) = strip sep w := by
  have hdrop : (x ++ w ++ y).dropWhile sep = (w ++ y).dropWhile sep := by
    rw [List.append_assoc, List.dropWhile_append_of_pos hx]
  have hlast : ∀ z : List α, (z ++ y).rdropWhile sep = z.rdropWhile sep := by
    intro z
    unfold List.rdropWhile
    rw [List.reverse_append, List.dropWhile_append_of_pos fun c hc => hy c (by simpa using hc)]
  unfold strip
  rw [hdrop, List.dropWhile_append]
  split_ifs with hw
  · have hnil : y.dropWhile sep = [] := List.dropWhile_eq_nil_iff.mpr hy
    rw [hnil, List.isEmpty_iff.mp hw]
  · exact hlast _

end SecurityAudit
