import Mathlib

/-!
# Points of time that keep a distance

A limiter lets something happen only if the last time it let it happen is long enough ago. The
times it so lets through, in the order it looked at them, are `Spaced`: each is at least the
window after every one before it. Nothing is assumed of the order in which the times come, a
time that goes back is not let through.

Times are measured by a difference that is rounded, as the difference of two floats is. All
that is used of a `Rounding` is that it is monotone and keeps zero.
-/

namespace SecurityAudit

/-- How a difference is rounded. -/
structure Rounding (T : Type) [AddCommGroup T] [LinearOrder T] where
  round : T → T
  mono : Monotone round
  zero : round 0 = 0

variable {T : Type} [AddCommGroup T] [LinearOrder T]

/-- Differences that are not rounded. -/
def Rounding.exact : Rounding T := ⟨id, monotone_id, rfl⟩

namespace Rounding

variable (R : Rounding T) {w : T}

/-- Only what comes later is rounded to something positive. -/
theorem pos_of_le_round {d : T} (hw : 0 < w) (h : w ≤ R.round d) : 0 < d := by
  by_contra hd
  have hround : R.round d ≤ 0 := R.zero ▸ R.mono (not_lt.mp hd)
  exact absurd (hw.trans_le h) (not_lt.mpr hround)

/-- Each time is at least `w` after every one before it. -/
def Spaced (w : T) (ts : List T) : Prop := ts.Pairwise fun a b => w ≤ R.round (b - a)

/-- The two times differ by at least `w`. -/
def Apart (w a b : T) : Prop := w ≤ R.round |a - b|

variable {R} {ts us : List T} {t : T}

theorem Apart.symm {a b : T} (h : R.Apart w a b) : R.Apart w b a := by
  unfold Apart
  rwa [abs_sub_comm]

/-- What is long enough after the last is long enough after all of them. -/
theorem Spaced.of_last [IsOrderedAddMonoid T] {last a : T} (hw : 0 < w) (h : R.Spaced w ts)
    (hlast : ts.getLast? = some last) (ht : w ≤ R.round (t - last)) (ha : a ∈ ts) :
    w ≤ R.round (t - a) := by
  obtain ⟨init, rfl⟩ := List.getLast?_eq_some_iff.mp hlast
  rcases List.mem_append.mp ha with ha | ha
  · have hspaced : w ≤ R.round (last - a) :=
      (List.pairwise_append.mp h).2.2 a ha last (List.mem_singleton_self last)
    have hafter : 0 < last - a := R.pos_of_le_round hw hspaced
    have hmore : t - last ≤ t - a := by
      have : t - a = t - last + (last - a) := by abel
      rw [this]
      exact le_add_of_nonneg_right hafter.le
    exact ht.trans (R.mono hmore)
  · rwa [List.mem_singleton.mp ha]

/-- The limiter's step: it has only looked at the last time. -/
theorem Spaced.snoc [IsOrderedAddMonoid T] (hw : 0 < w) (h : R.Spaced w ts)
    (hlast : ∀ last, ts.getLast? = some last → w ≤ R.round (t - last)) :
    R.Spaced w (ts ++ [t]) := by
  refine List.pairwise_append.mpr ⟨h, List.pairwise_singleton _ _, fun a ha b hb => ?_⟩
  rw [List.mem_singleton.mp hb]
  cases hl : ts.getLast? with
  | none =>
    rw [List.getLast?_eq_none_iff.mp hl] at ha
    cases ha
  | some last => exact h.of_last hw hl (hlast last hl) ha

/-- Any two of them differ by the window, in whatever order they are taken and whichever are
left out. -/
theorem Spaced.apart (h : R.Spaced w ts) (hsub : us.Subperm ts) :
    us.Pairwise (R.Apart w) := by
  obtain ⟨vs, hperm, hsublist⟩ := hsub
  have happart : vs.Pairwise (R.Apart w) :=
    (h.sublist hsublist).imp fun {a b} hab =>
      hab.trans (R.mono ((le_abs_self _).trans (abs_sub_comm b a).le))
  exact (hperm.pairwise_iff Apart.symm).mp happart

end Rounding

end SecurityAudit
