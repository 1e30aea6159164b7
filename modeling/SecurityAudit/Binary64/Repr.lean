import SecurityAudit.Binary64.Round
import SecurityAudit.Text.Str

/-!
# How a float is written

A decimal literal is an integer part, a fractional part and an optional exponent. `reprLit`
lays the shortest digits of a double out the way `float.__repr__` does: positional notation
for a decimal point between `-4` and `16`, exponent notation outside. The layout never
changes the number (`magnitude_reprLit`), so reading what was printed gives the double back.
-/

namespace SecurityAudit

/-- A Python `float`. -/
inductive PyFloat where
  | finite (neg : Bool) (mag : Binary64)
  | infinity (neg : Bool)
  | nan
deriving DecidableEq

/-- A decimal literal without its sign. -/
structure DecLit where
  ip : Str
  fp : Str
  ex : Option ℤ

namespace DecLit

/-- The magnitude `float(text)` computes; `none` is overflow. -/
def magnitude (l : DecLit) : Option Binary64 :=
  Binary64.ofDecimal (natOfDigits (l.ip ++ l.fp)) (l.ex.getD 0 - l.fp.length)

/-- The exponent as printed: a sign and at least two digits. -/
def exponentText (k : ℤ) : Str :=
  (if k < 0 then cp '-' else cp '+') ::
    (if k.natAbs < 10 then digit 0 :: natText k.natAbs else natText k.natAbs)

/-- The exponent with its `e`, if there is one. -/
def exponentPart : Option ℤ → Str
  | none => []
  | some k => cp 'e' :: exponentText k

/-- The literal as text. -/
def text (l : DecLit) : Str :=
  l.ip ++ (if l.fp = [] then [] else cp '.' :: l.fp) ++ exponentPart l.ex

/-- The integer part is a run of digits without a superfluous leading zero, the fractional
part is digits, and one of the fraction and the exponent is there. -/
structure WellFormed (l : DecLit) : Prop where
  ip_ne_nil : l.ip ≠ []
  ip_digits : ∀ c ∈ l.ip, isDigit c = true
  ip_zero : l.ip.head? = some (digit 0) → l.ip = [digit 0]
  fp_digits : ∀ c ∈ l.fp, isDigit c = true
  fractional : l.fp ≠ [] ∨ l.ex ≠ none

/-- Where the decimal point goes: the digits `ds` stand for `0.ds · 10^decpt`. -/
def layout (ds : Str) (decpt : ℤ) : DecLit :=
  if -4 < decpt ∧ decpt ≤ 16 then
    if decpt ≤ 0 then ⟨[digit 0], List.replicate (-decpt).toNat (digit 0) ++ ds, none⟩
    else if ds.length ≤ decpt then
      ⟨ds ++ List.replicate (decpt - ds.length).toNat (digit 0), [digit 0], none⟩
    else ⟨ds.take decpt.toNat, ds.drop decpt.toNat, none⟩
  else ⟨ds.take 1, ds.drop 1, some (decpt - 1)⟩

/-- The literal `float.__repr__` prints for a magnitude. -/
def reprLit (x : Binary64) : DecLit :=
  let D := x.shortest.1
  let all := natText D
  if D = 0 then ⟨[digit 0], [digit 0], none⟩
  else layout (all.rdropWhile (· = digit 0)) (all.length + x.shortest.2)

/-! ## The layout keeps the number -/

theorem natOfDigits_zeros (k : ℕ) : natOfDigits (List.replicate k (digit 0)) = 0 := by
  induction k with
  | zero => rfl
  | succ k ih => rw [List.replicate_succ, natOfDigits_cons, ih]; simp

/-- `ofDecimal` sees zero whatever the exponent. -/
theorem ofDecimal_zero (e e' : ℤ) : Binary64.ofDecimal 0 e = Binary64.ofDecimal 0 e' := by
  have h : ∀ e : ℤ, Binary64.ofDecimal 0 e = Binary64.ofRatio 0 1 := by
    intro e
    have hk := Binary64.ofRatio_mul 0 1 (pow_pos (by norm_num : 0 < 10) (-e).toNat)
    rw [Binary64.ofDecimal_eq 0 e (-e).toNat (by omega), zero_mul]
    rwa [zero_mul, one_mul] at hk
  rw [h e, h e']

theorem magnitude_layout {ds : Str} (hds : ds ≠ []) (decpt : ℤ) :
    (layout ds decpt).magnitude = Binary64.ofDecimal (natOfDigits ds) (decpt - ds.length) := by
  have hlen : 0 < ds.length := List.length_pos_iff.mpr hds
  unfold layout magnitude
  split_ifs with hfix hle hge
  · -- `0.000ds`
    have hval : natOfDigits ([digit 0] ++ (List.replicate (-decpt).toNat (digit 0) ++ ds))
        = natOfDigits ds := by
      rw [← List.append_assoc, natOfDigits_append, ← List.replicate_one,
        ← List.replicate_add, natOfDigits_zeros]
      simp
    dsimp only
    rw [hval]
    congr 1
    simp only [Option.getD_none, List.length_append, List.length_replicate]
    omega
  · -- `ds000.0`
    obtain ⟨z, hz⟩ : ∃ z : ℕ, decpt - ds.length = z := ⟨(decpt - ds.length).toNat, by omega⟩
    have hval : natOfDigits (ds ++ List.replicate z (digit 0) ++ [digit 0])
        = natOfDigits ds * 10 ^ (z + 1) := by
      rw [List.append_assoc, ← List.replicate_one, ← List.replicate_add, natOfDigits_append,
        natOfDigits_zeros]
      simp
    dsimp only
    rw [hz, Int.toNat_natCast, hval, ← Binary64.ofDecimal_shift (natOfDigits ds) (z + 1)]
    congr 1
    simp
  · -- the point is inside the digits
    dsimp only
    rw [List.take_append_drop]
    congr 1
    simp only [Option.getD_none, List.length_drop]
    omega
  · -- `d.ds e±k`
    dsimp only
    rw [List.take_append_drop]
    congr 1
    simp only [Option.getD_some, List.length_drop]
    omega

/-- The digits of a positive number without their trailing zeros. -/
theorem rdropWhile_spec {D : ℕ} (hD : D ≠ 0) :
    ∃ c s z, (natText D).rdropWhile (· = digit 0) = c :: s ∧ isDigit c = true ∧ c ≠ digit 0 ∧
      natText D = (c :: s) ++ List.replicate z (digit 0) := by
  obtain ⟨c, s, hcs, hc, hc0⟩ := natText_head_pos hD
  obtain ⟨t, ht⟩ : (natText D).rdropWhile (· = digit 0) <+: natText D := List.rdropWhile_prefix ..
  have hzeros : t = List.replicate t.length (digit 0) := by
    refine List.eq_replicate_iff.mpr ⟨rfl, fun d hd => ?_⟩
    have hsplit := List.takeWhile_append_dropWhile (p := (· = digit 0)) (l := (natText D).reverse)
    have hrev : (natText D).reverse = t.reverse ++ (natText D).reverse.dropWhile (· = digit 0) := by
      have h := congrArg List.reverse ht
      rw [List.reverse_append, List.rdropWhile, List.reverse_reverse] at h
      exact h.symm
    have htake : (natText D).reverse.takeWhile (· = digit 0) = t.reverse :=
      List.append_cancel_right (hsplit.trans hrev)
    have hmem : d ∈ (natText D).reverse.takeWhile (· = digit 0) := by
      rw [htake]
      simpa using hd
    simpa using List.mem_takeWhile_imp hmem
  -- the first digit is not zero, so it is not among the dropped ones
  cases hr : (natText D).rdropWhile (· = digit 0) with
  | nil =>
    rw [hr, List.nil_append, hzeros] at ht
    have hmem : c ∈ List.replicate t.length (digit 0) := by rw [ht, hcs]; simp
    exact absurd (List.eq_of_mem_replicate hmem) hc0
  | cons c' s' =>
    rw [hr] at ht
    have hcc : c' = c := by
      have h := congrArg List.head? (ht.trans hcs)
      simpa using h
    subst hcc
    exact ⟨c', s', t.length, rfl, hc, hc0, by rw [← hzeros]; exact ht.symm⟩

/-- **Round trip.** The printed literal is read back as the magnitude it was printed for. -/
theorem magnitude_reprLit (x : Binary64) : (reprLit x).magnitude = some x := by
  have hx := Binary64.ofDecimal_shortest x
  unfold reprLit
  dsimp only
  split
  · next h =>
    rw [h] at hx
    rw [← hx]
    exact ofDecimal_zero _ _
  · next h =>
    obtain ⟨c, s, z, hr, -, -, hall⟩ := rdropWhile_spec h
    rw [hr, magnitude_layout (by simp)]
    have hval : natOfDigits (c :: s) * 10 ^ z = x.shortest.1 := by
      have hn := natOfDigits_natText x.shortest.1
      rw [hall, natOfDigits_append, natOfDigits_zeros, List.length_replicate, add_zero] at hn
      exact hn
    have hlen : ((natText x.shortest.1).length : ℤ) = (c :: s).length + z := by
      rw [hall]
      simp only [List.length_append, List.length_replicate, Nat.cast_add]
    rw [← Binary64.ofDecimal_shift _ z, hval, hlen, ← hx]
    congr 1
    ring

theorem wellFormed_layout {c : CodePoint} {s : Str} (hc0 : c ≠ digit 0)
    (hds : ∀ d ∈ c :: s, isDigit d = true) (decpt : ℤ) : (layout (c :: s) decpt).WellFormed := by
  have hzero : ∀ k, ∀ d ∈ List.replicate k (digit 0), isDigit d = true := by
    intro k d hd
    rw [List.eq_of_mem_replicate hd, isDigit_digit]
  unfold layout
  split_ifs with hfix hle hge
  · refine ⟨by simp, by simp, by simp, ?_, .inl (by simp)⟩
    simp only [List.mem_append]
    exact fun d hd => hd.elim (hzero _ d) (hds d)
  · refine ⟨by simp, ?_, fun h => absurd (by simpa using h) hc0, by simp, .inl (by simp)⟩
    simp only [List.mem_append]
    exact fun d hd => hd.elim (hds d) (hzero _ d)
  · obtain ⟨k, hk⟩ : ∃ k, decpt.toNat = k + 1 := ⟨decpt.toNat - 1, by omega⟩
    refine ⟨by simp [hk], fun d hd => hds d (List.mem_of_mem_take hd), ?_,
      fun d hd => hds d (List.mem_of_mem_drop hd), .inl ?_⟩
    · intro h
      simp only [hk, List.take_succ_cons, List.head?_cons, Option.some.injEq] at h
      exact absurd h hc0
    · intro h
      have hdrop := congrArg List.length h
      simp only [List.length_drop, List.length_nil] at hdrop
      omega
  · refine ⟨by simp, fun d hd => hds d (List.mem_of_mem_take hd), ?_,
      fun d hd => hds d (List.mem_of_mem_drop hd), .inr (by simp)⟩
    intro h
    exact absurd (by simpa using h) hc0

theorem wellFormed_reprLit (x : Binary64) : (reprLit x).WellFormed := by
  unfold reprLit
  dsimp only
  split
  · exact ⟨by simp, by simp, by simp, by simp, .inl (by simp)⟩
  · next h =>
    obtain ⟨c, s, z, hr, hc, hc0, hall⟩ := rdropWhile_spec h
    rw [hr]
    refine wellFormed_layout hc0 (fun d hd => isDigit_of_mem_natText (n := x.shortest.1) ?_) _
    rw [hall]
    exact List.mem_append_left _ hd

end DecLit

end SecurityAudit
