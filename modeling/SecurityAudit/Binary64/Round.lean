import Mathlib

/-!
# Doubles and decimal numbers

The magnitude of a finite `float` is a whole number of `2^-1074`, written `mant · 2^shift`
with a 53-bit `mant`; the structure carries the proof that the pair is the canonical one, so
two magnitudes are equal exactly when the doubles are.

* `ofDecimal D e` is the double nearest to `D · 10^e`, ties to even: what `float(text)`
  computes from the digits and the exponent of `text`. `none` is overflow.
* `shortest x` is the shortest decimal that `ofDecimal` takes back to `x`, nearest to `x`
  among those: what `float.__repr__` prints.

`ofDecimal_shortest` is the round trip. It needs no bound on how many digits suffice: the
search tests each candidate, and the exact decimal expansion, which always exists because
`10 = 2 · 5`, stands behind it.
-/

namespace SecurityAudit

/-- The magnitude of a finite double, in units of `2^-1074`. -/
structure Binary64 where
  mant : ℕ
  shift : ℕ
  mant_lt : mant < 2 ^ 53
  normal : shift = 0 ∨ 2 ^ 52 ≤ mant
  shift_le : shift ≤ 2045
deriving DecidableEq

namespace Binary64

/-- Doubles are whole multiples of `2^-minExp`. -/
def minExp : ℕ := 1074

/-- How many units of `2^-1074` the double is. -/
def units (x : Binary64) : ℕ := x.mant * 2 ^ x.shift

/-- `N / D` rounded to the nearest natural number, ties to even. -/
def roundHalfEven (N D : ℕ) : ℕ :=
  if 2 * (N % D) < D then N / D
  else if D < 2 * (N % D) then N / D + 1
  else N / D + N / D % 2

/-- The exponent `n / d` is rounded at: its quotient in units has `53` bits there, or the
double is subnormal. -/
def scale (n d : ℕ) : ℕ := Nat.log2 (n * 2 ^ minExp / d) - 52

/-- The double nearest to `n / d`. The mantissa can round up to `2^53`, which is `2^52` one
exponent higher; past the largest exponent the result is an infinity. -/
def ofRatio (n d : ℕ) : Option Binary64 :=
  let s := scale n d
  let m := roundHalfEven (n * 2 ^ minExp) (d * 2 ^ s)
  if h : m < 2 ^ 53 ∧ (s = 0 ∨ 2 ^ 52 ≤ m) ∧ s ≤ 2045 then some ⟨m, s, h.1, h.2.1, h.2.2⟩
  else if h : s + 1 ≤ 2045 then some ⟨2 ^ 52, s + 1, by norm_num, .inr le_rfl, h⟩
  else none

/-- The double nearest to `D · 10^e`. -/
def ofDecimal (D : ℕ) (e : ℤ) : Option Binary64 :=
  if 0 ≤ e then ofRatio (D * 10 ^ e.toNat) 1 else ofRatio D (10 ^ (-e).toNat)

/-! ## Rounding -/

theorem roundHalfEven_mul (N D : ℕ) {k : ℕ} (hk : 0 < k) :
    roundHalfEven (N * k) (D * k) = roundHalfEven N D := by
  have hmul : ∀ a b : ℕ, 2 * (a * k) < b * k ↔ 2 * a < b := fun a b => by
    rw [← mul_assoc]
    exact Nat.mul_lt_mul_right hk
  have hmul' : ∀ a b : ℕ, b * k < 2 * (a * k) ↔ b < 2 * a := fun a b => by
    rw [← mul_assoc]
    exact Nat.mul_lt_mul_right hk
  simp only [roundHalfEven, Nat.mul_mod_mul_right, Nat.mul_div_mul_right _ _ hk, hmul, hmul']

theorem roundHalfEven_exact (m : ℕ) {D : ℕ} (hD : 0 < D) : roundHalfEven (m * D) D = m := by
  simp [roundHalfEven, Nat.mul_div_cancel _ hD, hD]

theorem ofRatio_mul (n d : ℕ) {k : ℕ} (hk : 0 < k) : ofRatio (n * k) (d * k) = ofRatio n d := by
  have hN : n * k * 2 ^ minExp = n * 2 ^ minExp * k := by ring
  have hs : scale (n * k) (d * k) = scale n d := by
    rw [scale, hN, Nat.mul_div_mul_right _ _ hk, scale]
  have hm : roundHalfEven (n * k * 2 ^ minExp) (d * k * 2 ^ scale n d)
      = roundHalfEven (n * 2 ^ minExp) (d * 2 ^ scale n d) := by
    rw [hN, show d * k * 2 ^ scale n d = d * 2 ^ scale n d * k by ring, roundHalfEven_mul _ _ hk]
  simp only [ofRatio, hs, hm]

/-- The exponent of an exactly represented ratio is that of the double. -/
theorem scale_exact {n d : ℕ} (hd : 0 < d) (x : Binary64) (h : n * 2 ^ minExp = x.units * d) :
    scale n d = x.shift := by
  rw [scale, h, Nat.mul_div_cancel _ hd, units]
  have hlt := x.mant_lt
  rcases x.normal with h0 | hnormal
  · rw [h0, pow_zero, mul_one]
    by_cases hm : x.mant = 0
    · simp [hm]
    · have := (Nat.log2_lt hm).mpr hlt
      omega
  · have hpos : x.mant * 2 ^ x.shift ≠ 0 :=
      Nat.mul_ne_zero (by omega) (pow_ne_zero _ (by norm_num))
    have hlog : Nat.log2 (x.mant * 2 ^ x.shift) = 52 + x.shift := by
      rw [Nat.log2_eq_iff hpos, pow_add, show 52 + x.shift + 1 = 53 + x.shift by ring, pow_add]
      exact ⟨Nat.mul_le_mul_right _ hnormal, Nat.mul_lt_mul_of_pos_right hlt (by positivity)⟩
    omega

/-- A ratio that is a double is rounded to that double. -/
theorem ofRatio_exact {n d : ℕ} (hd : 0 < d) (x : Binary64) (h : n * 2 ^ minExp = x.units * d) :
    ofRatio n d = some x := by
  have hs := scale_exact hd x h
  have hm : roundHalfEven (n * 2 ^ minExp) (d * 2 ^ x.shift) = x.mant := by
    rw [h, units, show x.mant * 2 ^ x.shift * d = x.mant * (d * 2 ^ x.shift) by ring]
    exact roundHalfEven_exact _ (by positivity)
  simp only [ofRatio, hs, hm]
  rw [dif_pos ⟨x.mant_lt, x.normal, x.shift_le⟩]

/-! ## Decimals -/

/-- `D · 10^e` over any denominator that clears it. -/
theorem ofDecimal_eq (D : ℕ) (e : ℤ) (k : ℕ) (hk : 0 ≤ e + k) :
    ofDecimal D e = ofRatio (D * 10 ^ (e + k).toNat) (10 ^ k) := by
  unfold ofDecimal
  split
  · next h =>
    have hexp : (e + k).toNat = e.toNat + k := by omega
    rw [hexp, pow_add, ← mul_assoc]
    have hmul := ofRatio_mul (D * 10 ^ e.toNat) 1 (pow_pos (by norm_num : 0 < 10) k)
    rw [one_mul] at hmul
    exact hmul.symm
  · next h =>
    have hexp : k = (-e).toNat + (e + k).toNat := by omega
    conv_rhs => rw [hexp, pow_add]
    rw [show (e + ((-e).toNat + (e + k).toNat : ℕ)).toNat = (e + k).toNat by omega,
      ofRatio_mul _ _ (by positivity)]

/-- Trailing zeros can move into the exponent. -/
theorem ofDecimal_shift (D z : ℕ) (e : ℤ) : ofDecimal (D * 10 ^ z) (e - z) = ofDecimal D e := by
  obtain ⟨k, hk⟩ : ∃ k : ℕ, 0 ≤ e - z + k := ⟨(z - e).toNat, by omega⟩
  rw [ofDecimal_eq _ _ k hk, ofDecimal_eq _ e k (by omega), mul_assoc, ← pow_add]
  congr 3
  omega

/-- The exact decimal expansion of a double. -/
theorem ofDecimal_exact (x : Binary64) : ofDecimal (x.units * 5 ^ minExp) (-minExp) = some x := by
  rw [ofDecimal_eq _ _ minExp (by omega)]
  refine ofRatio_exact (by positivity) x ?_
  rw [show (-(minExp : ℤ) + minExp).toNat = 0 by omega, pow_zero, mul_one, mul_assoc, ← mul_pow,
    show 5 * 2 = 10 from rfl]

/-! ## The shortest decimal -/

/-- The `p` with `10^(p-1) ≤ x < 10^p`, for a double that is not zero. -/
def decimalPoint (x : Binary64) : ℤ :=
  (Nat.digits 10 (x.units * 10 ^ 400 / 2 ^ minExp)).length - 400

/-- The two decimals of `nd` significant digits around `x`, the nearer one first, the even
one first on a tie. -/
def neighbours (x : Binary64) (nd : ℕ) : List (ℕ × ℤ) :=
  let e := x.decimalPoint - nd
  let D := 2 ^ minExp * 10 ^ 400
  let N := x.units * 10 ^ (400 - e).toNat
  let near := roundHalfEven N D
  [(near, e), (if near = N / D then N / D + 1 else N / D, e)]

/-- The digits and the exponent `float.__repr__` prints. -/
def shortest (x : Binary64) : ℕ × ℤ :=
  (((List.range' 1 17).flatMap x.neighbours).find? fun p => ofDecimal p.1 p.2 = some x).getD
    (x.units * 5 ^ minExp, -minExp)

/-- **Round trip.** Reading the shortest decimal of a double gives the double. -/
theorem ofDecimal_shortest (x : Binary64) : ofDecimal x.shortest.1 x.shortest.2 = some x := by
  unfold shortest
  cases h : ((List.range' 1 17).flatMap x.neighbours).find?
      fun p => ofDecimal p.1 p.2 = some x with
  | none => exact ofDecimal_exact x
  | some p => simpa using List.find?_some h

end Binary64

end SecurityAudit
