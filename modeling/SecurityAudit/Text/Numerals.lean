import SecurityAudit.Text.Str
import SecurityAudit.Text.Words

/-!
# Numbers read from text

`int(s)`: whitespace around the number does not count, a sign may stand before it, and single
underscores may stand between its digits. Which code points are whitespace, what the digits of
other scripts are worth and how many digits are converted is up to the interpreter.
-/

namespace SecurityAudit

/-- What `int` knows of code points, and its limit. -/
structure Numerals where
  space : CodePoint → Bool
  decimal : CodePoint → Option ℕ
  maxDigits : ℕ
  space_digit : ∀ c, isDigit c = true → space c = false
  space_minus : space (cp '-') = false

namespace Numerals

variable (N : Numerals)

/-- The value of a digit of any script. -/
def digitOf (c : CodePoint) : Option ℕ := if isDigit c then some (digitVal c) else N.decimal c

/-- The digits of a number, without its underscores. -/
def digits : Str → Option (List ℕ)
  | [] => none
  | [c] => (N.digitOf c).map fun d => [d]
  | c :: c' :: s =>
    match N.digitOf c with
    | none => none
    | some d => (if c' = cp '_' then digits s else digits (c' :: s)).map fun ds => d :: ds

/-- The number without its sign; `none` is a `ValueError`. -/
def magnitude (s : Str) : Option ℕ :=
  match N.digits s with
  | none => none
  | some ds => if ds.length ≤ N.maxDigits then some (ds.foldl (fun n d => n * 10 + d) 0) else none

/-- The signed number. -/
def signed : Str → Option ℤ
  | [] => none
  | c :: s =>
    if c = cp '-' then (N.magnitude s).map fun n : ℕ => -(n : ℤ)
    else if c = cp '+' then (N.magnitude s).map fun n : ℕ => (n : ℤ)
    else (N.magnitude (c :: s)).map fun n : ℕ => (n : ℤ)

/-- `int(s)`; `none` is a `ValueError`. -/
def parse (s : Str) : Option ℤ := N.signed (strip N.space s)

/-! ## Reading what was printed -/

theorem digits_of_isDigit {s : Str} (hne : s ≠ []) (h : ∀ c ∈ s, isDigit c = true) :
    N.digits s = some (s.map digitVal) := by
  induction s with
  | nil => exact absurd rfl hne
  | cons c s ih =>
    have hc : N.digitOf c = some (digitVal c) := if_pos (h c List.mem_cons_self)
    have hs : ∀ c ∈ s, isDigit c = true := fun d hd => h d (List.mem_cons_of_mem _ hd)
    cases s with
    | nil => simp [digits, hc]
    | cons c' s =>
      have hunderscore : c' ≠ cp '_' := by
        intro heq
        have hdigit : isDigit (cp '_') = true := heq ▸ hs c' List.mem_cons_self
        exact absurd hdigit (by decide)
      show (match N.digitOf c with
        | none => none
        | some d => (if c' = cp '_' then N.digits s else N.digits (c' :: s)).map fun ds => d :: ds) = _
      rw [hc, if_neg hunderscore, ih (by simp) hs]
      rfl

theorem magnitude_natText {n : ℕ} (h : (natText n).length ≤ N.maxDigits) :
    N.magnitude (natText n) = some n := by
  have hdigits := N.digits_of_isDigit (natText_ne_nil n) fun c hc => isDigit_of_mem_natText hc
  have hvalue : ((natText n).map digitVal).foldl (fun n d => n * 10 + d) 0 = n := by
    rw [List.foldl_map]
    exact natOfDigits_natText n
  unfold magnitude
  rw [hdigits]
  show (if ((natText n).map digitVal).length ≤ N.maxDigits then _ else none) = some n
  rw [List.length_map, if_pos h, hvalue]

/-- Text without whitespace is not stripped. -/
theorem strip_of_forall {s : Str} (h : ∀ c ∈ s, N.space c = false) : strip N.space s = s := by
  have hstart : s.dropWhile N.space = s := by
    cases s with
    | nil => rfl
    | cons c s => exact List.dropWhile_cons_of_neg (by simp [h c List.mem_cons_self])
  unfold strip
  rw [hstart, List.rdropWhile_eq_self_iff]
  intro hne
  simp [h _ (List.getLast_mem hne)]

/-- **A printed number reads back.** -/
theorem parse_intText {n : ℤ} (h : (natText n.natAbs).length ≤ N.maxDigits) :
    N.parse (intText n) = some n := by
  unfold parse
  cases n with
  | ofNat n =>
    have hspace : ∀ c ∈ natText n, N.space c = false :=
      fun c hc => N.space_digit c (isDigit_of_mem_natText hc)
    obtain ⟨c, s, hcs⟩ := List.exists_cons_of_ne_nil (natText_ne_nil n)
    have hc : isDigit c = true := isDigit_of_mem_natText (n := n) (by simp [hcs])
    have hsign : c ≠ cp '-' ∧ c ≠ cp '+' := by
      constructor <;> rintro rfl <;> exact absurd hc (by decide)
    show N.signed (strip N.space (natText n)) = some (n : ℤ)
    rw [N.strip_of_forall hspace, hcs]
    show (if c = cp '-' then _ else if c = cp '+' then _ else
      (N.magnitude (c :: s)).map fun n : ℕ => (n : ℤ)) = some (n : ℤ)
    have hmagnitude : N.magnitude (natText n) = some n := N.magnitude_natText h
    rw [if_neg hsign.1, if_neg hsign.2, ← hcs, hmagnitude]
    rfl
  | negSucc n =>
    have hspace : ∀ c ∈ cp '-' :: natText (n + 1), N.space c = false := by
      intro c hc
      rcases List.mem_cons.mp hc with rfl | hc
      · exact N.space_minus
      · exact N.space_digit c (isDigit_of_mem_natText hc)
    show N.signed (strip N.space (cp '-' :: natText (n + 1))) = some (Int.negSucc n)
    rw [N.strip_of_forall hspace]
    have hmagnitude : N.magnitude (natText (n + 1)) = some (n + 1) := N.magnitude_natText h
    rw [signed]
    rw [if_pos rfl, hmagnitude]
    rfl

end Numerals

end SecurityAudit
