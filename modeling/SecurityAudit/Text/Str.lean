import Mathlib

/-!
# Text as Python has it

A Python `str` is a sequence of code points, and the surrogates `U+D800 .. U+DFFF` are code
points too: `json.loads` returns a string holding one for the escape `\ud800`. Lean's `Char`
has no surrogates, so text is a list of code points here. Only text without surrogates can
be encoded as UTF-8; since UTF-8 loses nothing, the encoded bytes are kept as the text they
encode (`Utf8`), and encoding is the partial map `encode?`.

The second half is decimal and hexadecimal digits: printing a number, reading a run of
digits back, and the two facts the printers and readers above this file live on, that
reading a printed number gives the number, and that a printed number is all digits.
-/

namespace SecurityAudit

/-- A Unicode code point, surrogates included. -/
abbrev CodePoint : Type := Fin 0x110000

/-- A Python `str`. -/
abbrev Str : Type := List CodePoint

/-- There are code points. -/
instance codePoints_neZero : NeZero (0x10FFFF + 1) := ⟨by decide⟩

/-- Texts are equal if their code points are. -/
instance : LawfulBEq Str := inferInstance

/-- Sequences of texts are equal if their texts are. -/
instance : LawfulBEq (List Str) := inferInstance

/-- The code point of a character. -/
def cp (c : Char) : CodePoint :=
  ⟨c.toNat, by
    have h : c.toNat < 0xD800 ∨ 0xDFFF < c.toNat ∧ c.toNat < 0x110000 := c.valid
    omega⟩

/-- A string literal as text. -/
def str (s : String) : Str := s.toList.map cp

theorem str_injective : Function.Injective str := by
  intro s t h
  refine String.toList_inj.mp (List.map_injective_iff.mpr ?_ h)
  intro c d hcd
  have hcode : (cp c).val = (cp d).val := by rw [hcd]
  exact Char.toNat_inj.mp hcode

/-- `U+D800 .. U+DFFF`. -/
def isSurrogate (c : CodePoint) : Bool := decide (0xD800 ≤ c.val ∧ c.val ≤ 0xDFFF)

/-- UTF-8 bytes, kept as the text they encode. -/
structure Utf8 where
  text : Str
  valid : ∀ c ∈ text, isSurrogate c = false
deriving DecidableEq

/-- `s.encode()`; `none` where Python raises `UnicodeEncodeError`. -/
def encode? (s : Str) : Option Utf8 :=
  if h : s.all (fun c => !isSurrogate c) = true then some ⟨s, by simpa using h⟩ else none

theorem encode?_text {s : Str} {u : Utf8} (h : encode? s = some u) : u.text = s := by
  unfold encode? at h
  split at h
  · cases h; rfl
  · cases h

/-- The number of bytes UTF-8 takes for one code point. -/
def utf8Width (c : CodePoint) : ℕ :=
  if c.val < 0x80 then 1 else if c.val < 0x800 then 2 else if c.val < 0x10000 then 3 else 4

/-- `len(s.encode("utf-8"))`. -/
def Utf8.size (u : Utf8) : ℕ := (u.text.map utf8Width).sum

/-- `s.isascii()`. -/
def isAscii (s : Str) : Bool := s.all fun c => decide (c.val < 0x80)

/-! ## Decimal digits -/

/-- The code point of the digit `d`. -/
def digit (d : ℕ) : CodePoint := ⟨48 + d % 10, by omega⟩

/-- `'0' .. '9'`. -/
def isDigit (c : CodePoint) : Bool := decide (48 ≤ c.val ∧ c.val ≤ 57)

/-- The value of a digit. -/
def digitVal (c : CodePoint) : ℕ := c.val - 48

/-- The number a run of digits spells. -/
def natOfDigits (ds : Str) : ℕ := ds.foldl (fun n c => n * 10 + digitVal c) 0

/-- `str(n)` for a natural number. -/
def natText (n : ℕ) : Str :=
  if n = 0 then [digit 0] else (Nat.digits 10 n).reverse.map digit

/-- `str(n)` for an integer. -/
def intText : ℤ → Str
  | .ofNat n => natText n
  | .negSucc n => cp '-' :: natText (n + 1)

/-- The decimal digits of `n`, zero-padded to (and cut at) width `w`: `%0wd`. -/
def padded : ℕ → ℕ → Str
  | 0, _ => []
  | w + 1, n => padded w (n / 10) ++ [digit (n % 10)]

@[simp] theorem digit_val (d : ℕ) : (digit d).val = 48 + d % 10 := rfl

@[simp] theorem isDigit_digit (d : ℕ) : isDigit (digit d) = true := by
  have hd : d % 10 < 10 := Nat.mod_lt _ (by norm_num)
  unfold isDigit
  rw [decide_eq_true_eq, digit_val]
  omega

@[simp] theorem digitVal_digit (d : ℕ) : digitVal (digit d) = d % 10 := by
  simp only [digitVal, digit_val]
  omega

theorem natOfDigits_append (a b : Str) :
    natOfDigits (a ++ b) = natOfDigits a * 10 ^ b.length + natOfDigits b := by
  induction b using List.reverseRecOn with
  | nil => simp [natOfDigits]
  | append_singleton b c ih =>
    have hstep : ∀ (s : Str), natOfDigits (s ++ [c]) = natOfDigits s * 10 + digitVal c := by
      intro s
      simp [natOfDigits, List.foldl_append]
    rw [← List.append_assoc, hstep, hstep, ih, List.length_append, List.length_singleton, pow_succ]
    ring

theorem natOfDigits_cons (c : CodePoint) (s : Str) :
    natOfDigits (c :: s) = digitVal c * 10 ^ s.length + natOfDigits s := by
  have h := natOfDigits_append [c] s
  simpa [natOfDigits] using h

/-- Reading a most-significant-first digit list is `Nat.ofDigits` of its reverse. -/
theorem natOfDigits_map_digit (ds : List ℕ) (h : ∀ d ∈ ds, d < 10) :
    natOfDigits ((ds.reverse).map digit) = Nat.ofDigits 10 ds := by
  induction ds with
  | nil => rfl
  | cons d ds ih =>
    have hd : d % 10 = d := Nat.mod_eq_of_lt (h d (by simp))
    rw [List.reverse_cons, List.map_append, natOfDigits_append, ih fun e he => h e (by simp [he])]
    simp [natOfDigits, Nat.ofDigits_cons, hd]
    ring

/-- Reading a printed number gives the number. -/
@[simp] theorem natOfDigits_natText (n : ℕ) : natOfDigits (natText n) = n := by
  unfold natText
  split
  · next h => simp [h, natOfDigits]
  · rw [natOfDigits_map_digit _ fun d hd => Nat.digits_lt_base (by norm_num) hd]
    exact Nat.ofDigits_digits 10 n

theorem natText_injective : Function.Injective natText := fun m n h => by
  rw [← natOfDigits_natText m, h, natOfDigits_natText]

theorem isDigit_of_mem_natText {n : ℕ} {c : CodePoint} (h : c ∈ natText n) : isDigit c = true := by
  unfold natText at h
  split at h
  · simp only [List.mem_singleton] at h
    rw [h, isDigit_digit]
  · obtain ⟨d, -, rfl⟩ := List.mem_map.mp h
    exact isDigit_digit d

theorem natText_ne_nil (n : ℕ) : natText n ≠ [] := by
  unfold natText
  split
  · simp
  · next h => simpa [Nat.digits_eq_nil_iff_eq_zero] using h

theorem intText_injective : Function.Injective intText := by
  have hsign : ∀ m n : ℕ, natText m ≠ cp '-' :: natText n := by
    intro m n h
    have hdigit : isDigit (cp '-') = true := isDigit_of_mem_natText (n := m) (by simp [h])
    exact absurd hdigit (by decide)
  intro m n h
  cases m with
  | ofNat m =>
    cases n with
    | ofNat n => rw [natText_injective h]
    | negSucc n => exact absurd h (hsign _ _)
  | negSucc m =>
    cases n with
    | ofNat n => exact absurd h.symm (hsign _ _)
    | negSucc n => rw [Nat.succ.inj (natText_injective (List.cons.inj h).2)]

/-- A printed number starts with `0` only if it is `0`. -/
theorem natText_head_pos {n : ℕ} (hn : n ≠ 0) :
    ∃ c s, natText n = c :: s ∧ isDigit c = true ∧ c ≠ digit 0 := by
  obtain ⟨c, s, hcs⟩ : ∃ c s, natText n = c :: s := List.exists_cons_of_ne_nil (natText_ne_nil n)
  refine ⟨c, s, hcs, isDigit_of_mem_natText (n := n) (by simp [hcs]), ?_⟩
  rw [natText, if_neg hn] at hcs
  have hne : Nat.digits 10 n ≠ [] := by simpa [Nat.digits_eq_nil_iff_eq_zero] using hn
  have hlast := Nat.getLast_digit_ne_zero 10 hn
  have hlt : (Nat.digits 10 n).getLast hne < 10 :=
    Nat.digits_lt_base (by norm_num) (List.getLast_mem hne)
  have hhead : c = digit ((Nat.digits 10 n).getLast hne) := by
    have h := congrArg List.head? hcs
    rw [List.head?_map, List.head?_reverse, List.getLast?_eq_getLast_of_ne_nil hne] at h
    simpa using h.symm
  intro hc
  have hval := congrArg Fin.val (hhead.symm.trans hc)
  simp only [digit_val] at hval
  omega

@[simp] theorem natText_zero : natText 0 = [digit 0] := rfl

@[simp] theorem padded_length (w n : ℕ) : (padded w n).length = w := by
  induction w generalizing n with
  | zero => rfl
  | succ w ih => simp [padded, ih]

theorem isDigit_of_mem_padded {w n : ℕ} {c : CodePoint} (h : c ∈ padded w n) :
    isDigit c = true := by
  induction w generalizing n with
  | zero => simp [padded] at h
  | succ w ih =>
    simp only [padded, List.mem_append, List.mem_singleton] at h
    rcases h with h | rfl
    · exact ih h
    · exact isDigit_digit _

theorem natOfDigits_padded (w n : ℕ) : natOfDigits (padded w n) = n % 10 ^ w := by
  induction w generalizing n with
  | zero => simp [padded, natOfDigits, Nat.mod_one]
  | succ w ih =>
    rw [padded, natOfDigits_append, ih, pow_succ', Nat.mod_mul]
    simp [natOfDigits]
    ring

/-- Two numbers that fit the width print alike only if they are equal. -/
theorem padded_inj {w m n : ℕ} (hm : m < 10 ^ w) (hn : n < 10 ^ w) (h : padded w m = padded w n) :
    m = n := by
  have := congrArg natOfDigits h
  rwa [natOfDigits_padded, natOfDigits_padded, Nat.mod_eq_of_lt hm, Nat.mod_eq_of_lt hn] at this

/-! ## Hexadecimal digits -/

/-- The code point of the lowercase hexadecimal digit `d`. -/
def hexDigit (d : ℕ) : CodePoint :=
  if d % 16 < 10 then ⟨48 + d % 16, by omega⟩ else ⟨87 + d % 16, by omega⟩

/-- The value of a hexadecimal digit of either case. -/
def hexVal? (c : CodePoint) : Option ℕ :=
  if 48 ≤ c.val ∧ c.val ≤ 57 then some (c.val - 48)
  else if 97 ≤ c.val ∧ c.val ≤ 102 then some (c.val - 87)
  else if 65 ≤ c.val ∧ c.val ≤ 70 then some (c.val - 55)
  else none

theorem hexVal?_hexDigit (d : ℕ) : hexVal? (hexDigit d) = some (d % 16) := by
  have hd : d % 16 < 16 := Nat.mod_lt _ (by norm_num)
  unfold hexDigit hexVal?
  split
  · next h =>
    rw [if_pos (by constructor <;> dsimp only <;> omega)]
    dsimp only
    congr 1
    omega
  · next h =>
    rw [if_neg (by dsimp only; omega), if_pos (by constructor <;> dsimp only <;> omega)]
    dsimp only
    congr 1
    omega

/-- Hexadecimal digits are ASCII and neither a quote, a backslash nor a control character. -/
theorem hexDigit_range (d : ℕ) : 48 ≤ (hexDigit d).val ∧ (hexDigit d).val ≤ 102 ∧
    (hexDigit d).val ≠ 92 := by
  have hd : d % 16 < 16 := Nat.mod_lt _ (by norm_num)
  unfold hexDigit
  split <;> dsimp only <;> omega

end SecurityAudit
