import SecurityAudit.Text.Str
import SecurityAudit.Text.Words

/-!
# UTF-8, byte by byte

`utf8Bytes` writes text as UTF-8, `decodeReplace` reads any bytes, with `U+FFFD` for what is not
UTF-8 (`bytes.decode("utf-8", errors="replace")`: one for each maximal part of a sequence that
breaks off). Neither is the inverse of the other on everything, but both keep ASCII apart from
the rest: `Reads b s` says that `b` and `s` agree wherever either has an ASCII character. That is
all a protocol of ASCII words needs.
-/

namespace SecurityAudit

/-! ## Writing -/

/-- The `i`-th continuation byte from the right. -/
def continuation (c : CodePoint) (i : ℕ) : Fin 256 := ⟨0x80 + c.val / 64 ^ i % 64, by omega⟩

/-- The bytes of one code point. -/
def utf8Char (c : CodePoint) : List (Fin 256) :=
  if h₁ : c.val < 0x80 then [⟨c.val, by omega⟩]
  else if h₂ : c.val < 0x800 then [⟨0xC0 + c.val / 64, by omega⟩, continuation c 0]
  else if h₃ : c.val < 0x10000 then
    [⟨0xE0 + c.val / 4096, by omega⟩, continuation c 1, continuation c 0]
  else [⟨0xF0 + c.val / 262144, by omega⟩, continuation c 2, continuation c 1, continuation c 0]

/-- The bytes of a text without surrogates. -/
def utf8Bytes (s : Str) : List (Fin 256) := s.flatMap utf8Char

/-! ## Reading -/

/-- `U+FFFD`. -/
def replacementChar : CodePoint := ⟨0xFFFD, by omega⟩

/-- What a lead byte announces: how many bytes follow, its own bits, and the bounds of the next
byte. -/
structure Lead where
  more : ℕ
  bits : ℕ
  low : ℕ
  high : ℕ

/-- The lead bytes of sequences of more than one byte. -/
def lead? (b : ℕ) : Option Lead :=
  if b < 0xC2 then none
  else if b ≤ 0xDF then some ⟨1, b - 0xC0, 0x80, 0xBF⟩
  else if b = 0xE0 then some ⟨2, 0, 0xA0, 0xBF⟩
  else if b = 0xED then some ⟨2, 0xD, 0x80, 0x9F⟩
  else if b ≤ 0xEF then some ⟨2, b - 0xE0, 0x80, 0xBF⟩
  else if b = 0xF0 then some ⟨3, 0, 0x90, 0xBF⟩
  else if b ≤ 0xF3 then some ⟨3, b - 0xF0, 0x80, 0xBF⟩
  else if b = 0xF4 then some ⟨3, 4, 0x80, 0x8F⟩
  else none

/-- Read the `more` bytes that should follow, with `bits` collected so far. The result is the code
point and how many bytes were taken; the bounds of the lead bytes keep it within the test at the
end. -/
def decodeTail : (more bits low high taken : ℕ) → List (Fin 256) → CodePoint × ℕ
  | 0, bits, _, _, taken, _ =>
    if h : 0x80 ≤ bits ∧ bits < 0x110000 then (⟨bits, h.2⟩, taken) else (replacementChar, taken)
  | _ + 1, _, _, _, taken, [] => (replacementChar, taken)
  | more + 1, bits, low, high, taken, b :: rest =>
    if low ≤ b.val ∧ b.val ≤ high then
      decodeTail more (bits * 64 + (b.val - 0x80)) 0x80 0xBF (taken + 1) rest
    else (replacementChar, taken)

/-- Read the code point that starts with the byte `b`. -/
def decodeOne (b : Fin 256) (rest : List (Fin 256)) : CodePoint × ℕ :=
  if b.val < 0x80 then (⟨b.val, by omega⟩, 0)
  else match lead? b.val with
    | some l => decodeTail l.more l.bits l.low l.high 0 rest
    | none => (replacementChar, 0)

/-- Read on after `skip` bytes that belong to the code point just read. -/
def decodeFrom : ℕ → List (Fin 256) → Str
  | _, [] => []
  | skip + 1, _ :: rest => decodeFrom skip rest
  | 0, b :: rest => (decodeOne b rest).1 :: decodeFrom (decodeOne b rest).2 rest

/-- `b.decode("utf-8", errors="replace")`. -/
def decodeReplace (b : List (Fin 256)) : Str := decodeFrom 0 b

/-! ## Agreement on ASCII -/

/-- The bytes and the text have the same ASCII characters at the same places, and something
that is not ASCII at the same places. -/
inductive Reads : List (Fin 256) → Str → Prop where
  | nil : Reads [] []
  | ascii {b : Fin 256} {c : CodePoint} {bs : List (Fin 256)} {s : Str} (h : c.val = b.val)
      (hb : b.val < 0x80) (rest : Reads bs s) : Reads (b :: bs) (c :: s)
  | other {chunk : List (Fin 256)} {c : CodePoint} {bs : List (Fin 256)} {s : Str}
      (hne : chunk ≠ []) (hchunk : ∀ b ∈ chunk, 0x80 ≤ b.val) (hc : 0x80 ≤ c.val)
      (rest : Reads bs s) : Reads (chunk ++ bs) (c :: s)

theorem reads_utf8Bytes (s : Str) : Reads (utf8Bytes s) s := by
  induction s with
  | nil => exact .nil
  | cons c s ih =>
    rw [utf8Bytes, List.flatMap_cons]
    by_cases hc : c.val < 0x80
    · rw [utf8Char, dif_pos hc]
      exact .ascii rfl hc ih
    · refine .other ?_ ?_ (by omega) ih
      · unfold utf8Char
        split_ifs <;> simp
      · intro b hb
        unfold utf8Char continuation at hb
        split_ifs at hb <;> simp only [List.mem_cons, List.not_mem_nil, or_false] at hb <;>
          rcases hb with rfl | hb | hb | hb <;> simp_all <;> omega

/-- What `decodeTail` reads is not ASCII, and neither is what it takes. -/
theorem decodeTail_spec {more bits low high taken : ℕ} {rest : List (Fin 256)}
    (hlow : 0x80 ≤ low) :
    0x80 ≤ (decodeTail more bits low high taken rest).1.val ∧
      ∃ n, (decodeTail more bits low high taken rest).2 = taken + n ∧ n ≤ rest.length ∧
        ∀ b ∈ rest.take n, 0x80 ≤ b.val := by
  induction more generalizing bits low high taken rest with
  | zero =>
    unfold decodeTail
    split_ifs with h
    · exact ⟨h.1, 0, rfl, by omega, by simp⟩
    · exact ⟨by simp [replacementChar], 0, rfl, by omega, by simp⟩
  | succ more ih =>
    cases rest with
    | nil => exact ⟨by simp [decodeTail, replacementChar], 0, rfl, le_refl _, by simp⟩
    | cons b rest =>
      unfold decodeTail
      split_ifs with h
      · obtain ⟨hval, n, htaken, hn, hmem⟩ := @ih (bits * 64 + (b.val - 0x80)) 0x80 0xBF
          (taken + 1) rest (le_refl _)
        refine ⟨hval, n + 1, by omega, by simpa using hn, ?_⟩
        intro b' hb'
        rw [List.take_succ_cons, List.mem_cons] at hb'
        rcases hb' with rfl | hb'
        · omega
        · exact hmem b' hb'
      · exact ⟨by simp [replacementChar], 0, rfl, by omega, by simp⟩

theorem lead?_low {b : ℕ} {l : Lead} (h : lead? b = some l) : 0x80 ≤ l.low := by
  unfold lead? at h
  split_ifs at h <;> cases h <;> simp

theorem decodeOne_spec {b : Fin 256} (hb : 0x80 ≤ b.val) (rest : List (Fin 256)) :
    0x80 ≤ (decodeOne b rest).1.val ∧ (decodeOne b rest).2 ≤ rest.length ∧
      ∀ x ∈ rest.take (decodeOne b rest).2, 0x80 ≤ x.val := by
  unfold decodeOne
  rw [if_neg (by omega)]
  split
  · next l hl =>
    obtain ⟨hval, n, htaken, hn, hmem⟩ := @decodeTail_spec l.more l.bits l.low l.high 0 rest
      (lead?_low hl)
    rw [Nat.zero_add] at htaken
    rw [htaken]
    exact ⟨hval, hn, hmem⟩
  · exact ⟨by simp [replacementChar], Nat.zero_le _, by simp⟩

theorem decodeFrom_eq (skip : ℕ) (b : List (Fin 256)) :
    decodeFrom skip b = decodeReplace (b.drop skip) := by
  induction skip generalizing b with
  | zero => rfl
  | succ skip ih =>
    cases b with
    | nil => simp [decodeFrom, decodeReplace]
    | cons x b => exact ih b

theorem reads_decodeReplace (b : List (Fin 256)) : Reads b (decodeReplace b) := by
  -- one code point takes a lead byte and a prefix of the rest
  induction hn : b.length using Nat.strong_induction_on generalizing b with
  | _ n ih =>
    cases b with
    | nil => exact .nil
    | cons x rest =>
      show Reads (x :: rest) ((decodeOne x rest).1 :: decodeFrom (decodeOne x rest).2 rest)
      rw [decodeFrom_eq]
      rw [List.length_cons] at hn
      by_cases hx : x.val < 0x80
      · have hone : decodeOne x rest = (⟨x.val, by omega⟩, 0) := if_pos hx
        rw [hone]
        exact .ascii rfl hx (ih rest.length (by omega) rest rfl)
      · obtain ⟨hval, hle, hmem⟩ := decodeOne_spec (by omega : 0x80 ≤ x.val) rest
        have hrest := ih (rest.drop (decodeOne x rest).2).length
          (by rw [List.length_drop]; omega) _ rfl
        have hchunk : ∀ y ∈ x :: rest.take (decodeOne x rest).2, 0x80 ≤ y.val := by
          simpa using ⟨by omega, hmem⟩
        have h := Reads.other (by simp) hchunk hval hrest
        rwa [List.cons_append, List.take_append_drop] at h

namespace Reads

variable {b : List (Fin 256)} {s : Str}

/-- Bytes that are all ASCII are the text. -/
theorem eq_of_ascii (h : Reads b s) (hb : ∀ x ∈ b, x.val < 0x80) :
    s.map Fin.val = b.map Fin.val := by
  induction h with
  | nil => rfl
  | ascii h _ _ ih =>
    simp only [List.map_cons, h]
    rw [ih fun x hx => hb x (by simp [hx])]
  | @other chunk c bs s hne hchunk hc rest ih =>
    obtain ⟨x, hx⟩ := List.exists_mem_of_ne_nil chunk hne
    have h₁ := hb x (by simp [hx])
    have h₂ := hchunk x hx
    omega

variable {p : Fin 256 → Bool} {q : CodePoint → Bool}

/-- Related lists stay related when their heads are changed alike. -/
theorem forall₂_modifyHead {α β : Type} {R : α → β → Prop} {f : α → α} {g : β → β}
    (hfg : ∀ a b, R a b → R (f a) (g b)) {l : List α} {l' : List β} (h : List.Forall₂ R l l') :
    List.Forall₂ R (l.modifyHead f) (l'.modifyHead g) := by
  cases h with
  | nil => exact .nil
  | cons h hs => exact .cons (hfg _ _ h) hs

/-- Two separators that agree on ASCII and are ASCII split both readings alike. -/
theorem splitOnP (h : Reads b s) (hpq : ∀ x c, c.val = x.val → p x = q c)
    (hp : ∀ x, p x = true → x.val < 0x80) (hq : ∀ c, q c = true → c.val < 0x80) :
    List.Forall₂ Reads (b.splitOnP p) (s.splitOnP q) := by
  induction h with
  | nil => exact .cons .nil .nil
  | @ascii x c bs s hxc hx rest ih =>
    rw [List.splitOnP_cons_eq_if_modifyHead, List.splitOnP_cons_eq_if_modifyHead, hpq x c hxc]
    by_cases hc : q c = true
    · rw [if_pos hc, if_pos hc]
      exact .cons .nil ih
    · rw [if_neg hc, if_neg hc]
      exact forall₂_modifyHead (fun _ _ h => .ascii hxc hx h) ih
  | @other chunk c bs s hne hchunk hc rest ih =>
    have hqc : ¬q c = true := fun h => absurd (hq c h) (by omega)
    rw [List.splitOnP_cons_eq_if_modifyHead, if_neg hqc]
    -- the chunk goes to the front of the first piece
    have hpiece : (chunk ++ bs).splitOnP p = (bs.splitOnP p).modifyHead (chunk ++ ·) := by
      clear hne
      induction chunk with
      | nil =>
        obtain ⟨w, ws, hw⟩ := List.exists_cons_of_ne_nil (List.splitOnP_ne_nil p bs)
        rw [List.nil_append, hw]
        rfl
      | cons x chunk ihc =>
        have hpx : ¬p x = true := fun h =>
          absurd (hp x h) (by have := hchunk x (by simp); omega)
        rw [List.cons_append, List.splitOnP_cons_eq_if_modifyHead, if_neg hpx,
          ihc fun y hy => hchunk y (by simp [hy])]
        obtain ⟨w, ws, hw⟩ := List.exists_cons_of_ne_nil (List.splitOnP_ne_nil p bs)
        rw [hw]
        rfl
    rw [hpiece]
    exact forall₂_modifyHead (fun _ _ h => .other hne hchunk hc h) ih

theorem isEmpty_eq (h : Reads b s) : b.isEmpty = s.isEmpty := by
  cases h with
  | nil => rfl
  | ascii => rfl
  | other hne => simp [hne]

/-- The words of both readings correspond. -/
theorem words (h : Reads b s) (hpq : ∀ x c, c.val = x.val → p x = q c)
    (hp : ∀ x, p x = true → x.val < 0x80) (hq : ∀ c, q c = true → c.val < 0x80) :
    List.Forall₂ Reads (SecurityAudit.words p b) (SecurityAudit.words q s) := by
  unfold SecurityAudit.words
  exact List.rel_filter (fun w t hw => by simp [hw.isEmpty_eq]) (h.splitOnP hpq hp hq)

end Reads

end SecurityAudit
