import SecurityAudit.Text.Utf8Bytes

/-!
# Reading back what was written

`decodeReplace` is the inverse of `utf8Bytes` on text without surrogates, and an ASCII byte is
never part of a longer sequence, so decoding and splitting at ASCII separators commute.
-/

namespace SecurityAudit

/-! ## One code point -/

/-- A continuation byte that is within the bounds. -/
theorem decodeTail_continuation {more bits low high taken i : ℕ} {c : CodePoint}
    {rest : List (Fin 256)} (hlow : low ≤ 0x80 + c.val / 64 ^ i % 64)
    (hhigh : 0x80 + c.val / 64 ^ i % 64 ≤ high) :
    decodeTail (more + 1) bits low high taken (continuation c i :: rest) =
      decodeTail more (bits * 64 + c.val / 64 ^ i % 64) 0x80 0xBF (taken + 1) rest := by
  have hval : (continuation c i).val = 0x80 + c.val / 64 ^ i % 64 := rfl
  rw [decodeTail, hval, if_pos ⟨hlow, hhigh⟩, Nat.add_sub_cancel_left]

/-- A continuation byte after the first. -/
theorem decodeTail_later {more bits taken i : ℕ} {c : CodePoint} {rest : List (Fin 256)} :
    decodeTail (more + 1) bits 0x80 0xBF taken (continuation c i :: rest) =
      decodeTail more (bits * 64 + c.val / 64 ^ i % 64) 0x80 0xBF (taken + 1) rest := by
  have hmod : c.val / 64 ^ i % 64 < 64 := Nat.mod_lt _ (by norm_num)
  exact decodeTail_continuation (by omega) (by omega)

theorem decodeTail_done (c : CodePoint) {low high taken bits : ℕ} {rest : List (Fin 256)}
    (hbits : bits = c.val) (hc : 0x80 ≤ c.val) :
    decodeTail 0 bits low high taken rest = (c, taken) := by
  subst hbits
  rw [decodeTail, dif_pos ⟨hc, c.isLt⟩]

/-- The lead byte of three announces the right bounds. -/
theorem lead?_three {c : CodePoint} (hlow : 0x800 ≤ c.val) (hhigh : c.val < 0x10000)
    (hc : isSurrogate c = false) : ∃ low high, lead? (0xE0 + c.val / 4096) =
      some ⟨2, c.val / 4096, low, high⟩ ∧ low ≤ 0x80 + c.val / 64 ^ 1 % 64 ∧
        0x80 + c.val / 64 ^ 1 % 64 ≤ high := by
  have hsurrogate : ¬(0xD800 ≤ c.val ∧ c.val ≤ 0xDFFF) := of_decide_eq_false hc
  by_cases h₀ : c.val / 4096 = 0
  · refine ⟨0xA0, 0xBF, ?_, by omega, by omega⟩
    rw [h₀]
    rfl
  · by_cases h₁ : c.val / 4096 = 13
    · refine ⟨0x80, 0x9F, ?_, by omega, by omega⟩
      rw [h₁]
      rfl
    · refine ⟨0x80, 0xBF, ?_, by omega, by omega⟩
      unfold lead?
      rw [if_neg (by omega), if_neg (by omega), if_neg (by omega), if_neg (by omega),
        if_pos (by omega), Nat.add_sub_cancel_left]

/-- The same for the lead byte of four. -/
theorem lead?_four {c : CodePoint} (hlow : 0x10000 ≤ c.val) : ∃ low high,
    lead? (0xF0 + c.val / 262144) = some ⟨3, c.val / 262144, low, high⟩ ∧
      low ≤ 0x80 + c.val / 64 ^ 2 % 64 ∧ 0x80 + c.val / 64 ^ 2 % 64 ≤ high := by
  have hlt : c.val < 0x110000 := c.isLt
  by_cases h₀ : c.val / 262144 = 0
  · refine ⟨0x90, 0xBF, ?_, by omega, by omega⟩
    rw [h₀]
    rfl
  · by_cases h₁ : c.val / 262144 = 4
    · refine ⟨0x80, 0x8F, ?_, by omega, by omega⟩
      rw [h₁]
      rfl
    · refine ⟨0x80, 0xBF, ?_, by omega, by omega⟩
      unfold lead?
      rw [if_neg (by omega), if_neg (by omega), if_neg (by omega), if_neg (by omega),
        if_neg (by omega), if_neg (by omega), if_pos (by omega), Nat.add_sub_cancel_left]

/-- The code point after a lead byte. -/
theorem decodeReplace_of_decodeOne (more : List (Fin 256)) {b : Fin 256} {rest : List (Fin 256)}
    {c : CodePoint}
    (h : decodeOne b (more ++ rest) = (c, more.length)) :
    decodeReplace (b :: (more ++ rest)) = c :: decodeReplace rest := by
  show (decodeOne b (more ++ rest)).1 :: decodeFrom (decodeOne b (more ++ rest)).2 (more ++ rest) =
    c :: decodeReplace rest
  rw [h, decodeFrom_eq, List.drop_left]

theorem decodeReplace_utf8Char {c : CodePoint} (hc : isSurrogate c = false)
    (rest : List (Fin 256)) : decodeReplace (utf8Char c ++ rest) = c :: decodeReplace rest := by
  have hlt : c.val < 0x110000 := c.isLt
  unfold utf8Char
  split_ifs with h₁ h₂ h₃
  · exact decodeReplace_of_decodeOne [] (if_pos h₁)
  · refine decodeReplace_of_decodeOne [continuation c 0] ?_
    have hlead : lead? (0xC0 + c.val / 64) = some ⟨1, c.val / 64, 0x80, 0xBF⟩ := by
      unfold lead?
      rw [if_neg (by omega), if_pos (by omega), Nat.add_sub_cancel_left]
    unfold decodeOne
    rw [if_neg (by simp only; omega)]
    simp only [hlead, List.cons_append, List.nil_append]
    rw [decodeTail_later, decodeTail_done c (by omega) (by omega)]
    rfl
  · refine decodeReplace_of_decodeOne [continuation c 1, continuation c 0] ?_
    obtain ⟨low, high, hlead, hlow, hhigh⟩ := lead?_three (by omega) h₃ hc
    unfold decodeOne
    rw [if_neg (by simp only; omega)]
    simp only [hlead, List.cons_append, List.nil_append]
    rw [decodeTail_continuation hlow hhigh, decodeTail_later, decodeTail_done c (by omega) (by omega)]
    rfl
  · refine decodeReplace_of_decodeOne
      [continuation c 2, continuation c 1, continuation c 0] ?_
    obtain ⟨low, high, hlead, hlow, hhigh⟩ := lead?_four (c := c) (by omega)
    unfold decodeOne
    rw [if_neg (by simp only; omega)]
    simp only [hlead, List.cons_append, List.nil_append]
    rw [decodeTail_continuation hlow hhigh, decodeTail_later, decodeTail_later,
      decodeTail_done c (by omega) (by omega)]
    rfl

/-- **Round trip.** What was written is read back. -/
theorem decodeReplace_utf8Bytes {s : Str} (hs : ∀ c ∈ s, isSurrogate c = false) :
    decodeReplace (utf8Bytes s) = s := by
  induction s with
  | nil => rfl
  | cons c s ih =>
    rw [utf8Bytes, List.flatMap_cons, decodeReplace_utf8Char (hs c (by simp))]
    congr 1
    exact ih fun d hd => hs d (by simp [hd])

/-! ## Splitting -/

/-- A byte of ASCII ends a sequence as the end of the input does. -/
theorem decodeTail_append {more bits low high taken : ℕ} {x y : List (Fin 256)} {b : Fin 256}
    (hb : b.val < 0x80) (hlow : 0x80 ≤ low) :
    decodeTail more bits low high taken (x ++ b :: y) = decodeTail more bits low high taken x := by
  induction more generalizing bits low high taken x with
  | zero => rfl
  | succ more ih =>
    cases x with
    | nil =>
      rw [List.nil_append, decodeTail, decodeTail, if_neg (by omega)]
    | cons a x =>
      rw [List.cons_append, decodeTail, decodeTail, ih (le_refl _)]

theorem decodeOne_append {a b : Fin 256} (hb : b.val < 0x80) (x y : List (Fin 256)) :
    decodeOne a (x ++ b :: y) = decodeOne a x := by
  unfold decodeOne
  split_ifs with ha
  · rfl
  · cases hl : lead? a.val with
    | none => rfl
    | some l => exact decodeTail_append hb (lead?_low hl)

/-- Reading goes on after a byte of ASCII as at the beginning. -/
theorem decodeReplace_append {b : Fin 256} (hb : b.val < 0x80) (x y : List (Fin 256)) :
    decodeReplace (x ++ b :: y) = decodeReplace x ++ ⟨b.val, by omega⟩ :: decodeReplace y := by
  induction hn : x.length using Nat.strong_induction_on generalizing x with
  | _ n ih =>
    cases x with
    | nil =>
      have hone : decodeOne b y = (⟨b.val, by omega⟩, 0) := if_pos hb
      show (decodeOne b y).1 :: decodeFrom (decodeOne b y).2 y = _
      rw [hone]
      rfl
    | cons a x =>
      have hle : (decodeOne a x).2 ≤ x.length := by
        by_cases ha : a.val < 0x80
        · rw [show decodeOne a x = (⟨a.val, by omega⟩, 0) from if_pos ha]
          exact Nat.zero_le _
        · exact (decodeOne_spec (by omega) x).2.1
      rw [List.length_cons] at hn
      show (decodeOne a (x ++ b :: y)).1 ::
          decodeFrom (decodeOne a (x ++ b :: y)).2 (x ++ b :: y) =
        ((decodeOne a x).1 :: decodeFrom (decodeOne a x).2 x) ++ _
      rw [decodeOne_append hb, decodeFrom_eq, decodeFrom_eq, List.drop_append_of_le_length hle,
        ih _ (by rw [List.length_drop]; omega) _ rfl]
      rfl

/-- What a text has of ASCII its bytes have. -/
theorem Reads.mem_of_ascii {b : List (Fin 256)} {s : Str} (h : Reads b s) {c : CodePoint}
    (hc : c ∈ s) (hascii : c.val < 0x80) : ∃ x ∈ b, c.val = x.val := by
  induction h with
  | nil => cases hc
  | @ascii x d bs s hd hx rest ih =>
    rcases List.mem_cons.mp hc with rfl | hc
    · exact ⟨x, by simp, hd⟩
    · obtain ⟨y, hy, hval⟩ := ih hc
      exact ⟨y, by simp [hy], hval⟩
  | @other chunk d bs s hne hchunk hd rest ih =>
    rcases List.mem_cons.mp hc with rfl | hc
    · omega
    · obtain ⟨y, hy, hval⟩ := ih hc
      exact ⟨y, by simp [hy], hval⟩

/-- The words of the text are the texts of the words. -/
theorem words_decodeReplace {p : Fin 256 → Bool} {q : CodePoint → Bool}
    (hpq : ∀ x c, c.val = x.val → p x = q c) (hp : ∀ x, p x = true → x.val < 0x80)
    (hq : ∀ c, q c = true → c.val < 0x80) (b : List (Fin 256)) :
    words q (decodeReplace b) = (words p b).map decodeReplace := by
  induction hn : b.length using Nat.strong_induction_on generalizing b with
  | _ n ih =>
    rcases exists_first_sep p b with hb | ⟨x, a, y, rfl, ha, -⟩
    · by_cases hne : b = []
      · subst hne
        simp [decodeReplace, decodeFrom]
      · have hreads := reads_decodeReplace b
        have hnone : ∀ c ∈ decodeReplace b, q c = false := by
          intro c hc
          by_contra hqc
          rw [Bool.not_eq_false] at hqc
          obtain ⟨z, hz, hval⟩ := hreads.mem_of_ascii hc (hq c hqc)
          rw [← hpq z c hval, hb z hz] at hqc
          cases hqc
        have hsome : decodeReplace b ≠ [] := by
          intro hnil
          have hempty := hreads.isEmpty_eq
          rw [hnil, List.isEmpty_nil, List.isEmpty_iff] at hempty
          exact hne hempty
        rw [words_eq_singleton hne hb, words_eq_singleton hsome hnone]
        rfl
    · rw [List.length_append, List.length_cons] at hn
      have hqa : q ⟨a.val, by omega⟩ = true := by rw [← hpq a _ rfl, ha]
      rw [decodeReplace_append (hp a ha), words_append_sep hqa, words_append_sep ha,
        List.map_append, ih x.length (by omega) x rfl, ih y.length (by omega) y rfl]

end SecurityAudit
