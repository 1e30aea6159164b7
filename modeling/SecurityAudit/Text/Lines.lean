import SecurityAudit.Text.Str

/-!
# Lines of a text

`str.splitlines`, and `"\n".join(lines) + "\n"`. Lines without a line break of their own come
back as they were written (`splitLines_unlines`), and so does what a line says before and after
its first separator.
-/

namespace SecurityAudit

/-- The newline. -/
def newline : CodePoint := cp '\n'

/-- Where `str.splitlines` ends a line. -/
def isLineBreak (c : CodePoint) : Bool :=
  decide ((10 ≤ c.val ∧ c.val ≤ 13) ∨ (0x1C ≤ c.val ∧ c.val ≤ 0x1E) ∨ c.val = 0x85 ∨
    c.val = 0x2028 ∨ c.val = 0x2029)

/-- The lines of `line ++ s`, where `line` has no line break. -/
def splitLinesFrom : Str → Str → List Str
  | line, [] => if line = [] then [] else [line]
  | line, [c] => if isLineBreak c then [line] else [line ++ [c]]
  | line, c :: d :: s =>
    if isLineBreak c then
      -- "\r\n" is one line break
      line :: if c = cp '\r' ∧ d = newline then splitLinesFrom [] s else splitLinesFrom [] (d :: s)
    else splitLinesFrom (line ++ [c]) (d :: s)

/-- `s.splitlines()`. -/
def splitLines (s : Str) : List Str := splitLinesFrom [] s

/-- `"\n".join(lines) + "\n"`. -/
def unlines (lines : List Str) : Str := [newline].intercalate lines ++ [newline]

/-- What stands before and after the first `sep` of a line: `line.partition(sep)`. -/
def partition (sep : CodePoint) (line : Str) : Str × Str :=
  (line.takeWhile (· ≠ sep), (line.dropWhile (· ≠ sep)).drop 1)

/-! ## Lines -/

theorem isLineBreak_newline : isLineBreak newline = true := by decide

/-- The text of the lines, one newline behind each. -/
theorem unlines_cons (line : Str) {lines : List Str} (hne : lines ≠ []) :
    unlines (line :: lines) = line ++ newline :: unlines lines := by
  obtain ⟨l, ls, rfl⟩ := List.exists_cons_of_ne_nil hne
  show [newline].intercalate (line :: l :: ls) ++ [newline] = _
  rw [List.intercalate_cons_cons]
  simp [unlines]

/-- A line break ends the line it stands behind. -/
theorem splitLinesFrom_append (line s rest : Str) (h : ∀ c ∈ s, isLineBreak c = false) :
    splitLinesFrom line (s ++ newline :: rest) = (line ++ s) :: splitLinesFrom [] rest := by
  induction s generalizing line with
  | nil =>
    cases rest with
    | nil => simp [splitLinesFrom, isLineBreak_newline]
    | cons d rest =>
      have hcr : ¬(newline = cp '\r' ∧ d = newline) := by
        rintro ⟨hnl, -⟩
        exact absurd hnl (by decide)
      rw [List.nil_append, splitLinesFrom, if_pos isLineBreak_newline, if_neg hcr, List.append_nil]
  | cons c s ih =>
    have hc : isLineBreak c = false := h c List.mem_cons_self
    have hs := ih (line ++ [c]) fun d hd => h d (List.mem_cons_of_mem _ hd)
    obtain ⟨d, more, hmore⟩ : ∃ d more, s ++ newline :: rest = d :: more :=
      List.exists_cons_of_ne_nil (by simp)
    rw [List.cons_append, hmore, splitLinesFrom, if_neg (by simp [hc]), ← hmore, hs,
      List.append_assoc, List.singleton_append]

/-- **Lines read back.** -/
theorem splitLines_unlines {lines : List Str} (hne : lines ≠ [])
    (h : ∀ line ∈ lines, ∀ c ∈ line, isLineBreak c = false) :
    splitLines (unlines lines) = lines := by
  induction lines with
  | nil => exact absurd rfl hne
  | cons line lines ih =>
    have hline : ∀ c ∈ line, isLineBreak c = false := h line List.mem_cons_self
    unfold splitLines
    by_cases hlast : lines = []
    · -- the last line has nothing behind its newline
      subst hlast
      show splitLinesFrom [] ([newline].intercalate [line] ++ [newline]) = [line]
      rw [List.intercalate_singleton, splitLinesFrom_append _ _ _ hline]
      rfl
    · rw [unlines_cons line hlast, splitLinesFrom_append _ _ _ hline, List.nil_append]
      congr 1
      exact ih hlast fun l hl => h l (List.mem_cons_of_mem _ hl)

/-- What is put together around a separator comes apart there. -/
theorem partition_append {sep : CodePoint} {key value : Str} (h : sep ∉ key) :
    partition sep (key ++ sep :: value) = (key, value) := by
  have hkey : ∀ c ∈ key, decide (c ≠ sep) = true := by
    intro c hc
    exact decide_eq_true fun heq => h (heq ▸ hc)
  have htake : (key ++ sep :: value).takeWhile (· ≠ sep) = key := by
    rw [List.takeWhile_append_of_pos hkey]
    simp
  have hdrop : (key ++ sep :: value).dropWhile (· ≠ sep) = sep :: value := by
    rw [List.dropWhile_append_of_pos hkey]
    simp
  unfold partition
  rw [htake, hdrop]
  rfl

end SecurityAudit
