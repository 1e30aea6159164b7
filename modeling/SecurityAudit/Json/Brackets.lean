import SecurityAudit.Json.Reading

/-!
# How a document nests

Read a text left to right, minding string literals, and count brackets: an opening one adds a
level and a closing one takes it away (`depth`). What a scanner reads ends on the level it began
on and never goes below it (`Reads`). So no end of an object that begins on a line of its own is
an object: its last brace would be the outer one's, one level up (`loads_after_newline`).
-/

namespace SecurityAudit

namespace JVal

/-- Where the reading is: between tokens, in a string literal, or behind a backslash in one. -/
inductive Mode where
  | outside
  | literal
  | escape

/-- After one more character. No literal goes past the end of a line. -/
def Mode.next (m : Mode) (c : CodePoint) : Mode :=
  if c = cp '\n' then .outside
  else match m with
    | .outside => if c = cp '"' then .literal else .outside
    | .literal => if c = cp '"' then .outside else if c = cp '\\' then .escape else .literal
    | .escape => .literal

/-- What one character adds to the level. -/
def Mode.nesting (m : Mode) (c : CodePoint) : ℤ :=
  match m with
  | .outside =>
    if c = cp '{' ∨ c = cp '[' then 1 else if c = cp '}' ∨ c = cp ']' then -1 else 0
  | _ => 0

/-- Where the reading is after a text. -/
def modeAfter (m : Mode) (s : Str) : Mode := s.foldl Mode.next m

/-- What a text adds to the level. -/
def depth : Mode → Str → ℤ
  | _, [] => 0
  | m, c :: s => m.nesting c + depth (m.next c) s

variable {m m' m'' : Mode} {a b s t rest : Str} {c : CodePoint}

theorem modeAfter_append : modeAfter m (a ++ b) = modeAfter (modeAfter m a) b := List.foldl_append

theorem depth_append : depth m (a ++ b) = depth m a + depth (modeAfter m a) b := by
  induction a generalizing m with
  | nil => simp [depth, modeAfter]
  | cons c a ih =>
    show m.nesting c + depth (m.next c) (a ++ b) = m.nesting c + depth (m.next c) a + _
    rw [ih, add_assoc]
    rfl

/-- A new line is outside of any literal. -/
theorem modeAfter_newline : modeAfter m (a ++ [cp '\n']) = .outside := by
  rw [modeAfter_append]
  simp [modeAfter, Mode.next]

/-- `s` leads from `m` to `m'` on the level it began on, and nowhere below. -/
structure Passes (m : Mode) (s : Str) (m' : Mode) : Prop where
  after : modeAfter m s = m'
  level : depth m s = 0
  above : ∀ p q, s = p ++ q → 0 ≤ depth m p

theorem Passes.nil : Passes m [] m := by
  refine ⟨rfl, rfl, fun p q h => ?_⟩
  rw [List.append_eq_nil_iff.mp h.symm |>.1]
  exact le_refl _

theorem Passes.append (ha : Passes m a m') (hb : Passes m' b m'') : Passes m (a ++ b) m'' := by
  refine ⟨by rw [modeAfter_append, ha.after, hb.after], ?_, fun p q h => ?_⟩
  · rw [depth_append, ha.level, ha.after, hb.level, add_zero]
  · rcases List.append_eq_append_iff.mp h with ⟨b', rfl, hb'⟩ | ⟨a', ha', -⟩
    · rw [depth_append, ha.level, ha.after, zero_add]
      exact hb.above b' q hb'
    · exact ha.above p a' ha'

/-- A character that is no bracket between tokens. -/
theorem Passes.cons (hc : m.nesting c = 0) (hs : Passes (m.next c) s m') :
    Passes m (c :: s) m' := by
  refine ⟨hs.after, ?_, fun p q h => ?_⟩
  · rw [depth, hc, hs.level, add_zero]
  · cases p with
    | nil => exact le_refl _
    | cons d p =>
      obtain ⟨rfl, hpq⟩ := List.cons.inj h
      rw [depth, hc, zero_add]
      exact hs.above p q hpq

/-- A text between brackets. -/
theorem Passes.enclose {o k : CodePoint} (ho : o = cp '{' ∨ o = cp '[')
    (hk : k = cp '}' ∨ k = cp ']') (hs : Passes .outside s .outside) :
    Passes .outside (o :: (s ++ [k])) .outside := by
  have hopen : Mode.outside.nesting o = 1 ∧ Mode.outside.next o = .outside := by
    rcases ho with rfl | rfl <;> exact ⟨by decide, rfl⟩
  have hclose : Mode.outside.nesting k = -1 ∧ Mode.outside.next k = .outside := by
    rcases hk with rfl | rfl <;> exact ⟨by decide, rfl⟩
  have hinner : depth .outside (s ++ [k]) = -1 := by
    rw [depth_append, hs.level, hs.after, depth, hclose.1, depth]
    rfl
  refine ⟨?_, ?_, fun p q h => ?_⟩
  · show modeAfter (Mode.outside.next o) (s ++ [k]) = .outside
    rw [hopen.2, modeAfter_append, hs.after]
    exact hclose.2
  · rw [depth, hopen.1, hopen.2, hinner]
    rfl
  · cases p with
    | nil => exact le_refl _
    | cons d p =>
      obtain ⟨rfl, hpq⟩ := List.cons.inj h
      rw [depth, hopen.1, hopen.2]
      -- the closing bracket gives back what the opening one took
      rcases List.append_eq_append_iff.mp hpq with ⟨k', rfl, hk'⟩ | ⟨s', hs', -⟩
      · rcases List.cons_eq_append_iff.mp hk' with ⟨rfl, -⟩ | ⟨k'', rfl, hk''⟩
        · rw [List.append_nil, hs.level]
          decide
        · rw [(List.append_eq_nil_iff.mp hk''.symm).1, hinner]
          decide
      · have := hs.above p s' hs'
        omega

/-- A character that means nothing between tokens. -/
def Neutral (c : CodePoint) : Prop :=
  c ≠ cp '"' ∧ c ≠ cp '{' ∧ c ≠ cp '[' ∧ c ≠ cp '}' ∧ c ≠ cp ']'

instance : Decidable (Neutral c) := inferInstanceAs (Decidable (_ ∧ _))

theorem Passes.neutral (h : ∀ c ∈ s, Neutral c) : Passes .outside s .outside := by
  induction s with
  | nil => exact .nil
  | cons c s ih =>
    obtain ⟨hquote, hbrace, hbracket, hbrace', hbracket'⟩ := h c (by simp)
    have hnext : Mode.outside.next c = .outside := by simp [Mode.next, hquote]
    refine .cons (by simp [Mode.nesting, hbrace, hbracket, hbrace', hbracket']) ?_
    rw [hnext]
    exact ih fun d hd => h d (by simp [hd])

/-! ## What the scanners read -/

/-- What was read of `s`, up to `rest`, began and ended between tokens, on one level. -/
def Reads (s rest : Str) : Prop := ∃ a, s = a ++ rest ∧ Passes .outside a .outside

theorem Reads.trans (h : Reads s t) (h' : Reads t rest) : Reads s rest := by
  obtain ⟨a, rfl, ha⟩ := h
  obtain ⟨b, rfl, hb⟩ := h'
  exact ⟨a ++ b, (List.append_assoc _ _ _).symm, ha.append hb⟩

theorem Reads.neutral (rest : Str) (h : ∀ c ∈ a, Neutral c) : Reads (a ++ rest) rest :=
  ⟨a, rfl, .neutral h⟩

theorem Reads.enclose {o k : CodePoint} (ho : o = cp '{' ∨ o = cp '[') (hk : k = cp '}' ∨ k = cp ']')
    (h : Reads s (k :: rest)) : Reads (o :: s) rest := by
  obtain ⟨a, rfl, ha⟩ := h
  exact ⟨o :: (a ++ [k]), by simp, .enclose ho hk ha⟩

theorem neutral_of_isWs (h : isWs c = true) : Neutral c := by
  rcases of_decide_eq_true h with rfl | rfl | rfl | rfl <;> decide

theorem neutral_of_isDigit (h : isDigit c = true) : Neutral c := by
  have hdigit := of_decide_eq_true h
  refine ⟨?_, ?_, ?_, ?_, ?_⟩ <;> rintro rfl <;> revert hdigit <;> decide

theorem reads_skipWs (s : Str) : Reads s (skipWs s) := by
  have h := Reads.neutral (a := s.takeWhile isWs) (skipWs s)
    fun c hc => neutral_of_isWs (List.mem_takeWhile_imp hc)
  rwa [skipWs, List.takeWhile_append_dropWhile] at h

theorem reads_dropWhile_isDigit (s : Str) : Reads s (s.dropWhile isDigit) := by
  have h := Reads.neutral (a := s.takeWhile isDigit) (s.dropWhile isDigit)
    fun c hc => neutral_of_isDigit (List.mem_takeWhile_imp hc)
  rwa [List.takeWhile_append_dropWhile] at h

theorem Reads.refl (s : Str) : Reads s s := ⟨[], rfl, .nil⟩

theorem Reads.cons (hc : Neutral c) (h : Reads s rest) : Reads (c :: s) rest :=
  (Reads.neutral (a := [c]) _ (by simpa using hc)).trans h

/-- In a literal nothing counts. -/
theorem Passes.literal_cons (hm : m ≠ .outside) (hs : Passes (m.next c) s m') :
    Passes m (c :: s) m' := by
  refine .cons ?_ hs
  cases m with
  | outside => exact absurd rfl hm
  | literal => rfl
  | escape => rfl

theorem next_literal (hnewline : c ≠ cp '\n') (hquote : c ≠ cp '"') (hslash : c ≠ cp '\\') :
    Mode.literal.next c = .literal := by
  simp [Mode.next, hnewline, hquote, hslash]

theorem next_escape (h : c ≠ cp '\n') : Mode.escape.next c = .literal := by simp [Mode.next, h]

theorem next_literal_of_hexVal? {n : ℕ} (h : hexVal? c = some n) :
    Mode.literal.next c = .literal := by
  have hsome : (hexVal? c).isSome = true := by rw [h]; rfl
  refine next_literal ?_ ?_ ?_ <;> rintro rfl <;> revert hsome <;> decide

theorem hex4?_eq_some {c₁ c₂ c₃ c₄ p : CodePoint} (h : hex4? c₁ c₂ c₃ c₄ = some p) :
    ∀ c ∈ [c₁, c₂, c₃, c₄], ∃ n, hexVal? c = some n := by
  unfold hex4? at h
  split at h
  · next h₁ h₂ h₃ h₄ => simp [h₁, h₂, h₃, h₄]
  · cases h

theorem ne_newline_of_simpleEscape? {p : CodePoint} (h : simpleEscape? c = some p) :
    c ≠ cp '\n' := by
  have hsome : (simpleEscape? c).isSome = true := by rw [h]; rfl
  rintro rfl
  revert hsome
  decide

/-- A literal, from behind its opening quote. -/
theorem scanUnits_reads {us : List LitUnit} (h : scanUnits s = .ok (us, rest)) :
    ∃ a, s = a ++ rest ∧ Passes .literal a .outside := by
  have hlit : Mode.literal ≠ .outside := nofun
  have hesc : Mode.escape ≠ .outside := nofun
  induction s using scanUnits.induct generalizing us rest with
  | case1 => simp [scanUnits] at h
  | case2 t =>
    rw [scanUnits.eq_def] at h
    simp only [if_true] at h
    cases h
    exact ⟨[cp '"'], rfl, .literal_cons hlit .nil⟩
  | case3 hq => simp [scanUnits.eq_def, hq] at h
  | case4 h₁ h₂ h₃ h₄ t hhex hq => simp [scanUnits.eq_def, hq, hhex] at h
  | case5 h₁ h₂ h₃ h₄ t p hhex hq ih =>
    rw [scanUnits.eq_def] at h
    simp only [if_neg hq, if_true, hhex] at h
    obtain ⟨⟨us', rest'⟩, hscan, heq⟩ := ok_map h
    cases heq
    obtain ⟨a, rfl, ha⟩ := ih hscan
    refine ⟨cp '\\' :: cp 'u' :: h₁ :: h₂ :: h₃ :: h₄ :: a, rfl, ?_⟩
    have hnext : ∀ c ∈ [h₁, h₂, h₃, h₄], Mode.literal.next c = .literal := by
      intro c hc
      obtain ⟨_, hn⟩ := hex4?_eq_some hhex c hc
      exact next_literal_of_hexVal? hn
    refine .literal_cons hlit (.literal_cons hesc ?_)
    show Passes .literal (h₁ :: h₂ :: h₃ :: h₄ :: a) .outside
    refine .literal_cons hlit ?_
    rw [hnext h₁ (by simp)]
    refine .literal_cons hlit ?_
    rw [hnext h₂ (by simp)]
    refine .literal_cons hlit ?_
    rw [hnext h₃ (by simp)]
    refine .literal_cons hlit ?_
    rwa [hnext h₄ (by simp)]
  | case6 t ht hq =>
    rw [scanUnits.eq_def] at h
    simp only [if_neg hq, if_true] at h
    cases h
  | case7 e t he hp hq => simp [scanUnits.eq_def, hq, he, hp] at h
  | case8 e t he p hp hq ih =>
    rw [scanUnits.eq_def] at h
    simp only [if_neg hq, if_true, if_neg he, hp] at h
    obtain ⟨⟨us', rest'⟩, hscan, heq⟩ := ok_map h
    cases heq
    obtain ⟨a, rfl, ha⟩ := ih hscan
    refine ⟨cp '\\' :: e :: a, rfl, .literal_cons hlit (.literal_cons hesc ?_)⟩
    show Passes (Mode.escape.next e) a .outside
    rwa [next_escape (ne_newline_of_simpleEscape? hp)]
  | case9 c t h₁ h₂ h₃ => simp [scanUnits.eq_def, h₁, h₂, h₃] at h
  | case10 c t h₁ h₂ h₃ ih =>
    rw [scanUnits.eq_def] at h
    simp only [if_neg h₁, if_neg h₂, if_neg h₃] at h
    obtain ⟨⟨us', rest'⟩, hscan, heq⟩ := ok_map h
    cases heq
    obtain ⟨a, rfl, ha⟩ := ih hscan
    refine ⟨c :: a, rfl, .literal_cons hlit ?_⟩
    have hnewline : c ≠ cp '\n' := by
      rintro rfl
      exact h₃ (by decide)
    rwa [next_literal hnewline h₁ h₂]

/-- A literal with its quotes. -/
theorem scanString_reads {key : Str} (h : scanString s = .ok (key, rest)) :
    Reads (cp '"' :: s) rest := by
  obtain ⟨⟨us, rest'⟩, hscan, heq⟩ := ok_map h
  cases heq
  obtain ⟨a, rfl, ha⟩ := scanUnits_reads hscan
  exact ⟨cp '"' :: a, rfl, .cons (by decide) ha⟩

theorem literal?_reads {v : JVal} (h : literal? s = some (v, rest)) : Reads s rest := by
  obtain ⟨⟨name, w⟩, hmem, hl⟩ := List.exists_of_findSome?_eq_some h
  obtain ⟨rest', hrest, heq⟩ := Option.map_eq_some_iff.mp hl
  cases heq
  rw [afterPrefix?_eq hrest]
  have hname : name.all (fun c => decide (Neutral c)) = true := by
    simp only [literals, List.mem_cons, List.not_mem_nil, or_false, Prod.mk.injEq] at hmem
    rcases hmem with ⟨rfl, -⟩ | ⟨rfl, -⟩ | ⟨rfl, -⟩ | ⟨rfl, -⟩ | ⟨rfl, -⟩ | ⟨rfl, -⟩ <;>
      decide
  exact .neutral _ fun c hc => of_decide_eq_true (List.all_eq_true.mp hname c hc)

theorem scanFrac_reads (s : Str) : Reads s (scanFrac s).2 := by
  match s with
  | [] => exact .refl _
  | [_] => exact .refl _
  | p :: c :: s =>
    rw [scanFrac]
    split_ifs with h
    · rw [h.1]
      exact .cons (by decide) (.cons (neutral_of_isDigit h.2) (reads_dropWhile_isDigit s))
    · exact .refl _

theorem scanSign_reads (s : Str) : Reads s (scanSign s).2 := by
  cases s with
  | nil => exact .refl _
  | cons c s =>
    rw [scanSign]
    split_ifs with hminus hplus
    · exact .cons (by rw [hminus]; decide) (.refl _)
    · exact .cons (by rw [hplus]; decide) (.refl _)
    · exact .refl _

theorem scanExp_reads (s : Str) : Reads s (scanExp s).2 := by
  cases s with
  | nil => exact .refl _
  | cons c s =>
    rw [scanExp]
    split
    · next hc =>
      dsimp only
      split
      · exact .refl _
      · have hneutral : Neutral c := by rcases hc with rfl | rfl <;> decide
        exact .cons hneutral ((scanSign_reads s).trans (reads_dropWhile_isDigit _))
    · exact .refl _

theorem scanNumber_reads {v : JVal} (h : scanNumber s = .ok (v, rest)) : Reads s rest := by
  unfold scanNumber at h
  dsimp only at h
  have hbody : Reads s (if decide (s.head? = some (cp '-')) = true then s.tail else s) := by
    split
    · next hminus =>
      obtain ⟨t, rfl⟩ := List.head?_eq_some_iff.mp (of_decide_eq_true hminus)
      exact .cons (by decide) (.refl t)
    · exact .refl s
  refine hbody.trans ?_
  revert h
  generalize (if decide (s.head? = some (cp '-')) = true then s.tail else s) = body
  intro h
  split at h
  · cases h
  · next ip r₁ hint =>
    obtain ⟨rfl, -, hds⟩ := scanInt_spec hint
    refine (Reads.neutral _ fun c hc => neutral_of_isDigit (hds c hc)).trans ?_
    refine (scanFrac_reads r₁).trans ?_
    split at h
    · split at h
      · cases h
        exact scanExp_reads _
      · cases h
    · cases h
      exact scanExp_reads _

theorem scanAtom_reads {v : JVal} (h : scanAtom s = .ok (v, rest)) : Reads s rest := by
  unfold scanAtom at h
  split at h
  · next hl =>
    cases h
    exact literal?_reads hl
  · exact scanNumber_reads h

/-- No constant and no number is an object. -/
theorem scanAtom_ne_obj {kvs : List (Str × JVal)} : scanAtom s ≠ .ok (.obj kvs, rest) := by
  intro h
  unfold scanAtom at h
  split at h
  · next hl =>
    cases h
    obtain ⟨⟨name, w⟩, hmem, hl⟩ := List.exists_of_findSome?_eq_some hl
    obtain ⟨rest', -, heq⟩ := Option.map_eq_some_iff.mp hl
    cases heq
    simp [literals] at hmem
  · unfold scanNumber at h
    dsimp only at h
    split at h
    · cases h
    · split at h
      · split at h <;> cases h
      · cases h

/-- Up to the closing bracket, or past the comma. -/
theorem scanAfter_reads {stop : CodePoint} {after : After} (h : scanAfter stop s = .ok after) :
    (∀ rest, after = .close rest → Reads s (stop :: rest)) ∧
      ∀ rest, after = .comma rest → Reads s rest := by
  unfold scanAfter at h
  have hskip := reads_skipWs s
  split at h
  · cases h
  · next c t hct =>
    rw [hct] at hskip
    split_ifs at h with hstop hcomma
    · cases h
      refine ⟨fun rest h => ?_, fun rest h => by cases h⟩
      cases h
      rwa [← hstop]
    · cases h
      refine ⟨fun rest h => (by cases h), fun rest h => ?_⟩
      cases h
      rw [hcomma] at hskip
      exact hskip.trans (.cons (by decide) (reads_skipWs t))

theorem scanKey_reads {key : Str} (h : scanKey s = .ok (key, rest)) : Reads s rest := by
  cases s with
  | nil => cases h
  | cons c s =>
    rw [scanKey] at h
    split_ifs at h with hquote
    split at h
    · cases h
    · next key' t hstr =>
      have hkey := scanString_reads hstr
      have hskip := reads_skipWs t
      split at h
      · cases h
      · next d t' ht =>
        split_ifs at h with hcolon
        cases h
        rw [ht, hcolon] at hskip
        rw [hquote]
        exact (hkey.trans hskip).trans (.cons (by decide) (reads_skipWs t'))

/-- One level of the scanner, for the induction on the fuel. -/
structure ReadsSpec (fuel : ℕ) : Prop where
  value : ∀ {s v rest}, scanValue fuel s = .ok (v, rest) → Reads s rest
  elements : ∀ {s xs rest}, scanElements fuel s = .ok (xs, rest) → Reads s (cp ']' :: rest)
  members : ∀ {s kvs rest}, scanMembers fuel s = .ok (kvs, rest) → Reads s (cp '}' :: rest)

/-- The inside of an object. -/
theorem scanValue_obj {fuel : ℕ} (ih : ReadsSpec fuel) {v : JVal}
    (h : scanValue (fuel + 1) (cp '{' :: s) = .ok (v, rest)) : Reads s (cp '}' :: rest) := by
  have hskip := reads_skipWs s
  rw [scanValue] at h
  have hquote : cp '{' ≠ cp '"' := by decide
  simp only [if_neg hquote, if_true] at h
  split at h
  · cases h
  · next d t hdt =>
    rw [hdt] at hskip
    split_ifs at h with hclose
    · cases h
      rwa [hclose] at hskip
    · obtain ⟨⟨kvs, rest'⟩, hmem, heq⟩ := ok_map h
      cases heq
      exact hskip.trans (ih.members hmem)

/-- The inside of a list. -/
theorem scanValue_arr {fuel : ℕ} (ih : ReadsSpec fuel) {v : JVal}
    (h : scanValue (fuel + 1) (cp '[' :: s) = .ok (v, rest)) : Reads s (cp ']' :: rest) := by
  have hskip := reads_skipWs s
  rw [scanValue] at h
  have hquote : cp '[' ≠ cp '"' := by decide
  have hbrace : cp '[' ≠ cp '{' := by decide
  simp only [if_neg hquote, if_neg hbrace, if_true] at h
  split at h
  · cases h
  · next d t hdt =>
    rw [hdt] at hskip
    split_ifs at h with hclose
    · cases h
      rwa [hclose] at hskip
    · obtain ⟨⟨xs, rest'⟩, helem, heq⟩ := ok_map h
      cases heq
      exact hskip.trans (ih.elements helem)

theorem readsSpec (fuel : ℕ) : ReadsSpec fuel := by
  induction fuel with
  | zero => exact ⟨by simp [scanValue], by simp [scanElements], by simp [scanMembers]⟩
  | succ fuel ih =>
    refine ⟨?_, ?_, ?_⟩
    · intro s v rest h
      cases s with
      | nil => cases h
      | cons c s =>
        by_cases hquote : c = cp '"'
        · rw [scanValue, if_pos hquote] at h
          obtain ⟨⟨t, rest'⟩, hstr, heq⟩ := ok_map h
          cases heq
          rw [hquote]
          exact scanString_reads hstr
        by_cases hbrace : c = cp '{'
        · rw [hbrace] at h ⊢
          exact .enclose (.inl rfl) (.inl rfl) (scanValue_obj ih h)
        by_cases hbracket : c = cp '['
        · rw [hbracket] at h ⊢
          exact .enclose (.inr rfl) (.inr rfl) (scanValue_arr ih h)
        rw [scanValue, if_neg hquote, if_neg hbrace, if_neg hbracket] at h
        exact scanAtom_reads h
    · intro s xs rest h
      rw [scanElements] at h
      split at h
      · cases h
      · next v r₁ hv =>
        have hvalue := ih.value hv
        split at h
        · cases h
        · next r₂ hafter =>
          cases h
          exact hvalue.trans ((scanAfter_reads hafter).1 _ rfl)
        · next r₂ hafter =>
          obtain ⟨⟨ys, r₃⟩, hys, heq⟩ := ok_map h
          cases heq
          exact (hvalue.trans ((scanAfter_reads hafter).2 _ rfl)).trans (ih.elements hys)
    · intro s kvs rest h
      rw [scanMembers] at h
      split at h
      · cases h
      · next key r₀ hkey =>
        split at h
        · cases h
        · next v r₁ hv =>
          have hvalue := (scanKey_reads hkey).trans (ih.value hv)
          split at h
          · cases h
          · next r₂ hafter =>
            cases h
            exact hvalue.trans ((scanAfter_reads hafter).1 _ rfl)
          · next r₂ hafter =>
            obtain ⟨⟨ys, r₃⟩, hys, heq⟩ := ok_map h
            cases heq
            exact (hvalue.trans ((scanAfter_reads hafter).2 _ rfl)).trans (ih.members hys)

/-- The text of an object: its braces with white space around them. -/
theorem loads_obj {kvs : List (Str × JVal)} (h : loads s = .ok (.obj kvs)) :
    ∃ inner rest, skipWs s = cp '{' :: (inner ++ cp '}' :: rest) ∧
      Passes .outside inner .outside ∧ ∀ c ∈ rest, isWs c = true := by
  unfold loads at h
  split_ifs at h
  split at h
  · cases h
  · next v rest hscan =>
    split_ifs at h with hrest
    cases h
    unfold scanFuel at hscan
    cases hs : skipWs s with
    | nil =>
      rw [hs] at hscan
      cases hscan
    | cons c t =>
      rw [hs] at hscan
      by_cases hbrace : c = cp '{'
      · subst hbrace
        obtain ⟨inner, rfl, hinner⟩ := scanValue_obj (readsSpec _) hscan
        exact ⟨inner, rest, rfl, hinner, by simpa [skipWs] using hrest⟩
      · rw [scanValue, if_neg hbrace] at hscan
        split_ifs at hscan with hquote hbracket
        · obtain ⟨_, -, heq⟩ := ok_map hscan
          cases heq
        · split at hscan
          · cases hscan
          · split_ifs at hscan
            · cases hscan
            · obtain ⟨_, -, heq⟩ := ok_map hscan
              cases heq
        · exact absurd hscan scanAtom_ne_obj

/-- What follows the last `k` is determined. -/
theorem append_cons_inj_of_not_mem {k : CodePoint} {a b s t : Str} (hs : k ∉ s) (ht : k ∉ t)
    (h : a ++ k :: s = b ++ k :: t) : a = b := by
  rcases List.append_eq_append_iff.mp h with ⟨x, rfl, hx⟩ | ⟨x, rfl, hx⟩
  · rcases List.cons_eq_append_iff.mp hx with ⟨rfl, -⟩ | ⟨y, -, rfl⟩
    · simp
    · simp at hs
  · rcases List.cons_eq_append_iff.mp hx with ⟨rfl, -⟩ | ⟨y, -, rfl⟩
    · simp
    · simp at ht

theorem skipWs_append_of_not (h : ¬∀ c ∈ a, isWs c = true) : skipWs (a ++ b) = skipWs a ++ b := by
  have hne : ¬(skipWs a).isEmpty = true := by
    rwa [List.isEmpty_iff, skipWs, List.dropWhile_eq_nil_iff]
  rw [skipWs, List.dropWhile_append]
  exact if_neg hne

theorem skipWs_append_of_all (h : ∀ c ∈ a, isWs c = true) : skipWs (a ++ b) = skipWs b :=
  List.dropWhile_append_of_pos h

/-- Between tokens and in white space the reading stays there. -/
theorem modeAfter_neutral (h : ∀ c ∈ s, Neutral c) : modeAfter .outside s = .outside :=
  (Passes.neutral h).after

/-- A brace opened on a new line is closed before the last brace of the object around it. -/
theorem not_passes_newline {y w inner' : Str} (hw : ∀ c ∈ w, isWs c = true)
    (hinner' : Passes .outside inner' .outside) :
    ¬Passes .outside (y ++ cp '\n' :: w ++ cp '{' :: inner') .outside := by
  intro h
  have hmode : modeAfter .outside (y ++ cp '\n' :: w) = .outside := by
    rw [List.append_cons, modeAfter_append, modeAfter_newline]
    exact modeAfter_neutral fun c hc => neutral_of_isWs (hw c hc)
  have hopen : depth .outside (cp '{' :: inner') = 1 := by
    show Mode.outside.nesting (cp '{') + depth .outside inner' = 1
    rw [hinner'.level]
    decide
  have hlevel := h.level
  rw [depth_append, hmode, hopen] at hlevel
  have habove := h.above (y ++ cp '\n' :: w) _ rfl
  omega

/-- An object that is the rest of an object's text from a new line on is all of it. -/
theorem loads_after_newline {kvs kvs' : List (Str × JVal)}
    (h : loads (a ++ cp '\n' :: b) = .ok (.obj kvs)) (h' : loads b = .ok (.obj kvs')) :
    kvs = kvs' := by
  by_cases hws : ∀ c ∈ a, isWs c = true
  · -- only white space is in front
    have hline : ∀ c ∈ [cp '\n'], isWs c = true := by simp [isWs]
    have hskip : skipWs (a ++ cp '\n' :: b) = skipWs b := by
      rw [skipWs_append_of_all hws]
      exact skipWs_append_of_all hline
    have hfuel : scanFuel b ≤ scanFuel (a ++ cp '\n' :: b) := by
      unfold scanFuel
      simp only [List.length_append, List.length_cons]
      omega
    unfold loads at h h'
    split_ifs at h h'
    rw [hskip, ← scanValue_fuel hfuel] at h
    exact JVal.obj.inj (Except.ok.inj (h.symm.trans h'))
  · exfalso
    obtain ⟨inner, rest, hs, hinner, hrest⟩ := loads_obj h
    obtain ⟨inner', rest', hs', hinner', hrest'⟩ := loads_obj h'
    rw [skipWs_append_of_not hws] at hs
    cases ha : skipWs a with
    | nil => exact hws (List.dropWhile_eq_nil_iff.mp ha)
    | cons c y =>
      rw [ha] at hs
      obtain ⟨-, hs⟩ := List.cons.inj hs
      have hb : b = b.takeWhile isWs ++ (cp '{' :: inner') ++ cp '}' :: rest' := by
        rw [List.append_assoc, List.cons_append, ← hs', skipWs, List.takeWhile_append_dropWhile]
      have hbrace : ∀ r : Str, (∀ c ∈ r, isWs c = true) → cp '}' ∉ r := by
        intro r hr hmem
        have := hr _ hmem
        revert this
        decide
      -- the last brace of the inner object is the last brace of the outer one
      have hall : y ++ cp '\n' :: b.takeWhile isWs ++ cp '{' :: inner' = inner := by
        refine append_cons_inj_of_not_mem (hbrace _ hrest') (hbrace _ hrest) ?_
        rw [← hs]
        conv_rhs => rw [hb]
        simp
      rw [← hall] at hinner
      exact not_passes_newline (fun c hc => List.mem_takeWhile_imp hc) hinner' hinner

end JVal

end SecurityAudit
