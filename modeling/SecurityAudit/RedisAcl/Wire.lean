import SecurityAudit.RedisAcl.Commands

/-!
# The gate's reading and the wire's

A command that the server recognises on the wire is the command the gate judged
(`gate_of_begins`), as long as the first argument, stripped, has no whitespace inside. A word
the server recognises is visible ASCII, so it is read alike as bytes and as text, stripping does
not change it, and upper-casing it is what the server does to compare it; and the words that
stripping takes off the first argument are whitespace, which the server does not recognise.

With whitespace inside, the gate sees one name that nothing is called, and redis-py sends two
words. That is the only way past the denylist (`disposable_gate_iff`).
-/

namespace SecurityAudit

namespace RedisAcl

variable {U : Unicode}

/-! ## Words the server recognises -/

section

variable {w : List (Fin 256)} {s name : Str} (hname : name.all isVisible = true)
  (hspells : Spells w name)
include hname hspells

/-- A word that spells a visible name is ASCII. -/
theorem Spells.ascii {b : Fin 256} (hb : b ∈ w) : 33 ≤ b.val ∧ b.val ≤ 126 := by
  have hmem : (if 97 ≤ b.val ∧ b.val ≤ 122 then b.val - 32 else b.val) ∈ name.map Fin.val := by
    rw [← hspells]
    exact List.mem_map_of_mem hb
  obtain ⟨c, hc, hval⟩ := List.mem_map.mp hmem
  have hvisible : 33 ≤ c.val ∧ c.val ≤ 126 := by
    simpa [isVisible] using List.all_eq_true.mp hname c hc
  split_ifs at hval <;> omega

/-- So it is read as visible text. -/
theorem Spells.visible (h : Reads w s) {c : CodePoint} (hc : c ∈ s) : isVisible c = true := by
  have hval := h.eq_of_ascii fun b hb => by
    have := hspells.ascii hname hb
    omega
  have hmem : c.val ∈ w.map Fin.val := hval ▸ List.mem_map_of_mem hc
  obtain ⟨b, hb, hbc⟩ := List.mem_map.mp hmem
  have := hspells.ascii hname hb
  simp only [isVisible, decide_eq_true_eq]
  omega

/-- And upper-cased it is the name. -/
theorem Spells.upper (h : Reads w s) : U.upperText s = name := by
  have hval := h.eq_of_ascii fun b hb => by
    have := hspells.ascii hname hb
    omega
  have hmap : U.upperText s = s.map asciiUpper := by
    rw [Unicode.upperText, ← List.flatMap_singleton' (s.map asciiUpper), List.flatMap_map]
    refine List.flatMap_congr fun c hc => U.upper_ascii c ?_
    have := hspells.visible hname h hc
    simp only [isVisible, decide_eq_true_eq] at this
    omega
  rw [hmap]
  apply List.map_injective_iff.mpr Fin.val_injective
  show (s.map asciiUpper).map Fin.val = name.map Fin.val
  rw [← hspells]
  have hfun : ∀ c : CodePoint, (asciiUpper c).val =
      if 97 ≤ c.val ∧ c.val ≤ 122 then c.val - 32 else c.val := by
    intro c
    unfold asciiUpper
    split_ifs <;> rfl
  rw [List.map_map]
  calc s.map (Fin.val ∘ asciiUpper)
      = (s.map Fin.val).map fun n => if 97 ≤ n ∧ n ≤ 122 then n - 32 else n := by
        rw [List.map_map]
        exact List.map_congr_left fun c _ => hfun c
    _ = w.map fun b => if 97 ≤ b.val ∧ b.val ≤ 122 then b.val - 32 else b.val := by
        rw [hval, List.map_map]
        rfl

end

/-- Visible characters are not whitespace. -/
theorem not_isSpace_of_isVisible {c : CodePoint} (h : isVisible c = true) : isSpace c = false := by
  simp only [isVisible, decide_eq_true_eq] at h
  simp only [isSpace, decide_eq_false_iff_not]
  omega

/-- A word of whitespace is not recognised. -/
theorem Spells.not_space {w : List (Fin 256)} {s name : Str} (hspells : Spells w name)
    (hname : name.all isVisible = true) (h : Reads w s) (hne : s ≠ []) :
    ¬∀ c ∈ s, isSpace c = true := by
  intro hspace
  obtain ⟨c, hc⟩ := List.exists_mem_of_ne_nil s hne
  have hvisible := hspells.visible hname h hc
  simpa [not_isSpace_of_isVisible hvisible] using hspace c hc

/-- Words that begin with a command begin with its name. -/
theorem Begins.head {ws : List (List (Fin 256))} {name : Str} {more : List Str}
    (h : Begins ws (name :: more)) : Begins ws [name] := by
  cases ws with
  | nil => cases h
  | cons w ws =>
    cases h with
    | cons hspells _ => exact .cons hspells .nil

theorem Spells.inj {w : List (Fin 256)} {a b : Str} (ha : Spells w a) (hb : Spells w b) :
    a = b :=
  List.map_injective_iff.mpr Fin.val_injective (ha.symm.trans hb)

/-- Words that begin with two commands: one of these begins the other. -/
theorem Begins.comparable {ws : List (List (Fin 256))} {a b : List Str} (ha : Begins ws a)
    (hb : Begins ws b) : a <+: b ∨ b <+: a := by
  induction ws generalizing a b with
  | nil =>
    cases a with
    | nil => exact .inl (List.nil_prefix)
    | cons name a => cases ha
  | cons w ws ih =>
    cases a with
    | nil => exact .inl (List.nil_prefix)
    | cons name a =>
      cases b with
      | nil => exact .inr (List.nil_prefix)
      | cons name' b =>
        cases ha with
        | cons hw ha =>
          cases hb with
          | cons hw' hb =>
            rw [hw.inj hw', List.cons_prefix_cons, List.cons_prefix_cons]
            simpa using ih ha hb

/-! ## The arguments on the wire -/

theorem Arg.reads {a : Arg} {b : List (Fin 256)} (h : a.wire = some b) : Reads b a.text := by
  cases a with
  | str s =>
    obtain ⟨u, hu, rfl⟩ := Option.map_eq_some_iff.mp h
    rw [show (Arg.str s).text = u.text from (encode?_text hu).symm]
    exact reads_utf8Bytes u.text
  | bytes b' =>
    cases h
    exact reads_decodeReplace b

theorem packCommand_eq_some {args : List Arg} {ws : List (List (Fin 256))} :
    packCommand args = some ws ↔ ∃ a rest first others, args = a :: rest ∧
      a.wire = some first ∧ rest.mapM Arg.wire = some others ∧
      ws = words (fun b => isAsciiSpace b.val) first ++ others := by
  cases args with
  | nil => simp [packCommand]
  | cons a rest =>
    constructor
    · intro h
      obtain ⟨first, hfirst, h⟩ := Option.bind_eq_some_iff.mp h
      obtain ⟨others, hothers, h⟩ := Option.bind_eq_some_iff.mp h
      exact ⟨a, rest, first, others, rfl, hfirst, hothers, (Option.some.inj h).symm⟩
    · rintro ⟨_, _, first, others, ⟨⟩, hfirst, hothers, rfl⟩
      simp [packCommand, hfirst, hothers]

/-- The words of the first argument, as bytes and as text. -/
theorem reads_words {b : List (Fin 256)} {s : Str} (h : Reads b s) :
    List.Forall₂ Reads (words (fun b => isAsciiSpace b.val) b)
      (words (fun c => isAsciiSpace c.val) s) := by
  have hascii : ∀ n, isAsciiSpace n = true → n < 0x80 := by
    intro n hn
    simp only [isAsciiSpace, decide_eq_true_eq] at hn
    omega
  exact h.words (fun x c hxc => by rw [hxc]) (fun x => hascii x.val) fun c => hascii c.val

/-- What the gate accepts has a name. -/
theorem normalizeCommand_eq_ok {args : List Arg} {cmd : List Str}
    (h : normalizeCommand U args = .ok cmd) : ∃ name parts, args.map (part U) = name :: parts ∧
      name ≠ [] ∧ cmd = match parts with
        | [] => [name]
        | sub :: _ => if name ∈ knownSubcommandPrefixes then [name, sub] else [name] := by
  unfold normalizeCommand at h
  split at h
  · cases h
  · cases h
  · next name hname hargs => exact ⟨name, [], hargs, hname, (Except.ok.inj h).symm⟩
  · next name sub parts hname hargs =>
    refine ⟨name, sub :: parts, hargs, hname, ?_⟩
    show cmd = if name ∈ knownSubcommandPrefixes then [name, sub] else [name]
    split_ifs at h ⊢ <;> exact (Except.ok.inj h).symm

/-- The words of a first argument without whitespace inside: one around its text, and words of
whitespace on either side. -/
theorem words_first {a : Arg} {first : List (Fin 256)} (hfirst : a.wire = some first)
    (hne : strip isSpace a.text ≠ [])
    (hinner : ∀ c ∈ strip isSpace a.text, isAsciiSpace c.val = false) :
    ∃ (A : List Str) (u v : Str) (C : List Str),
      List.Forall₂ Reads (words (fun b => isAsciiSpace b.val) first)
        (A ++ (u ++ strip isSpace a.text ++ v) :: C) ∧
      (∀ c ∈ u ++ v, isSpace c = true) ∧ ∀ w ∈ A ++ C, w ≠ [] ∧ ∀ c ∈ w, isSpace c = true := by
  obtain ⟨x, y, hsplit, hx, hy⟩ := exists_strip isSpace a.text
  obtain ⟨A, u, v, C, hwords, hu, hv, hA, hC⟩ := words_around hne hinner x y
  refine ⟨A, u, v, C, ?_, fun c hc => ?_, fun w hw => ?_⟩
  · rw [← hwords, ← hsplit]
    exact reads_words (Arg.reads hfirst)
  · rcases List.mem_append.mp hc with hc | hc
    · exact hx c (hu c hc)
    · exact hy c (hv c hc)
  · rcases List.mem_append.mp hw with hw | hw
    · exact ⟨(hA w hw).1, fun c hc => hx c ((hA w hw).2 c hc)⟩
    · exact ⟨(hC w hw).1, fun c hc => hy c ((hC w hw).2 c hc)⟩

/-- The word around the text of the first argument, if the server recognises it. -/
theorem part_of_first {a : Arg} {w : List (Fin 256)} {u v name : Str}
    (hw : Reads w (u ++ strip isSpace a.text ++ v)) (hspace : ∀ c ∈ u ++ v, isSpace c = true)
    (hname : name.all isVisible = true) (hspells : Spells w name) : part U a = name := by
  have hnospace : ∀ c ∈ u ++ strip isSpace a.text ++ v, isSpace c = false :=
    fun c hc => not_isSpace_of_isVisible (hspells.visible hname hw hc)
  have huv : u ++ v = [] := List.eq_nil_iff_forall_not_mem.mpr fun c hc => by
    have hc' : c ∈ u ++ strip isSpace a.text ++ v := by
      rcases List.mem_append.mp hc with hc | hc <;> simp [hc]
    simpa [hspace c hc] using hnospace c hc'
  rw [(List.append_eq_nil_iff.mp huv).1, (List.append_eq_nil_iff.mp huv).2, List.nil_append,
    List.append_nil] at hw
  exact hspells.upper hname hw

/-- A later argument, if the server recognises it. -/
theorem part_of_other {a : Arg} {w : List (Fin 256)} {name : Str} (hw : a.wire = some w)
    (hname : name.all isVisible = true) (hspells : Spells w name) : part U a = name := by
  have hreads := Arg.reads hw
  rw [part, strip_eq_self fun c hc =>
    not_isSpace_of_isVisible (hspells.visible hname hreads hc)]
  exact hspells.upper hname hreads

/-- **The simulation.** What the server recognises on the wire is what the gate looked at. -/
theorem gate_of_begins {a : Arg} {rest : List Arg} {ws : List (List (Fin 256))} {cmd : List Str}
    (hpack : packCommand (a :: rest) = some ws) (hne : strip isSpace a.text ≠ [])
    (hinner : ∀ c ∈ strip isSpace a.text, isAsciiSpace c.val = false) (hcmd : IsCommand cmd)
    (hbegins : Begins ws cmd) : ((a :: rest).map (part U)).take cmd.length = cmd := by
  obtain ⟨_, _, first, others, ⟨⟩, hfirst, hothers, rfl⟩ := packCommand_eq_some.mp hpack
  obtain ⟨hlength, hvisible⟩ := hcmd
  obtain ⟨A, u, v, C, hreads, huv, hAC⟩ := words_first hfirst hne hinner
  generalize words (fun b => isAsciiSpace b.val) first = fs at hreads hbegins
  -- the server does not recognise a word of whitespace before the text or after it
  have hblank : ∀ w s name, Reads w s → s ∈ A ++ C → name ∈ cmd → ¬Spells w name :=
    fun w s name hr hs hn h =>
      h.not_space (hvisible name hn) hr (hAC s hs).1 (hAC s hs).2
  match cmd, hlength with
  | name :: more, hlength =>
  cases A with
  | cons z A =>
    cases hreads with
    | cons hz _ =>
      cases hbegins with
      | cons hspells _ => exact absurd hspells (hblank _ _ _ hz (by simp) (by simp))
  | nil =>
    cases hreads with
    | @cons w _ fs _ hw hfs =>
      cases hbegins with
      | cons hspells hmore =>
        have hpart : part U a = name :=
          part_of_first hw huv (hvisible name (by simp)) hspells
        rw [List.map_cons, List.length_cons, List.take_succ_cons, hpart]
        congr 1
        match more, hlength with
        | [], _ => rfl
        | [sub], _ =>
          cases hfs with
          | cons hz _ =>
            cases hmore with
            | cons hspells' _ => exact absurd hspells' (hblank _ _ _ hz (by simp) (by simp))
          | nil =>
            -- the subcommand is the second argument
            cases rest with
            | nil =>
              cases hothers
              cases hmore
            | cons a' rest =>
              rw [List.mapM_cons] at hothers
              obtain ⟨w', hw', hothers⟩ := Option.bind_eq_some_iff.mp hothers
              obtain ⟨ws, -, hothers⟩ := Option.bind_eq_some_iff.mp hothers
              cases hothers
              cases hmore with
              | cons hspells' _ =>
                show [part U a'] = [sub]
                rw [part_of_other hw' (hvisible sub (by simp)) hspells']

/-! ## What gets past the gates -/

theorem dangerous_isCommand : ∀ cmd ∈ dangerousCommands, IsCommand cmd := by decide

/-- A dangerous subcommand belongs to a known prefix. -/
theorem dangerous_known : ∀ cmd ∈ dangerousCommands, ∀ name sub, cmd = [name, sub] →
    name ∈ knownSubcommandPrefixes := by
  have h : ∀ cmd ∈ dangerousCommands, cmd.length = 2 → cmd.headI ∈ knownSubcommandPrefixes := by
    decide
  rintro cmd hcmd name sub rfl
  exact h _ hcmd rfl

/-- A dangerous name is not a known prefix. -/
theorem dangerous_single : ∀ cmd ∈ dangerousCommands, ∀ name, cmd = [name] →
    name ∉ knownSubcommandPrefixes := by
  have h : ∀ cmd ∈ dangerousCommands, cmd.length = 1 → cmd.headI ∉ knownSubcommandPrefixes := by
    decide
  rintro cmd hcmd name rfl
  exact h _ hcmd rfl

/-- The first argument holds more than a name: stripped, it still has whitespace inside. -/
def HoldsSpace (args : List Arg) : Prop :=
  ∃ a ∈ args.head?, ∃ c ∈ strip isSpace a.text, isAsciiSpace c.val = true

/-- Where the first argument is one name, the gate looks at what the server recognises. -/
theorem parts_of_begins {args : List Arg} {ws : List (List (Fin 256))} {cmd d : List Str}
    (hpack : packCommand args = some ws) (hnorm : normalizeCommand U args = .ok cmd)
    (hspace : ¬HoldsSpace args) (hd : IsCommand d) (hbegins : Begins ws d) :
    ∃ name parts, (name :: parts).take d.length = d ∧ cmd = match parts with
      | [] => [name]
      | sub :: _ => if name ∈ knownSubcommandPrefixes then [name, sub] else [name] := by
  obtain ⟨a, rest, -, -, rfl, -⟩ := packCommand_eq_some.mp hpack
  obtain ⟨name, parts, hparts, hname, hcmd⟩ := normalizeCommand_eq_ok hnorm
  refine ⟨name, parts, ?_, hcmd⟩
  rw [← hparts]
  refine gate_of_begins hpack ?_ ?_ hd hbegins
  · intro hnil
    have hpart : part U a = [] := by rw [part, hnil]; rfl
    rw [List.map_cons, hpart] at hparts
    exact hname (List.cons.inj hparts).1.symm
  · intro c hc
    by_contra hcon
    exact hspace ⟨a, rfl, c, hc, by simpa using hcon⟩

/-- A dangerous command that the gate's reading does not show is hidden in the first argument. -/
theorem dangerous_normalize {args : List Arg} {ws : List (List (Fin 256))} {cmd : List Str}
    (hpack : packCommand args = some ws) (hnorm : normalizeCommand U args = .ok cmd)
    (hdanger : Dangerous ws) (hspace : ¬HoldsSpace args) : cmd ∈ dangerousCommands := by
  obtain ⟨d, hd, hbegins⟩ := hdanger
  obtain ⟨name, parts, htake, rfl⟩ :=
    parts_of_begins hpack hnorm hspace (dangerous_isCommand d hd) hbegins
  match d, hd, (dangerous_isCommand d hd).1 with
  | [n], hd, _ =>
    obtain rfl : name = n := (List.cons.inj htake).1
    have hprefix := dangerous_single _ hd name rfl
    cases parts with
    | nil => exact hd
    | cons sub parts =>
      show (if name ∈ knownSubcommandPrefixes then [name, sub] else [name]) ∈ dangerousCommands
      rwa [if_neg hprefix]
  | [n, m], hd, _ =>
    cases parts with
    | nil => simp at htake
    | cons sub parts =>
      obtain ⟨rfl, hsub⟩ := List.cons.inj htake
      obtain rfl : sub = m := (List.cons.inj hsub).1
      show (if name ∈ knownSubcommandPrefixes then [name, sub] else [name]) ∈ dangerousCommands
      rwa [if_pos (dangerous_known _ hd name sub rfl)]

/-- With whitespace inside the first argument, the gate sees one name that is on no list. -/
theorem normalize_of_holdsSpace {args : List Arg} (h : HoldsSpace args) :
    ∃ name, normalizeCommand U args = .ok [name] ∧ ∃ c ∈ name, isAsciiSpace c.val = true := by
  obtain ⟨a, ha, c, hc, hspace⟩ := h
  obtain ⟨rest, rfl⟩ : ∃ rest, args = a :: rest := by
    cases args with
    | nil => cases ha
    | cons b rest => cases ha; exact ⟨rest, rfl⟩
  have hupper : U.upper c = [c] := by
    simp only [isAsciiSpace, decide_eq_true_eq] at hspace
    rw [U.upper_ascii c (by omega)]
    simp only [asciiUpper]
    rw [if_neg (by omega)]
  have hmem : c ∈ part U a := List.mem_flatMap.mpr ⟨c, hc, by simp [hupper]⟩
  have hprefix : part U a ∉ knownSubcommandPrefixes := by
    intro hp
    have hnone : ∀ name ∈ knownSubcommandPrefixes, name.all (fun c => !isAsciiSpace c.val) = true := by
      decide
    simpa [hspace] using List.all_eq_true.mp (hnone _ hp) c hmem
  refine ⟨part U a, ?_, c, hmem, hspace⟩
  obtain ⟨x, xs, hx⟩ := List.exists_cons_of_ne_nil (List.ne_nil_of_mem hmem)
  rw [hx] at hprefix ⊢
  unfold normalizeCommand
  rw [List.map_cons, hx]
  cases hrest : rest.map (part U) with
  | nil => rfl
  | cons sub parts =>
    show (if x :: xs ∈ knownSubcommandPrefixes then _ else _) = _
    rw [if_neg hprefix]

/-- A list of arguments can be sent if each of them can. -/
theorem exists_mapM_wire {args : List Arg} :
    (∃ others, args.mapM Arg.wire = some others) ↔ ∀ a ∈ args, a.wire ≠ none := by
  induction args with
  | nil => simp
  | cons a args ih =>
    rw [List.forall_mem_cons, ← ih, List.mapM_cons]
    cases ha : a.wire with
    | none => simp
    | some w => cases hargs : args.mapM Arg.wire <;> simp

/-- The first argument, split as redis-py splits it, begins with a dangerous command, and all
arguments can be sent. -/
def FirstDangerous (args : List Arg) : Prop :=
  (∀ a ∈ args, a.wire ≠ none) ∧ ∃ a ∈ args.head?, ∃ first ∈ a.wire,
    Dangerous (words (fun b => isAsciiSpace b.val) first)

/-- Whitespace inside the first argument makes at least two words of it. -/
theorem two_le_words {a : Arg} {first : List (Fin 256)} {c : CodePoint}
    (hfirst : a.wire = some first) (hc : c ∈ strip isSpace a.text)
    (hspace : isAsciiSpace c.val = true) :
    2 ≤ (words (fun b => isAsciiSpace b.val) first).length := by
  rw [(reads_words (Arg.reads hfirst)).length_eq]
  have hascii : ∀ d : CodePoint, isSpace d = false → isAsciiSpace d.val = false := by
    intro d hd
    simp only [isSpace, decide_eq_false_iff_not] at hd
    simp only [isAsciiSpace, decide_eq_false_iff_not]
    omega
  have hcspace : isSpace c = true := by
    by_contra hcon
    rw [hascii c (by simpa using hcon)] at hspace
    cases hspace
  obtain ⟨x, y, hxy⟩ := List.append_of_mem hc
  obtain ⟨⟨d, hd, hdspace⟩, e, he, hespace⟩ := exists_sides hxy hcspace
  obtain ⟨p, q, hpq, -⟩ := exists_strip isSpace a.text
  have hsplit : a.text = (p ++ x) ++ c :: (y ++ q) := by
    rw [hpq, hxy]
    simp
  let sep : CodePoint → Bool := fun c => isAsciiSpace c.val
  have hsep : sep c = true := hspace
  have hd' : sep d = false := hascii d hdspace
  have he' : sep e = false := hascii e hespace
  have hdx : d ∈ p ++ x := by simp [hd]
  have hey : e ∈ y ++ q := by simp [he]
  show 2 ≤ (words sep a.text).length
  rw [hsplit, words_append_sep hsep, List.length_append]
  have hleft := List.length_pos_of_ne_nil (words_ne_nil hdx hd')
  have hright := List.length_pos_of_ne_nil (words_ne_nil hey he')
  omega

/-- With whitespace inside the first argument, it alone decides whether the words are
dangerous. -/
theorem firstDangerous_iff {args : List Arg} (hspace : HoldsSpace args) :
    FirstDangerous args ↔ ∃ ws, packCommand args = some ws ∧ Dangerous ws := by
  obtain ⟨a, ha, c, hc, hc'⟩ := hspace
  obtain ⟨rest, rfl⟩ : ∃ rest, args = a :: rest := by
    cases args with
    | nil => cases ha
    | cons b rest => cases ha; exact ⟨rest, rfl⟩
  -- no dangerous command is longer than the words of the first argument
  have hbegins : ∀ first others cmd, a.wire = some first → cmd ∈ dangerousCommands →
      (Begins (words (fun b => isAsciiSpace b.val) first ++ others) cmd ↔
        Begins (words (fun b => isAsciiSpace b.val) first) cmd) := by
    intro first others cmd hfirst hcmd
    have hlong := two_le_words hfirst hc hc'
    have hshort : cmd.length ≤ 2 := by
      rcases (dangerous_isCommand cmd hcmd).1 with h | h <;> omega
    unfold Begins
    rw [List.take_append_of_le_length (by omega)]
  constructor
  · rintro ⟨hwire, _, ⟨⟩, first, hfirst, cmd, hcmd, h⟩
    obtain ⟨others, hothers⟩ := exists_mapM_wire.mpr fun b (hb : b ∈ rest) =>
      hwire b (List.mem_cons_of_mem _ hb)
    exact ⟨_, packCommand_eq_some.mpr ⟨a, rest, first, others, rfl, hfirst, hothers, rfl⟩, cmd,
      hcmd, (hbegins first others cmd hfirst hcmd).mpr h⟩
  · rintro ⟨ws, hpack, cmd, hcmd, h⟩
    obtain ⟨_, _, first, others, ⟨⟩, hfirst, hothers, rfl⟩ := packCommand_eq_some.mp hpack
    refine ⟨?_, a, rfl, first, hfirst, cmd, hcmd, (hbegins first others cmd hfirst hcmd).mp h⟩
    rw [List.forall_mem_cons, hfirst]
    exact ⟨by simp, exists_mapM_wire.mp ⟨others, hothers⟩⟩

/-- **The disposable gate.** What it lets through is not dangerous on the wire, unless the first
argument holds whitespace inside and its words begin with a dangerous command. -/
theorem disposable_gate_iff (U : Unicode) (args : List Arg) :
    (authorizeDisposable U args = .ok () → ∀ ws, packCommand args = some ws → ¬Dangerous ws) ↔
      ¬(HoldsSpace args ∧ FirstDangerous args) := by
  constructor
  · rintro h ⟨hspace, hfirst⟩
    obtain ⟨ws, hpack, hdanger⟩ := (firstDangerous_iff hspace).mp hfirst
    refine h ?_ ws hpack hdanger
    obtain ⟨name, hnorm, c, hc, hc'⟩ := normalize_of_holdsSpace (U := U) hspace
    -- no name on the denylist has whitespace in it
    have hlist : [name] ∉ dangerousCommands := by
      intro hmem
      have hvisible := List.all_eq_true.mp ((dangerous_isCommand _ hmem).2 name (by simp)) c hc
      simp only [isVisible, decide_eq_true_eq] at hvisible
      simp only [isAsciiSpace, decide_eq_true_eq] at hc'
      omega
    rw [authorizeDisposable, hnorm, ok_bind, if_neg hlist]
  · intro h hok ws hpack hdanger
    obtain ⟨cmd, hnorm, hok⟩ := bind_eq_ok.mp hok
    by_cases hspace : HoldsSpace args
    · exact h ⟨hspace, (firstDangerous_iff hspace).mpr ⟨ws, hpack, hdanger⟩⟩
    · have hcmd := dangerous_normalize hpack hnorm hdanger hspace
      rw [if_pos hcmd] at hok
      cases hok

/-- One string that says `FLUSHALL ASYNC` passes the gate and is sent as two words. -/
theorem disposable_gate_passes_flushall : ¬∀ (U : Unicode) (args : List Arg),
    authorizeDisposable U args = .ok () → ∀ ws, packCommand args = some ws → ¬Dangerous ws := by
  intro h
  let U : Unicode := ⟨fun c => [asciiUpper c], id, fun _ _ => rfl⟩
  have hok : authorizeDisposable U [.str (str "FLUSHALL ASYNC")] = .ok () := by decide
  have hpack : packCommand [.str (str "FLUSHALL ASYNC")] =
      some [utf8Bytes (str "FLUSHALL"), utf8Bytes (str "ASYNC")] := by decide
  have hdanger : Dangerous [utf8Bytes (str "FLUSHALL"), utf8Bytes (str "ASYNC")] := by
    decide
  exact h U _ hok _ hpack hdanger

/-! ## What the production gate lets through -/

/-- The commands a server knows: names, and names with a subcommand where the name alone is not a
command. -/
structure ServerCommands where
  commands : Set (List Str)
  isCommand : ∀ cmd ∈ commands, IsCommand cmd
  acl_not_mem : [str "ACL"] ∉ commands

/-- Whatever a server recognises of what the production gate lets through is on the allowlist. -/
theorem production_wire {T : ServerCommands} {args : List Arg} {ws : List (List (Fin 256))}
    (hok : authorizeProduction U args = .ok ()) (hpack : packCommand args = some ws)
    {d : List Str} (hd : d ∈ T.commands) (hbegins : Begins ws d) :
    ∃ cmd ∈ productionAllowedCommands, Begins ws cmd := by
  obtain ⟨cmd, hnorm, hok⟩ := bind_eq_ok.mp hok
  have hallowed : cmd ∈ productionAllowedCommands := by
    split_ifs at hok with h₁ h₂
    exact h₂
  have hvisible : ∀ cmd ∈ productionAllowedCommands, ∀ name ∈ cmd, name.all isVisible = true := by
    decide
  have hspace : ¬HoldsSpace args := by
    intro hspace
    obtain ⟨name, hnorm', c, hc, hc'⟩ := normalize_of_holdsSpace (U := U) hspace
    cases hnorm.symm.trans hnorm'
    have hcvisible := List.all_eq_true.mp (hvisible _ hallowed name (by simp)) c hc
    simp only [isVisible, decide_eq_true_eq] at hcvisible
    simp only [isAsciiSpace, decide_eq_true_eq] at hc'
    omega
  obtain ⟨name, parts, htake, rfl⟩ := parts_of_begins hpack hnorm hspace (T.isCommand d hd) hbegins
  obtain ⟨more, rfl⟩ : ∃ more, d = name :: more := by
    rcases (T.isCommand d hd).1 with h | h <;> rw [h, List.take_succ_cons] at htake <;>
      exact ⟨_, htake.symm⟩
  by_cases hprefix : name ∈ knownSubcommandPrefixes
  · -- of the known prefixes only `ACL` is on the list, with its subcommand
    have hacl : ∀ cmd ∈ productionAllowedCommands, cmd.headI ∈ knownSubcommandPrefixes →
        cmd = [str "ACL", str "WHOAMI"] := by
      decide
    cases parts with
    | nil => cases hacl _ hallowed hprefix
    | cons sub parts =>
      simp only [if_pos hprefix] at hallowed
      obtain ⟨rfl, hsub⟩ := List.cons.inj (hacl _ hallowed hprefix)
      obtain rfl : sub = str "WHOAMI" := (List.cons.inj hsub).1
      refine ⟨_, hallowed, ?_⟩
      match more, (T.isCommand _ hd).1, hd with
      | [], _, hd => exact absurd hd T.acl_not_mem
      | [m], _, _ =>
        obtain rfl : str "WHOAMI" = m := (List.cons.inj (List.cons.inj htake).2).1
        exact hbegins
  · refine ⟨[name], ?_, hbegins.head⟩
    cases parts with
    | nil => exact hallowed
    | cons sub parts => simpa only [if_neg hprefix] using hallowed

end RedisAcl

end SecurityAudit
