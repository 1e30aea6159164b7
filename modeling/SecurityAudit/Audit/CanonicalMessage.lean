import SecurityAudit.Audit.RecordIntegrity
import SecurityAudit.Text.Layout

/-!
# What a canonical message says

A canonical message has a line `name=value` for each field, and a value may bring lines of its
own. Between two text fields there may be fields whose values are of a fixed shape, such as a
timestamp. A message is a layout of lines: the contents are the later lines of the text values,
the marks are the lines in which fields begin. So the values can be read off the message exactly
if the later lines of no text value read as the fields next to it (`message_unique_iff`).
-/

namespace SecurityAudit

namespace RecordIntegrity

/-! ## Lines -/

/-- The lines of a text. -/
def lines (s : Str) : List Str := s.splitOn (cp '\n')

/-- The first line of a text. -/
def headLine (s : Str) : Str := (lines s).headD []

/-- The lines after the first. -/
def laterLines (s : Str) : List Str := (lines s).tail

theorem lines_eq (s : Str) : lines s = headLine s :: laterLines s := by
  unfold headLine laterLines
  cases h : lines s with
  | nil => exact absurd h (List.splitOn_ne_nil _ _)
  | cons l ls => rfl

theorem joinLines_eq (parts : List Str) : joinLines parts = [cp '\n'].intercalate parts := by
  induction parts using joinLines.induct with
  | case1 => rfl
  | case2 p => simp [joinLines]
  | case3 p q ps ih =>
    rw [joinLines, ih]
    simp [List.intercalate]

theorem joinLines_lines (s : Str) : joinLines (lines s) = s := by
  rw [joinLines_eq]
  exact List.intercalate_splitOn _

theorem lines_injective : Function.Injective lines := by
  intro s t h
  rw [← joinLines_lines s, h, joinLines_lines]

theorem lines_of_not_mem {s : Str} (h : cp '\n' ∉ s) : lines s = [s] := List.splitOn_eq_singleton h

theorem laterLines_of_not_mem {s : Str} (h : cp '\n' ∉ s) : laterLines s = [] := by
  rw [laterLines, lines_of_not_mem h, List.tail_cons]

/-- Lines that are joined are the lines of the text. -/
theorem lines_joinLines_self {ls : List Str} (hne : ls ≠ []) (h : ∀ l ∈ ls, cp '\n' ∉ l) :
    lines (joinLines ls) = ls := by
  rw [joinLines_eq]
  exact List.splitOn_intercalate _ h hne

theorem not_mem_of_mem_lines {s l : Str} (h : l ∈ lines s) : cp '\n' ∉ l := by
  induction s generalizing l with
  | nil =>
    rw [List.mem_singleton.mp h]
    simp
  | cons c s ih =>
    rw [lines, List.splitOn_cons_eq_if_modifyHead] at h
    have hsplit : s.splitOn (cp '\n') = headLine s :: laterLines s := lines_eq s
    have hmem : ∀ l' ∈ headLine s :: laterLines s, cp '\n' ∉ l' := by
      rw [← lines_eq s]
      intro l' hl'
      exact ih hl'
    rw [hsplit] at h
    by_cases hc : c = cp '\n'
    · rw [if_pos (by simpa using hc)] at h
      rcases List.mem_cons.mp h with rfl | h
      · simp
      · exact hmem l h
    · rw [if_neg (by simpa using hc), List.modifyHead_cons] at h
      rcases List.mem_cons.mp h with rfl | h
      · simp [Ne.symm hc, hmem (headLine s) List.mem_cons_self]
      · exact hmem l (List.mem_cons_of_mem _ h)

/-- The lines of parts that are joined. -/
theorem lines_joinLines {parts : List Str} (h : parts ≠ []) :
    lines (joinLines parts) = parts.flatMap lines := by
  induction parts using joinLines.induct with
  | case1 => exact absurd rfl h
  | case2 p => simp [joinLines]
  | case3 p q ps ih =>
    have hcons : lines (p ++ cp '\n' :: joinLines (q :: ps)) =
        lines p ++ lines (joinLines (q :: ps)) := List.splitOn_append_cons_self _ _
    rw [joinLines, hcons, ih (by simp)]
    rfl

/-- What is put before a text is put before its first line. -/
theorem lines_append {a : Str} (ha : cp '\n' ∉ a) (s : Str) :
    lines (a ++ s) = (a ++ headLine s) :: laterLines s := by
  induction a with
  | nil => exact lines_eq s
  | cons c a ih =>
    have hc : c ≠ cp '\n' := fun h => ha (by simp [h])
    have hsplit : (a ++ s).splitOn (cp '\n') = (a ++ headLine s) :: laterLines s :=
      ih fun h => ha (List.mem_cons_of_mem _ h)
    rw [List.cons_append, lines, List.splitOn_cons_eq_if_modifyHead, if_neg (by simpa using hc),
      hsplit, List.modifyHead_cons, List.cons_append]

/-! ## Fields -/

/-- The name of a field: no `=` and one line. -/
def PlainName (n : String) : Prop := cp '=' ∉ str n ∧ cp '\n' ∉ str n

instance (n : String) : Decidable (PlainName n) := inferInstanceAs (Decidable (_ ∧ _))

theorem line_not_mem {n : String} {v : Str} (h : cp '\n' ∉ line n v) : cp '\n' ∉ v :=
  fun hv => h (List.mem_append_right _ (List.mem_cons_of_mem _ hv))

theorem lines_line {n : String} (hn : PlainName n) (v : Str) :
    lines (line n v) = line n (headLine v) :: laterLines v := by
  have hname : cp '\n' ∉ str n ++ [cp '='] := by
    rw [List.mem_append, List.mem_singleton, not_or]
    exact ⟨hn.2, by decide⟩
  have hline : ∀ v, line n v = (str n ++ [cp '=']) ++ v := by simp [line]
  rw [hline, hline, lines_append hname]

/-- A line says its field and the value. -/
theorem line_inj {n m : String} {v w : Str} (hn : PlainName n) (hm : PlainName m)
    (h : line n v = line m w) : str n = str m ∧ v = w := by
  have hname : ∀ {n : String} (v : Str), PlainName n →
      (line n v).takeWhile (fun c => decide (c ≠ cp '=')) = str n := by
    intro n v hn
    rw [line, List.takeWhile_append_of_pos, List.takeWhile_cons_of_neg (by simp), List.append_nil]
    intro c hc
    rw [decide_eq_true_eq]
    rintro rfl
    exact hn.1 hc
  have hnames : str n = str m := by rw [← hname v hn, h, hname w hm]
  refine ⟨hnames, ?_⟩
  rw [line, line, hnames] at h
  exact (List.cons.inj (List.append_cancel_left h)).2

/-- The fields from one text field to the next: those of a fixed shape between the two, and the
next text field. -/
structure Gap where
  between : List String
  next : String

/-- Values for the fields of a gap. -/
structure GapValues where
  between : List Str
  next : Str

namespace Gap

/-- The names, in order. -/
def names (G : Gap) : List String := G.between ++ [G.next]

/-- The `name=value` parts, in order. -/
def parts (G : Gap) (V : GapValues) : List Str :=
  List.zipWith line G.between V.between ++ [line G.next V.next]

/-- The lines in which the fields begin, and the later lines of the text. -/
def mark (G : Gap) (V : GapValues) : List Str × List Str :=
  (List.zipWith line G.between V.between ++ [line G.next (headLine V.next)], laterLines V.next)

end Gap

/-- The parts of a message that begins with a text field. -/
def messageParts (first : String) (s : Str) (Gs : List Gap) (Vs : List GapValues) : List Str :=
  line first s :: (List.zipWith Gap.parts Gs Vs).flatten

section Shapes

variable (Shape : String → Str → Prop)

/-- The line is one in which the field may begin. -/
def ReadsAs (n : String) (l : Str) : Prop := ∃ v, l = line n v ∧ Shape n v

/-- The values between the text fields have the shapes of their fields, in one line. -/
def Fits (G : Gap) (V : GapValues) : Prop :=
  List.Forall₂ (fun n v => Shape n v ∧ cp '\n' ∉ v) G.between V.between

variable {Shape} {G : Gap} {V V' : GapValues} {Gs : List Gap} {Vs Vs' : List GapValues}

theorem distinct_reads {names : List String} (h : ∀ n ∈ names, PlainName n) :
    Layout.Distinct (ReadsAs Shape) names := by
  rintro n hn m hm l ⟨v, rfl, -⟩ ⟨w, hw, -⟩
  exact str_injective (line_inj (h n hn) (h m hm) hw).1

/-- The lines of the fields of a fixed shape are their parts. -/
theorem lines_between {names : List String} {values : List Str} (h : ∀ n ∈ names, PlainName n)
    (hfit : List.Forall₂ (fun n v => Shape n v ∧ cp '\n' ∉ v) names values) :
    (List.zipWith line names values).flatMap lines = List.zipWith line names values := by
  induction hfit with
  | nil => rfl
  | @cons n v names values hv hfit ih =>
    obtain ⟨hn, hnames⟩ := List.forall_mem_cons.mp h
    have hline : lines (line n v) = [line n v] := by
      rw [lines_line hn, headLine, laterLines, lines_of_not_mem hv.2]
      rfl
    rw [List.zipWith_cons_cons, List.flatMap_cons, hline, ih hnames, List.singleton_append]

theorem lines_parts (h : ∀ n ∈ G.names, PlainName n) (hfit : Fits Shape G V) :
    (G.parts V).flatMap lines = (G.mark V).1 ++ (G.mark V).2 := by
  have hbetween : ∀ n ∈ G.between, PlainName n := fun n hn => h n (List.mem_append_left _ hn)
  have hnext : PlainName G.next := h G.next (List.mem_append_right _ List.mem_cons_self)
  rw [Gap.parts, List.flatMap_append, lines_between hbetween hfit, List.flatMap_singleton,
    lines_line hnext]
  simp [Gap.mark]

/-- The lines of a message are a layout. -/
theorem lines_message {first : String} (hfirst : PlainName first)
    (hnames : ∀ G ∈ Gs, ∀ n ∈ G.names, PlainName n) (hfit : List.Forall₂ (Fits Shape) Gs Vs)
    (s : Str) (others : List Str) :
    lines (joinLines (messageParts first s Gs Vs ++ others)) =
      line first (headLine s) :: (Layout.render (laterLines s) (List.zipWith Gap.mark Gs Vs) ++
        others.flatMap lines) := by
  have hgaps : (List.zipWith Gap.parts Gs Vs).flatten.flatMap lines =
      (List.zipWith Gap.mark Gs Vs).flatMap fun p => p.1 ++ p.2 := by
    clear s
    induction hfit with
    | nil => rfl
    | @cons G V Gs Vs hG hfit ih =>
      obtain ⟨hG', hGs⟩ := List.forall_mem_cons.mp hnames
      rw [List.zipWith_cons_cons, List.flatten_cons, List.flatMap_append, lines_parts hG' hG,
        ih hGs, List.zipWith_cons_cons, List.flatMap_cons]
  rw [lines_joinLines (by simp [messageParts]), messageParts, List.cons_append, List.flatMap_cons,
    List.flatMap_append, hgaps, lines_line hfirst, Layout.render]
  simp

theorem isMark_mark (hnext : ∀ v, Shape G.next v) (hfit : Fits Shape G V) :
    Layout.IsMark (ReadsAs Shape) G.names (G.mark V).1 := by
  have hbetween : List.Forall₂ (ReadsAs Shape) G.between (List.zipWith line G.between V.between) := by
    unfold Fits at hfit
    generalize G.between = names at hfit
    generalize V.between = values at hfit
    induction hfit with
    | nil => exact .nil
    | cons hv hfit ih => exact .cons ⟨_, rfl, hv.1⟩ ih
  exact List.rel_append hbetween (.cons ⟨_, rfl, hnext _⟩ .nil)

theorem laid_marks (hnext : ∀ G ∈ Gs, ∀ v, Shape G.next v)
    (hfit : List.Forall₂ (Fits Shape) Gs Vs) :
    Layout.Laid (ReadsAs Shape) (Gs.map Gap.names) (List.zipWith Gap.mark Gs Vs) := by
  induction hfit with
  | nil => exact .nil
  | cons hG hfit ih =>
    obtain ⟨hnextG, hnext⟩ := List.forall_mem_cons.mp hnext
    exact .cons (isMark_mark hnextG hG) (ih hnext)

/-- The lines in which fields begin determine their values. -/
theorem zipWith_line_inj {names : List String} {values values' : List Str}
    (h : ∀ n ∈ names, PlainName n) (hlength : names.length = values.length)
    (hlength' : names.length = values'.length)
    (heq : List.zipWith line names values' = List.zipWith line names values) :
    values' = values := by
  induction names generalizing values values' with
  | nil =>
    rw [List.length_eq_zero_iff.mp hlength.symm, List.length_eq_zero_iff.mp hlength'.symm]
  | cons n names ih =>
    obtain ⟨hn, hnames⟩ := List.forall_mem_cons.mp h
    cases values with
    | nil => cases hlength
    | cons v values =>
      cases values' with
      | nil => cases hlength'
      | cons v' values' =>
        obtain ⟨hline, hlines⟩ := List.cons.inj heq
        rw [(line_inj hn hn hline).2,
          ih hnames (Nat.succ.inj hlength) (Nat.succ.inj hlength') hlines]

theorem text_ext {s t : Str} (hhead : headLine s = headLine t)
    (hlater : laterLines s = laterLines t) : s = t := by
  apply lines_injective
  rw [lines_eq, lines_eq, hhead, hlater]

theorem mark_injective (h : ∀ n ∈ G.names, PlainName n) (hfit : Fits Shape G V)
    (hfit' : Fits Shape G V') (heq : G.mark V' = G.mark V) : V' = V := by
  have hbetween : ∀ n ∈ G.between, PlainName n := fun n hn => h n (List.mem_append_left _ hn)
  have hnext : PlainName G.next := h G.next (List.mem_append_right _ List.mem_cons_self)
  obtain ⟨hmark, hlater⟩ := Prod.mk.inj heq
  obtain ⟨hlines, hline⟩ := List.append_inj' hmark rfl
  have hvalues : V'.between = V.between :=
    zipWith_line_inj hbetween hfit.length_eq hfit'.length_eq hlines
  have htext : V'.next = V.next :=
    text_ext (line_inj hnext hnext (List.cons.inj hline).1).2 hlater
  cases V
  cases V'
  simp_all

/-! ## Reading a message -/

/-- Lines in which the fields begin give them values. -/
theorem exists_values {names : List String} {next : String} {w : List Str}
    (h : Layout.IsMark (ReadsAs Shape) (names ++ [next]) w) (hlines : ∀ l ∈ w, cp '\n' ∉ l) :
    ∃ values v, w = List.zipWith line names values ++ [line next v] ∧ cp '\n' ∉ v ∧
      List.Forall₂ (fun n v => Shape n v ∧ cp '\n' ∉ v) names values := by
  induction names generalizing w with
  | nil =>
    obtain ⟨l, ls, ⟨v, rfl, -⟩, hls, rfl⟩ := List.forall₂_cons_left_iff.mp h
    rw [List.forall₂_nil_left_iff.mp hls] at hlines ⊢
    exact ⟨[], v, rfl, line_not_mem (hlines _ List.mem_cons_self), .nil⟩
  | cons n names ih =>
    obtain ⟨l, ls, ⟨v, rfl, hv⟩, hls, rfl⟩ := List.forall₂_cons_left_iff.mp h
    obtain ⟨hl, hrest⟩ := List.forall_mem_cons.mp hlines
    obtain ⟨values, u, rfl, hu, hvalues⟩ := ih hls hrest
    exact ⟨v :: values, u, rfl, hu, .cons ⟨hv, line_not_mem hl⟩ hvalues⟩

theorem laterLines_joinLines {l : Str} {ls : List Str} (h : ∀ l' ∈ l :: ls, cp '\n' ∉ l') :
    headLine (joinLines (l :: ls)) = l ∧ laterLines (joinLines (l :: ls)) = ls := by
  unfold headLine laterLines
  rw [lines_joinLines_self (by simp) h]
  exact ⟨rfl, rfl⟩

theorem exists_mark {p : List Str × List Str} (h : Layout.IsMark (ReadsAs Shape) G.names p.1)
    (hlines : ∀ l ∈ p.1 ++ p.2, cp '\n' ∉ l) : ∃ V, Fits Shape G V ∧ G.mark V = p := by
  obtain ⟨hmark, hlater⟩ := List.forall_mem_append.mp hlines
  obtain ⟨values, v, hp, hv, hvalues⟩ := exists_values h hmark
  obtain ⟨hhead, htail⟩ := laterLines_joinLines (List.forall_mem_cons.mpr ⟨hv, hlater⟩)
  refine ⟨⟨values, joinLines (v :: p.2)⟩, hvalues, Prod.ext ?_ htail⟩
  rw [Gap.mark, hhead, hp]

theorem exists_marks {rest : List (List Str × List Str)}
    (h : Layout.Laid (ReadsAs Shape) (Gs.map Gap.names) rest)
    (hlines : ∀ l ∈ rest.flatMap fun p => p.1 ++ p.2, cp '\n' ∉ l) :
    ∃ Vs, List.Forall₂ (Fits Shape) Gs Vs ∧ List.zipWith Gap.mark Gs Vs = rest := by
  induction Gs generalizing rest with
  | nil =>
    cases h
    exact ⟨[], .nil, rfl⟩
  | cons G Gs ih =>
    obtain ⟨p, ps, hp, hps, rfl⟩ := List.forall₂_cons_left_iff.mp h
    rw [List.flatMap_cons, List.forall_mem_append] at hlines
    obtain ⟨V, hfit, rfl⟩ := exists_mark hp hlines.1
    obtain ⟨Vs, hfits, rfl⟩ := ih hps hlines.2
    exact ⟨V :: Vs, .cons hfit hfits, rfl⟩

theorem marks_injective (hnames : ∀ G ∈ Gs, ∀ n ∈ G.names, PlainName n)
    (hfit : List.Forall₂ (Fits Shape) Gs Vs) (hfit' : List.Forall₂ (Fits Shape) Gs Vs')
    (h : List.zipWith Gap.mark Gs Vs' = List.zipWith Gap.mark Gs Vs) : Vs' = Vs := by
  induction hfit generalizing Vs' with
  | nil =>
    cases hfit'
    rfl
  | cons hG hfit ih =>
    cases hfit' with
    | cons hG' hfit' =>
      obtain ⟨hnamesG, hnames⟩ := List.forall_mem_cons.mp hnames
      obtain ⟨hmark, hmarks⟩ := List.cons.inj h
      rw [mark_injective hnamesG hG hG' hmark, ih hnames hfit' hmarks]

/-- **The values can be read off a message in one way only exactly if the later lines of no text
read as the fields next to it.** -/
theorem message_unique_iff {first : String} (hfirst : PlainName first)
    (hnames : ∀ G ∈ Gs, ∀ n ∈ G.names, PlainName n) (hnodup : (Gs.map Gap.names).flatten.Nodup)
    (hnext : ∀ G ∈ Gs, ∀ v, Shape G.next v) (hfit : List.Forall₂ (Fits Shape) Gs Vs) (s : Str)
    (others : List Str) :
    (∀ s' Vs', List.Forall₂ (Fits Shape) Gs Vs' →
      joinLines (messageParts first s' Gs Vs' ++ others) =
        joinLines (messageParts first s Gs Vs ++ others) → s' = s ∧ Vs' = Vs) ↔
      Layout.Quiet (ReadsAs Shape) (Gs.map Gap.names)
        (laterLines s :: Vs.map fun V => laterLines V.next) := by
  have hcontents : (List.zipWith Gap.mark Gs Vs).map Prod.snd =
      Vs.map fun V => laterLines V.next := by
    clear hnames hnodup hnext
    induction hfit with
    | nil => rfl
    | cons _ _ ih => rw [List.zipWith_cons_cons, List.map_cons, ih, List.map_cons, Gap.mark]
  have hplain : ∀ n ∈ (Gs.map Gap.names).flatten, PlainName n := by
    intro n hn
    obtain ⟨names, hmem, hn⟩ := List.mem_flatten.mp hn
    obtain ⟨G, hG, rfl⟩ := List.mem_map.mp hmem
    exact hnames G hG n hn
  have hne : ∀ names ∈ Gs.map Gap.names, names ≠ [] := by
    intro names hG
    obtain ⟨G, -, rfl⟩ := List.mem_map.mp hG
    simp [Gap.names]
  rw [← hcontents,
    ← Layout.layout_unique_iff (distinct_reads hplain) hne hnodup (laid_marks hnext hfit)]
  constructor
  · -- another reading of the lines gives other values
    intro h y rest hrest hrender
    have hlines : ∀ l ∈ Layout.render y rest, cp '\n' ∉ l := by
      intro l hl
      refine not_mem_of_mem_lines (s := joinLines (messageParts first s Gs Vs)) ?_
      have := lines_message hfirst hnames hfit s []
      rw [List.append_nil, List.flatMap_nil, List.append_nil] at this
      rw [this, ← hrender]
      exact List.mem_cons_of_mem _ hl
    obtain ⟨hy, hmarks⟩ := List.forall_mem_append.mp hlines
    obtain ⟨Vs', hfit', rfl⟩ := exists_marks hrest hmarks
    have hhead : cp '\n' ∉ headLine s := by
      refine not_mem_of_mem_lines (s := s) ?_
      rw [lines_eq]
      exact List.mem_cons_self
    obtain ⟨hhead', hlater⟩ := laterLines_joinLines (List.forall_mem_cons.mpr ⟨hhead, hy⟩)
    obtain ⟨hs, hVs⟩ := h (joinLines (headLine s :: y)) Vs' hfit' (lines_injective (by
      rw [lines_message hfirst hnames hfit', lines_message hfirst hnames hfit, hhead', hlater,
        hrender]))
    rw [hs] at hlater
    exact ⟨hlater.symm, by rw [hVs]⟩
  · intro h s' Vs' hfit' heq
    have hlines := congrArg lines heq
    rw [lines_message hfirst hnames hfit', lines_message hfirst hnames hfit] at hlines
    obtain ⟨hline, hlines⟩ := List.cons.inj hlines
    obtain ⟨hlater, hmarks⟩ := h _ _ (laid_marks hnext hfit') (List.append_cancel_right hlines)
    exact ⟨text_ext (line_inj hfirst hfirst hline).2 hlater,
      marks_injective hnames hfit hfit' hmarks⟩

end Shapes

end RecordIntegrity

end SecurityAudit
