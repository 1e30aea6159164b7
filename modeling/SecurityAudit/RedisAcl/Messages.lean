import SecurityAudit.RedisAcl.Scenarios
import SecurityAudit.Text.Utf8Decode

/-!
# What the errors of the gates say

A gate's error names the command as `_normalize_command` reads it, from the first argument and
for some commands the second. redis-py splits the first argument into words before it sends it.
Where that gives one word, both read the same command, so two sequences that are sent as the same
command are answered alike, whatever their other arguments. Where it gives more, the gate takes
the words for one name, and its error repeats them all.
-/

namespace SecurityAudit

namespace RedisAcl

variable (U : Unicode)

/-! ## The command on the wire -/

/-- The first argument is one word for redis-py. -/
def OneWord (args : List Arg) : Prop :=
  ∃ a ∈ args.head?, ∃ w, words (fun c => isAsciiSpace c.val) a.text = [w]

/-- The two are sent as the same command name and, where the command has subcommands, the same
subcommand: equal words, or words that the module takes for the same name. -/
def SameCommand (ws ws' : List (List (Fin 256))) : Prop :=
  normalizeCommand U (ws.map .bytes) = normalizeCommand U (ws'.map .bytes)

/-- What was sent of an argument, read as text, is its text. -/
theorem Arg.decode_wire {a : Arg} {b : List (Fin 256)} (h : a.wire = some b) :
    decodeReplace b = a.text := by
  cases a with
  | str s =>
    obtain ⟨u, hu, rfl⟩ := Option.map_eq_some_iff.mp h
    rw [decodeReplace_utf8Bytes u.valid]
    exact encode?_text hu
  | bytes b' =>
    cases h
    rfl

theorem part_wire {a : Arg} {b : List (Fin 256)} (h : a.wire = some b) :
    part U (.bytes b) = part U a := by
  show U.upperText (strip isSpace (decodeReplace b)) = U.upperText (strip isSpace a.text)
  rw [Arg.decode_wire h]

theorem parts_wire {args : List Arg} {bs : List (List (Fin 256))}
    (h : args.mapM Arg.wire = some bs) : (bs.map .bytes).map (part U) = args.map (part U) := by
  induction args generalizing bs with
  | nil =>
    cases h
    rfl
  | cons a args ih =>
    rw [List.mapM_cons] at h
    obtain ⟨b, hb, h⟩ := Option.bind_eq_some_iff.mp h
    obtain ⟨bs', hbs', h⟩ := Option.bind_eq_some_iff.mp h
    obtain rfl : b :: bs' = bs := Option.some.inj h
    rw [List.map_cons, List.map_cons, List.map_cons, part_wire U hb, ih hbs']

/-- Where the first argument is one word, the gate reads what is sent. -/
theorem normalizeCommand_wire {args : List Arg} {ws : List (List (Fin 256))}
    (hpack : packCommand args = some ws) (hone : OneWord args) :
    normalizeCommand U (ws.map .bytes) = normalizeCommand U args := by
  obtain ⟨a, rest, first, others, rfl, hfirst, hothers, rfl⟩ := packCommand_eq_some.mp hpack
  obtain ⟨a', ha', w, hw⟩ := hone
  obtain rfl : a = a' := Option.some.inj ha'
  have hascii : ∀ n, isAsciiSpace n = true → n < 0x80 := by
    intro n hn
    simp only [isAsciiSpace, decide_eq_true_eq] at hn
    omega
  have hwords := words_decodeReplace (p := fun b => isAsciiSpace b.val)
    (q := fun c => isAsciiSpace c.val) (fun x c hxc => by rw [hxc]) (fun x => hascii x.val)
    (fun c => hascii c.val) first
  rw [Arg.decode_wire hfirst, hw] at hwords
  obtain ⟨b, hb, hbw⟩ := List.map_eq_singleton_iff.mp hwords.symm
  -- the text is the word between whitespace, which the gate strips off
  have hpart : part U (.bytes b) = part U a := by
    obtain ⟨x, y, htext, hx, hy⟩ := words_eq_single hw
    have hspace : ∀ n : CodePoint, isAsciiSpace n.val = true → isSpace n = true := by
      intro n hn
      simp only [isAsciiSpace, decide_eq_true_eq] at hn
      simp only [isSpace, decide_eq_true_eq]
      omega
    show U.upperText (strip isSpace (decodeReplace b)) = U.upperText (strip isSpace a.text)
    rw [hbw, htext, strip_around (fun c hc => hspace c (hx c hc)) fun c hc => hspace c (hy c hc)]
  have hparts : (([b] ++ others).map Arg.bytes).map (part U) = (a :: rest).map (part U) := by
    rw [List.map_append, List.map_append, parts_wire U hothers]
    show part U (.bytes b) :: rest.map (part U) = part U a :: rest.map (part U)
    rw [hpart]
  unfold normalizeCommand
  rw [hb, hparts]

/-! ## What the gates answer -/

/-- The two sequences pass both gates, or are refused with the same errors. -/
def GatesAgree (args args' : List Arg) : Prop :=
  authorizeProduction U args = authorizeProduction U args' ∧
    authorizeDisposable U args = authorizeDisposable U args'

/-- `" ".join(_normalize_command(args))`. -/
def commandText (args : List Arg) : Except SafetyError Str :=
  (normalizeCommand U args).map (str " ").intercalate

/-- The command is on one of the two lists of the module. -/
def Listed (args : List Arg) : Prop :=
  ∃ cmd, normalizeCommand U args = .ok cmd ∧
    (cmd ∈ dangerousCommands ∨ cmd ∈ productionAllowedCommands)

/-- The command is on the allowlist. -/
def Allowlisted (args : List Arg) : Prop :=
  ∃ cmd, normalizeCommand U args = .ok cmd ∧ cmd ∈ productionAllowedCommands

/-- What the production gate says of a command. -/
def judgeProduction (cmd : List Str) : Except SafetyError Unit :=
  if cmd ∈ dangerousCommands then
    .error ⟨.dangerousCommandError, str "command " ++ commandRepr U cmd ++
      str " is unconditionally prohibited in production validation"⟩
  else if cmd ∉ productionAllowedCommands then
    .error ⟨.prohibitedCommandError, str "command " ++ commandRepr U cmd ++
      str " is not on the production validation allowlist ['ACL WHOAMI', 'INFO', 'PING']"⟩
  else .ok ()

/-- What the disposable gate says of a command. -/
def judgeDisposable (cmd : List Str) : Except SafetyError Unit :=
  if cmd ∈ dangerousCommands then
    .error ⟨.dangerousCommandError, str "command " ++ commandRepr U cmd ++
      str (" is on the hard denylist; use DisposableNegativeTestGate if a test specifically " ++
        "needs to prove Redis's own ACL denies this command to a restricted identity")⟩
  else .ok ()

theorem authorizeProduction_eq (args : List Arg) :
    authorizeProduction U args = normalizeCommand U args >>= judgeProduction U := rfl

theorem authorizeDisposable_eq (args : List Arg) :
    authorizeDisposable U args = normalizeCommand U args >>= judgeDisposable U := rfl

variable {U}

theorem normalizeCommand_eq_error {args : List Arg} {e : SafetyError}
    (h : normalizeCommand U args = .error e) : e = emptyCommand := by
  unfold normalizeCommand at h
  split at h
  · exact (Except.error.inj h).symm
  · exact (Except.error.inj h).symm
  · cases h
  · split_ifs at h

/-- A command is never answered as no command is. -/
theorem judgeProduction_ne_empty (cmd : List Str) : judgeProduction U cmd ≠ .error emptyCommand := by
  have hhead : ∀ cls t, (⟨cls, str "command " ++ t⟩ : SafetyError) ≠ emptyCommand := by
    intro cls t ht
    have hc : cp 'c' = cp 'r' := (List.cons.inj (congrArg SafetyError.message ht)).1
    exact absurd hc (by decide)
  intro h
  unfold judgeProduction at h
  split_ifs at h <;>
    · rw [List.append_assoc] at h
      exact hhead _ _ (Except.error.inj h)

/-- An error of a gate shows the text of the command. -/
theorem message_inj (hrepr : Function.Injective U.repr) {cls cls' : ErrorClass}
    {cmd cmd' : List Str} {tail : Str}
    (h : (⟨cls, str "command " ++ commandRepr U cmd ++ tail⟩ : SafetyError) =
      ⟨cls', str "command " ++ commandRepr U cmd' ++ tail⟩) :
    (str " ").intercalate cmd = (str " ").intercalate cmd' := by
  have hmessage := congrArg SafetyError.message h
  have htext : commandRepr U cmd = commandRepr U cmd' :=
    List.append_cancel_left (List.append_cancel_right hmessage)
  exact hrepr htext

/-- The commands of the two lists are told apart by their texts. -/
theorem listed_inj : ∀ cmd ∈ dangerousCommands ++ productionAllowedCommands,
    ∀ cmd' ∈ dangerousCommands ++ productionAllowedCommands,
      (str " ").intercalate cmd = (str " ").intercalate cmd' → cmd = cmd' := by
  decide

theorem allowed_not_dangerous : ∀ cmd ∈ productionAllowedCommands, cmd ∉ dangerousCommands := by
  decide

theorem judgeProduction_of_dangerous {cmd : List Str} (h : cmd ∈ dangerousCommands) :
    judgeProduction U cmd = .error ⟨.dangerousCommandError, str "command " ++ commandRepr U cmd ++
      str " is unconditionally prohibited in production validation"⟩ := if_pos h

theorem judgeProduction_of_allowed {cmd : List Str} (h : cmd ∈ productionAllowedCommands) :
    judgeProduction U cmd = .ok () := by
  unfold judgeProduction
  rw [if_neg (allowed_not_dangerous cmd h), if_neg (not_not.mpr h)]

theorem judgeProduction_of_unlisted {cmd : List Str}
    (h : ¬(cmd ∈ dangerousCommands ∨ cmd ∈ productionAllowedCommands)) :
    judgeProduction U cmd = .error ⟨.prohibitedCommandError, str "command " ++ commandRepr U cmd ++
      str " is not on the production validation allowlist ['ACL WHOAMI', 'INFO', 'PING']"⟩ := by
  unfold judgeProduction
  rw [if_neg fun hd => h (.inl hd), if_pos fun ha => h (.inr ha)]

/-- The texts are the same, and so is whether they are on a list. -/
def SameText (cmd cmd' : List Str) : Prop :=
  (str " ").intercalate cmd = (str " ").intercalate cmd' ∧
    ((cmd ∈ dangerousCommands ∨ cmd ∈ productionAllowedCommands) ↔
      (cmd' ∈ dangerousCommands ∨ cmd' ∈ productionAllowedCommands))

/-- Two commands that the production gate answers alike. -/
theorem judgeProduction_inj (hrepr : Function.Injective U.repr) {cmd cmd' : List Str}
    (h : judgeProduction U cmd = judgeProduction U cmd') : SameText cmd cmd' ∨
      cmd ∈ productionAllowedCommands ∧ cmd' ∈ productionAllowedCommands := by
  have hclass : ∀ {m m' : Str}, (⟨.dangerousCommandError, m⟩ : SafetyError) ≠
      ⟨.prohibitedCommandError, m'⟩ := fun h => nomatch congrArg SafetyError.cls h
  by_cases hd : cmd ∈ dangerousCommands
  · rw [judgeProduction_of_dangerous hd] at h
    by_cases hd' : cmd' ∈ dangerousCommands
    · rw [judgeProduction_of_dangerous hd'] at h
      exact .inl ⟨message_inj hrepr (Except.error.inj h), iff_of_true (.inl hd) (.inl hd')⟩
    · by_cases ha' : cmd' ∈ productionAllowedCommands
      · rw [judgeProduction_of_allowed ha'] at h
        cases h
      · rw [judgeProduction_of_unlisted (not_or.mpr ⟨hd', ha'⟩)] at h
        exact absurd (Except.error.inj h) hclass
  · by_cases ha : cmd ∈ productionAllowedCommands
    · rw [judgeProduction_of_allowed ha] at h
      by_cases ha' : cmd' ∈ productionAllowedCommands
      · exact .inr ⟨ha, ha'⟩
      · unfold judgeProduction at h
        rw [if_pos ha'] at h
        split_ifs at h
    · rw [judgeProduction_of_unlisted (not_or.mpr ⟨hd, ha⟩)] at h
      by_cases hd' : cmd' ∈ dangerousCommands
      · rw [judgeProduction_of_dangerous hd'] at h
        exact absurd (Except.error.inj h).symm hclass
      · by_cases ha' : cmd' ∈ productionAllowedCommands
        · rw [judgeProduction_of_allowed ha'] at h
          cases h
        · have hunlisted' := not_or.mpr ⟨hd', ha'⟩
          rw [judgeProduction_of_unlisted hunlisted'] at h
          exact .inl ⟨message_inj hrepr (Except.error.inj h),
            iff_of_false (not_or.mpr ⟨hd, ha⟩) hunlisted'⟩

/-- Commands of the same text, on a list or not, are answered alike. -/
theorem SameText.judged {cmd cmd' : List Str} (h : SameText cmd cmd') :
    judgeProduction U cmd = judgeProduction U cmd' ∧
      judgeDisposable U cmd = judgeDisposable U cmd' := by
  obtain ⟨htext, hlisted⟩ := h
  by_cases hl : cmd ∈ dangerousCommands ∨ cmd ∈ productionAllowedCommands
  · obtain rfl : cmd = cmd' :=
      listed_inj cmd (List.mem_append.mpr hl) cmd' (List.mem_append.mpr (hlisted.mp hl)) htext
    exact ⟨rfl, rfl⟩
  · have hl' := fun h' => hl (hlisted.mpr h')
    have hrepr : commandRepr U cmd = commandRepr U cmd' := by
      unfold commandRepr
      rw [htext]
    constructor
    · rw [judgeProduction_of_unlisted hl, judgeProduction_of_unlisted hl', hrepr]
    · unfold judgeDisposable
      rw [if_neg fun hd => hl (.inl hd), if_neg fun hd => hl' (.inl hd)]

theorem judgeDisposable_of_allowed {cmd : List Str} (h : cmd ∈ productionAllowedCommands) :
    judgeDisposable U cmd = .ok () := if_neg (allowed_not_dangerous cmd h)

/-! ## Which pairs are answered alike -/

/-- The gate reads the same text in both, which is on a list for both or for neither. -/
def ReadAlike (U : Unicode) (args args' : List Arg) : Prop :=
  commandText U args = commandText U args' ∧ (Listed U args ↔ Listed U args')

/-- Whatever is sent, the gates answer two sequences alike exactly if they read them alike or both
are on the allowlist. -/
theorem gatesAgree_iff (hrepr : Function.Injective U.repr) (args args' : List Arg) :
    GatesAgree U args args' ↔
      ReadAlike U args args' ∨ Allowlisted U args ∧ Allowlisted U args' := by
  unfold GatesAgree ReadAlike commandText Listed Allowlisted
  rw [authorizeProduction_eq, authorizeProduction_eq, authorizeDisposable_eq,
    authorizeDisposable_eq]
  cases hn : normalizeCommand U args with
  | error e =>
    obtain rfl := normalizeCommand_eq_error hn
    cases hn' : normalizeCommand U args' with
    | error e' =>
      obtain rfl := normalizeCommand_eq_error hn'
      simp
    | ok cmd' =>
      constructor
      · exact fun h => absurd h.1.symm (judgeProduction_ne_empty cmd')
      · rintro (h | h)
        · cases h.1
        · obtain ⟨_, h, -⟩ := h.1
          cases h
  | ok cmd =>
    cases hn' : normalizeCommand U args' with
    | error e' =>
      obtain rfl := normalizeCommand_eq_error hn'
      constructor
      · exact fun h => absurd h.1 (judgeProduction_ne_empty cmd)
      · rintro (h | h)
        · cases h.1
        · obtain ⟨_, h, -⟩ := h.2
          cases h
    | ok cmd' =>
      have hsame : ((Except.ok cmd : Except SafetyError _).map (str " ").intercalate =
          (Except.ok cmd').map (str " ").intercalate ∧
          ((∃ c, Except.ok (ε := SafetyError) cmd = .ok c ∧
            (c ∈ dangerousCommands ∨ c ∈ productionAllowedCommands)) ↔
          ∃ c, Except.ok (ε := SafetyError) cmd' = .ok c ∧
            (c ∈ dangerousCommands ∨ c ∈ productionAllowedCommands))) ↔ SameText cmd cmd' := by
        simp [SameText, Except.map]
      rw [hsame, ok_bind, ok_bind, ok_bind, ok_bind]
      constructor
      · rintro ⟨h, -⟩
        rcases judgeProduction_inj hrepr h with h | ⟨ha, ha'⟩
        · exact .inl h
        · exact .inr ⟨⟨cmd, rfl, ha⟩, ⟨cmd', rfl, ha'⟩⟩
      · rintro (h | ⟨⟨_, h, ha⟩, ⟨_, h', ha'⟩⟩)
        · exact h.judged
        · cases h
          cases h'
          rw [judgeProduction_of_allowed ha, judgeProduction_of_allowed ha',
            judgeDisposable_of_allowed ha, judgeDisposable_of_allowed ha']
          exact ⟨rfl, rfl⟩

/-- **Gate errors reveal no argument**: two sequences that are sent as the same command with
other arguments are answered alike, exactly if the first argument of each is sent as one word, or
the gate reads the same text in both, or both are on the allowlist. -/
theorem gate_errors_iff (hrepr : Function.Injective U.repr) {args args' : List Arg}
    {ws ws' : List (List (Fin 256))} (hpack : packCommand args = some ws)
    (hpack' : packCommand args' = some ws') (hsame : SameCommand U ws ws') :
    GatesAgree U args args' ↔ (OneWord args ∧ OneWord args') ∨ ReadAlike U args args' ∨
      Allowlisted U args ∧ Allowlisted U args' := by
  rw [gatesAgree_iff hrepr]
  refine ⟨.inr, ?_⟩
  rintro (⟨hone, hone'⟩ | h)
  · left
    have hnorm : normalizeCommand U args = normalizeCommand U args' := by
      rw [← normalizeCommand_wire U hpack hone, ← normalizeCommand_wire U hpack' hone']
      exact hsame
    unfold ReadAlike commandText Listed
    rw [hnorm]
    exact ⟨rfl, Iff.rfl⟩
  · exact h

namespace Sample

/-- A password given with its command in one string. -/
def login (password : String) : List Arg := [.str (str ("AUTH " ++ password))]

/-- The same, sent as two words. -/
def loginWords (password : String) : List (List (Fin 256)) :=
  [utf8Bytes (str "AUTH"), utf8Bytes (str password)]

end Sample

/-- A password that is given with its command in one string is in the error. -/
theorem gate_errors_show_password : ¬∀ (U : Unicode), Function.Injective U.repr →
    ∀ (args args' : List Arg) (ws ws' : List (List (Fin 256))), packCommand args = some ws →
      packCommand args' = some ws' → SameCommand U ws ws' → GatesAgree U args args' := by
  intro h
  have hagree := h Sample.unicode Function.injective_id (Sample.login "hunter1")
    (Sample.login "hunter2") (Sample.loginWords "hunter1") (Sample.loginWords "hunter2")
    (by decide) (by decide) (by unfold SameCommand; decide)
  exact absurd hagree.1 (by decide)

theorem gate_errors_iff_login :
    GatesAgree Sample.unicode [.str (str "AUTH"), .str (str "hunter1")]
        [.str (str "AUTH"), .str (str "hunter2")] ↔
      (OneWord [.str (str "AUTH"), .str (str "hunter1")] ∧
        OneWord [.str (str "AUTH"), .str (str "hunter2")]) ∨
      ReadAlike Sample.unicode [.str (str "AUTH"), .str (str "hunter1")]
        [.str (str "AUTH"), .str (str "hunter2")] ∨
      Allowlisted Sample.unicode [.str (str "AUTH"), .str (str "hunter1")] ∧
        Allowlisted Sample.unicode [.str (str "AUTH"), .str (str "hunter2")] :=
  gate_errors_iff Function.injective_id
    (show packCommand _ = some (Sample.loginWords "hunter1") by decide)
    (show packCommand _ = some (Sample.loginWords "hunter2") by decide)
    (show SameCommand _ _ _ by unfold SameCommand; decide)

end RedisAcl

end SecurityAudit
