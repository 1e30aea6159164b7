import SecurityAudit.Prog.Except
import SecurityAudit.Text.Utf8Bytes

/-!
# Commands and gates: `scripts/redis_acl_safety.py`

The gates judge a command by its normalised name, `_normalize_command`; redis-py packs the same
arguments by its own rule, `packCommand`; and the server compares the names it receives with the
names it knows. The three readings are defined here one after the other.

What Python's tables of Unicode say beyond ASCII is left open (`Unicode`): to which text a code
point is upper-cased, and how `repr` prints a text.
-/

namespace SecurityAudit

namespace RedisAcl

/-! ## Python's text -/

/-- The upper case of an ASCII letter. -/
def asciiUpper (c : CodePoint) : CodePoint :=
  if 97 ≤ c.val ∧ c.val ≤ 122 then ⟨c.val - 32, by omega⟩ else c

/-- `str.upper` of one code point, and `repr`. -/
structure Unicode where
  upper : CodePoint → Str
  repr : Str → Str
  upper_ascii : ∀ c, c.val < 0x80 → upper c = [asciiUpper c]

/-- `s.upper()`. -/
def Unicode.upperText (U : Unicode) (s : Str) : Str := s.flatMap U.upper

/-- `c.isspace()`. -/
def isSpace (c : CodePoint) : Bool :=
  decide ((9 ≤ c.val ∧ c.val ≤ 13) ∨ (0x1C ≤ c.val ∧ c.val ≤ 0x20) ∨ c.val = 0x85 ∨ c.val = 0xA0 ∨
    c.val = 0x1680 ∨ (0x2000 ≤ c.val ∧ c.val ≤ 0x200A) ∨ c.val = 0x2028 ∨ c.val = 0x2029 ∨
    c.val = 0x202F ∨ c.val = 0x205F ∨ c.val = 0x3000)

/-- The whitespace of `bytes.split`, a byte or a code point by its number. -/
def isAsciiSpace (n : ℕ) : Bool := decide ((9 ≤ n ∧ n ≤ 13) ∨ n = 32)

/-- An argument of a command. -/
inductive Arg where
  | str (s : Str)
  | bytes (b : List (Fin 256))

/-- The argument as text: `a.decode("utf-8", errors="replace")` of bytes. -/
def Arg.text : Arg → Str
  | .str s => s
  | .bytes b => decodeReplace b

/-! ## Errors -/

/-- The error classes of the module. -/
inductive ErrorClass where
  | redisSafetyError
  | environmentClassificationError
  | authenticationFailedError
  | identityMismatchError
  | prohibitedCommandError
  | dangerousCommandError
deriving DecidableEq

/-- An error of the module. -/
structure SafetyError where
  cls : ErrorClass
  message : Str
deriving DecidableEq

/-! ## `_normalize_command` -/

/-- `_KNOWN_SUBCOMMAND_PREFIXES`. -/
def knownSubcommandPrefixes : List Str :=
  [str "ACL", str "CONFIG", str "CLIENT", str "XGROUP", str "XINFO", str "SCRIPT", str "FUNCTION",
    str "MODULE", str "COMMAND", str "CLUSTER", str "LATENCY", str "SLOWLOG", str "MEMORY",
    str "OBJECT", str "PUBSUB"]

/-- `DANGEROUS_COMMANDS`. -/
def dangerousCommands : List (List Str) :=
  [[str "FLUSHALL"], [str "FLUSHDB"], [str "SHUTDOWN"], [str "DEBUG"],
    [str "CONFIG", str "SET"],
    [str "ACL", str "SETUSER"], [str "ACL", str "DELUSER"], [str "ACL", str "LOAD"],
    [str "ACL", str "SAVE"], [str "ACL", str "LOG"],
    [str "MODULE", str "LOAD"], [str "MODULE", str "UNLOAD"],
    [str "MIGRATE"], [str "RESTORE"], [str "RESTORE-ASKING"], [str "SWAPDB"],
    [str "REPLICAOF"], [str "SLAVEOF"]]

/-- `PRODUCTION_ALLOWED_COMMANDS`. -/
def productionAllowedCommands : List (List Str) :=
  [[str "PING"], [str "ACL", str "WHOAMI"], [str "INFO"]]

variable (U : Unicode)

def emptyCommand : SafetyError :=
  ⟨.prohibitedCommandError, str "refusing to authorize an empty command"⟩

/-- `str(a).strip().upper()`. -/
def part (a : Arg) : Str := U.upperText (strip isSpace a.text)

/-- `_normalize_command`. -/
def normalizeCommand (args : List Arg) : Except SafetyError (List Str) :=
  match args.map (part U) with
  | [] => .error emptyCommand
  | [] :: _ => .error emptyCommand
  | [name] => .ok [name]
  | name :: sub :: _ => if name ∈ knownSubcommandPrefixes then .ok [name, sub] else .ok [name]

/-- `' '.join(cmd)!r`. -/
def commandRepr (cmd : List Str) : Str := U.repr ((str " ").intercalate cmd)

/-! ## The gates -/

/-- `ProductionValidator.authorize`. -/
def authorizeProduction (args : List Arg) : Except SafetyError Unit := do
  let cmd ← normalizeCommand U args
  if cmd ∈ dangerousCommands then
    .error ⟨.dangerousCommandError, str "command " ++ commandRepr U cmd ++
      str " is unconditionally prohibited in production validation"⟩
  else if cmd ∉ productionAllowedCommands then
    .error ⟨.prohibitedCommandError, str "command " ++ commandRepr U cmd ++
      str " is not on the production validation allowlist ['ACL WHOAMI', 'INFO', 'PING']"⟩
  else .ok ()

/-- `DisposableValidator.authorize`. -/
def authorizeDisposable (args : List Arg) : Except SafetyError Unit := do
  let cmd ← normalizeCommand U args
  if cmd ∈ dangerousCommands then
    .error ⟨.dangerousCommandError, str "command " ++ commandRepr U cmd ++
      str (" is on the hard denylist; use DisposableNegativeTestGate if a test specifically " ++
        "needs to prove Redis's own ACL denies this command to a restricted identity")⟩
  else .ok ()

/-- `DisposableNegativeTestGate.authorize`. -/
def authorizeNegativeTest (args : List Arg) : Except SafetyError Unit := do
  let _ ← normalizeCommand U args
  .ok ()

/-- The gates. -/
inductive Gate where
  | productionValidator
  | disposableValidator
  | disposableNegativeTestGate
deriving DecidableEq

/-- `gate.authorize(args)`. -/
def Gate.authorize : Gate → List Arg → Except SafetyError Unit
  | .productionValidator => authorizeProduction U
  | .disposableValidator => authorizeDisposable U
  | .disposableNegativeTestGate => authorizeNegativeTest U

/-! ## What redis-py sends -/

/-- An argument as it is sent; `none` where `str.encode` raises. -/
def Arg.wire : Arg → Option (List (Fin 256))
  | .str s => (encode? s).map fun u => utf8Bytes u.text
  | .bytes b => some b

/-- The words redis-py puts on the wire for `execute_command(*args)`: those of the first argument,
split on ASCII whitespace, and the other arguments as they are. Where an argument cannot be
encoded, nothing is sent. -/
def packCommand : List Arg → Option (List (List (Fin 256)))
  | [] => none
  | a :: rest => do
    let first ← a.wire
    let others ← rest.mapM Arg.wire
    return words (fun b => isAsciiSpace b.val) first ++ others

/-! ## What the server recognises -/

/-- The server's comparison of a word with a name it knows: exact but for the case of ASCII
letters. -/
def Spells (word : List (Fin 256)) (name : Str) : Prop :=
  word.map (fun b => if 97 ≤ b.val ∧ b.val ≤ 122 then b.val - 32 else b.val) = name.map Fin.val

instance (word : List (Fin 256)) (name : Str) : Decidable (Spells word name) :=
  inferInstanceAs (Decidable (_ = _))

/-- The words begin with this command: its name, or its name and subcommand. -/
def Begins (ws : List (List (Fin 256))) (cmd : List Str) : Prop :=
  List.Forall₂ Spells (ws.take cmd.length) cmd

instance (ws : List (List (Fin 256))) (cmd : List Str) : Decidable (Begins ws cmd) :=
  inferInstanceAs (Decidable (List.Forall₂ _ _ _))

/-- The words are a command on the denylist. -/
def Dangerous (ws : List (List (Fin 256))) : Prop := ∃ cmd ∈ dangerousCommands, Begins ws cmd

instance (ws : List (List (Fin 256))) : Decidable (Dangerous ws) :=
  inferInstanceAs (Decidable (∃ cmd ∈ _, _))

/-- A visible ASCII character. -/
def isVisible (c : CodePoint) : Bool := decide (33 ≤ c.val ∧ c.val ≤ 126)

/-- A command name, or a name and a subcommand, of visible ASCII characters. -/
def IsCommand (cmd : List Str) : Prop :=
  (cmd.length = 1 ∨ cmd.length = 2) ∧ ∀ name ∈ cmd, name.all isVisible = true

instance (cmd : List Str) : Decidable (IsCommand cmd) := inferInstanceAs (Decidable (_ ∧ _))

end RedisAcl

end SecurityAudit
