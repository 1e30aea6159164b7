import SecurityAudit.Json.Dumps

/-!
# `json.loads(text)`

The scanner of CPython's `json`, which accepts more than RFC 8259: `NaN`, `Infinity` and
`-Infinity` are values, a lone `\ud800` escape is a string of one surrogate, and a key that
comes twice keeps the place of its first and the value of its last occurrence.

A string literal is scanned in two steps. `scanUnits` reads units, each remembering whether
it was written as itself or by a `\uXXXX` escape; `joinSurrogates` then joins an escaped high
surrogate with an escaped low one right after it. `scanValue` and `scanMembers` recurse on a
fuel argument that the length of the text always covers (`scanValue_fuel`).

Two limits of the interpreter bear on what can be read. The one on the digits of an integer is
`maxStrDigits`; the one on how deep values nest, where CPython raises `RecursionError`, is outside
the model, here and in `dumps`, and so are pydantic's own in `model_dump` and `model_validate`.
-/

namespace SecurityAudit

namespace JVal

/-- What `json.loads` raises: a `JSONDecodeError`, or the plain `ValueError` of an integer
literal with too many digits. -/
inductive LoadsError where
  | decode
  | intTooLong
deriving DecidableEq

/-- A scanner's result: what it read and what is left. -/
abbrev Scan (α : Type) : Type := Except LoadsError (α × Str)

/-- The whitespace JSON allows between tokens. -/
def isWs (c : CodePoint) : Bool :=
  decide (c = cp ' ' ∨ c = cp '\t' ∨ c = cp '\n' ∨ c = cp '\r')

def skipWs (s : Str) : Str := s.dropWhile isWs

/-! ## String literals -/

/-- A unit of a string literal: a code point, and whether a `\uXXXX` escape wrote it. -/
structure LitUnit where
  point : CodePoint
  escaped : Bool

/-- The code point `\uabcd` names. -/
def hex4? (a b c d : CodePoint) : Option CodePoint :=
  match hexVal? a, hexVal? b, hexVal? c, hexVal? d with
  | some a, some b, some c, some d => some (Fin.ofNat _ (a * 4096 + b * 256 + c * 16 + d))
  | _, _, _, _ => none

/-- The code point of a two-character escape. -/
def simpleEscape? (c : CodePoint) : Option CodePoint :=
  if c = cp '"' then some (cp '"')
  else if c = cp '\\' then some (cp '\\')
  else if c = cp '/' then some (cp '/')
  else if c = cp 'b' then some ⟨0x08, by omega⟩
  else if c = cp 'f' then some ⟨0x0C, by omega⟩
  else if c = cp 'n' then some (cp '\n')
  else if c = cp 'r' then some (cp '\r')
  else if c = cp 't' then some (cp '\t')
  else none

/-- Scan a string literal from after its opening quote to after its closing one. Control
characters have to be escaped. -/
def scanUnits : Str → Scan (List LitUnit)
  | [] => .error .decode
  | c :: rest =>
    if c = cp '"' then .ok ([], rest)
    else if c = cp '\\' then
      match rest with
      | [] => .error .decode
      | e :: rest =>
        if e = cp 'u' then
          match rest with
          | h₁ :: h₂ :: h₃ :: h₄ :: rest =>
            match hex4? h₁ h₂ h₃ h₄ with
            | none => .error .decode
            | some p => (scanUnits rest).map fun r => (⟨p, true⟩ :: r.1, r.2)
          | _ => .error .decode
        else
          match simpleEscape? e with
          | none => .error .decode
          | some p => (scanUnits rest).map fun r => (⟨p, false⟩ :: r.1, r.2)
    else if c.val < 0x20 then .error .decode
    else (scanUnits rest).map fun r => (⟨c, false⟩ :: r.1, r.2)

/-- The code point a surrogate pair stands for. -/
def joinPair (h l : CodePoint) : CodePoint :=
  Fin.ofNat _ (0x10000 + (h.val - 0xD800) * 0x400 + (l.val - 0xDC00))

/-- The text of a scanned literal. -/
def joinSurrogates : List LitUnit → Str
  | [] => []
  | [u] => [u.point]
  | u :: v :: us =>
    if u.escaped = true ∧ v.escaped = true ∧ isHigh u.point = true ∧ isLow v.point = true then
      joinPair u.point v.point :: joinSurrogates us
    else u.point :: joinSurrogates (v :: us)

def scanString (s : Str) : Scan Str := (scanUnits s).map fun r => (joinSurrogates r.1, r.2)

/-! ## Literals and numbers -/

/-- What is left of the text after `p`, if the text starts with `p`. -/
def afterPrefix? : Str → Str → Option Str
  | [], s => some s
  | _ :: _, [] => none
  | c :: p, d :: s => if c = d then afterPrefix? p s else none

/-- The named constants. -/
def literals : List (Str × JVal) :=
  [(SecurityAudit.str "null", .null), (SecurityAudit.str "true", .bool true),
    (SecurityAudit.str "false", .bool false), (SecurityAudit.str "NaN", .float .nan),
    (SecurityAudit.str "Infinity", .float (.infinity false)),
    (SecurityAudit.str "-Infinity", .float (.infinity true))]

def literal? (s : Str) : Option (JVal × Str) :=
  literals.findSome? fun l => (afterPrefix? l.1 s).map fun rest => (l.2, rest)

/-- The integer part of a number: `0`, or digits that do not start with `0`. -/
def scanInt : Str → Option (Str × Str)
  | [] => none
  | c :: s =>
    if c = digit 0 then some ([c], s)
    else if isDigit c = true then some (c :: s.takeWhile isDigit, s.dropWhile isDigit)
    else none

/-- The digits after the decimal point; none, and nothing consumed, where a point is not
followed by a digit. -/
def scanFrac : Str → Str × Str
  | p :: c :: s =>
    if p = cp '.' ∧ isDigit c = true then (c :: s.takeWhile isDigit, s.dropWhile isDigit)
    else ([], p :: c :: s)
  | s => ([], s)

/-- An optional sign. -/
def scanSign : Str → Bool × Str
  | [] => (false, [])
  | c :: s => if c = cp '-' then (true, s) else if c = cp '+' then (false, s) else (false, c :: s)

/-- The exponent; none, and nothing consumed, where `e` is not followed by a number. -/
def scanExp : Str → Option ℤ × Str
  | [] => (none, [])
  | c :: s =>
    if c = cp 'e' ∨ c = cp 'E' then
      let sign := scanSign s
      let ds := sign.2.takeWhile isDigit
      if ds = [] then (none, c :: s)
      else
        (some (if sign.1 then -natOfDigits ds else natOfDigits ds), sign.2.dropWhile isDigit)
    else (none, c :: s)

/-- `float(text)`; a literal beyond the largest double is an infinity. -/
def floatOf (neg : Bool) (l : DecLit) : PyFloat :=
  match l.magnitude with
  | some m => .finite neg m
  | none => .infinity neg

def scanNumber (s : Str) : Scan JVal :=
  let neg := decide (s.head? = some (cp '-'))
  match scanInt (if neg then s.tail else s) with
  | none => .error .decode
  | some (ip, r₁) =>
    let frac := scanFrac r₁
    let exp := scanExp frac.2
    if frac.1 = [] ∧ exp.1 = none then
      if ip.length ≤ maxStrDigits then
        .ok (.int (if neg then -natOfDigits ip else natOfDigits ip), exp.2)
      else .error .intTooLong
    else .ok (.float (floatOf neg ⟨ip, frac.1, exp.1⟩), exp.2)

/-! ## Values -/

/-- After an element or a member: the closing bracket ends the list, a comma goes on. -/
inductive After where
  | close (rest : Str)
  | comma (rest : Str)

/-- Read the closing bracket `stop` or a comma. -/
def scanAfter (stop : CodePoint) (s : Str) : Except LoadsError After :=
  match skipWs s with
  | [] => .error .decode
  | c :: rest =>
    if c = stop then .ok (.close rest)
    else if c = cp ',' then .ok (.comma (skipWs rest))
    else .error .decode

/-- A member's key and its colon, up to the value. -/
def scanKey : Str → Scan Str
  | [] => .error .decode
  | c :: s =>
    if c = cp '"' then
      match scanString s with
      | .error e => .error e
      | .ok (key, rest) =>
        match skipWs rest with
        | [] => .error .decode
        | d :: rest => if d = cp ':' then .ok (key, skipWs rest) else .error .decode
    else .error .decode

/-- A constant, or else a number. -/
def scanAtom (s : Str) : Scan JVal :=
  match literal? s with
  | some r => .ok r
  | none => scanNumber s

mutual

def scanValue : ℕ → Str → Scan JVal
  | 0, _ => .error .decode
  | _, [] => .error .decode
  | fuel + 1, c :: s =>
    if c = cp '"' then (scanString s).map fun r => (.str r.1, r.2)
    else if c = cp '{' then
      match skipWs s with
      | [] => .error .decode
      | d :: rest =>
        if d = cp '}' then .ok (.obj [], rest)
        else (scanMembers fuel (d :: rest)).map fun r => (.obj (dictOf r.1), r.2)
    else if c = cp '[' then
      match skipWs s with
      | [] => .error .decode
      | d :: rest =>
        if d = cp ']' then .ok (.arr [], rest)
        else (scanElements fuel (d :: rest)).map fun r => (.arr r.1, r.2)
    else scanAtom (c :: s)

def scanElements : ℕ → Str → Scan (List JVal)
  | 0, _ => .error .decode
  | fuel + 1, s =>
    match scanValue fuel s with
    | .error e => .error e
    | .ok (v, rest) =>
      match scanAfter (cp ']') rest with
      | .error e => .error e
      | .ok (.close rest) => .ok ([v], rest)
      | .ok (.comma rest) => (scanElements fuel rest).map fun r => (v :: r.1, r.2)

def scanMembers : ℕ → Str → Scan (List (Str × JVal))
  | 0, _ => .error .decode
  | fuel + 1, s =>
    match scanKey s with
    | .error e => .error e
    | .ok (key, rest) =>
      match scanValue fuel rest with
      | .error e => .error e
      | .ok (v, rest) =>
        match scanAfter (cp '}') rest with
        | .error e => .error e
        | .ok (.close rest) => .ok ([(key, v)], rest)
        | .ok (.comma rest) => (scanMembers fuel rest).map fun r => ((key, v) :: r.1, r.2)

end

/-- The fuel that is always enough for a text. -/
def scanFuel (s : Str) : ℕ := 2 * s.length + 2

/-- `json.loads(text)`. A byte order mark is refused, and nothing but whitespace may follow
the value. -/
def loads (s : Str) : Except LoadsError JVal :=
  if s.head?.map Fin.val = some 0xFEFF then .error .decode
  else
    match scanValue (scanFuel s) (skipWs s) with
    | .error e => .error e
    | .ok (v, rest) => if skipWs rest = [] then .ok v else .error .decode

example : (loads (SecurityAudit.str "[1, -0, [\"x\\n\" ]]")).toOption.map dumps =
    some (SecurityAudit.str "[1,0,[\"x\\n\"]]") := by decide +kernel

end JVal

end SecurityAudit
