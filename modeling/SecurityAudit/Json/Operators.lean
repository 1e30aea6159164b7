import SecurityAudit.Json.Dumps

/-!
# What Python's operators make of JSON values

`bool(v)`, `v == s` and `s in v` for a string `s`, and `str(v)`. The last is open for lists and
dictionaries, whose `repr` depends on Python's tables of printable code points.
-/

namespace SecurityAudit

/-- `x == 0.0`. -/
def PyFloat.isZero : PyFloat → Bool
  | .finite _ mag => decide (mag.mant = 0)
  | _ => false

/-- `str(x)`. -/
def PyFloat.shown : PyFloat → Str
  | .nan => str "nan"
  | .infinity false => str "inf"
  | .infinity true => str "-inf"
  | x => JVal.floatText x

namespace JVal

/-- `bool(v)`. -/
def truthy : JVal → Bool
  | .null => false
  | .bool b => b
  | .int n => decide (n ≠ 0)
  | .float x => !x.isZero
  | .str s => !s.isEmpty
  | .arr xs => !xs.isEmpty
  | .obj kvs => !kvs.isEmpty

/-- `v is None`. -/
def isNull : JVal → Bool
  | .null => true
  | _ => false

/-- `v == s`. -/
def isText (s : Str) : JVal → Bool
  | .str t => decide (t = s)
  | _ => false

/-- `s in v`. `none` is a `TypeError`. -/
def contains (s : Str) : JVal → Option Bool
  | .str t => some (decide (s <:+: t))
  | .arr xs => some (xs.any (isText s))
  | .obj kvs => some (lookup s kvs).isSome
  | _ => none

/-- `str(v)`, where `repr` prints lists and dictionaries. -/
def shown (repr : JVal → Str) : JVal → Str
  | .null => SecurityAudit.str "None"
  | .bool true => SecurityAudit.str "True"
  | .bool false => SecurityAudit.str "False"
  | .int n => intText n
  | .float x => x.shown
  | .str s => s
  | v => repr v

theorem isText_iff {s : Str} {v : JVal} : v.isText s = true ↔ v = .str s := by
  cases v <;> simp [isText]

theorem isNull_iff {v : JVal} : v.isNull = true ↔ v = .null := by
  cases v <;> simp [isNull]

/-- A list has the string as an element. -/
theorem any_isText_iff {s : Str} {xs : List JVal} : xs.any (isText s) = true ↔ .str s ∈ xs := by
  rw [List.any_eq_true]
  constructor
  · rintro ⟨v, hv, hs⟩
    rwa [← isText_iff.mp hs]
  · intro h
    exact ⟨_, h, isText_iff.mpr rfl⟩

end JVal

end SecurityAudit
