import SecurityAudit.Binary64.Repr

/-!
# JSON values

What `json.loads` returns: `None`, `bool`, `int`, `float`, `str`, `list` and `dict`. A `dict`
is its items in insertion order. `sortKeys` puts the items of every object in key order, so
two values are the same JSON value up to key order exactly when `sortKeys` makes them equal;
`SameJson` is that relation.

`WellFormed` collects what every value read from UTF-8 text has and the type cannot say:
the keys of an object are distinct, no string has a high surrogate directly before a low one
(such a pair is one code point, and a reader joins it), and no integer has more digits than
the interpreter converts.
-/

namespace SecurityAudit

/-- A JSON value. -/
inductive JVal where
  | null
  | bool (b : Bool)
  | int (n : ℤ)
  | float (x : PyFloat)
  | str (s : Str)
  | arr (xs : List JVal)
  | obj (kvs : List (Str × JVal))

namespace JVal

/-- Induction with the hypothesis on the elements of arrays and the members of objects. -/
@[elab_as_elim]
theorem induct {P : JVal → Prop} (null : P .null) (bool : ∀ b, P (.bool b)) (int : ∀ n, P (.int n))
    (float : ∀ x, P (.float x)) (str : ∀ s, P (.str s))
    (arr : ∀ xs, (∀ x ∈ xs, P x) → P (.arr xs))
    (obj : ∀ kvs : List (Str × JVal), (∀ kv ∈ kvs, P kv.2) → P (.obj kvs)) : ∀ v, P v := by
  intro v
  refine JVal.rec (motive_1 := P) (motive_2 := fun xs => ∀ x ∈ xs, P x)
    (motive_3 := fun kvs => ∀ kv ∈ kvs, P kv.2) (motive_4 := fun kv => P kv.2)
    null bool int float str arr obj ?_ ?_ ?_ ?_ ?_ v
  · simp
  · intro x xs hx hxs y hy
    rcases List.mem_cons.mp hy with rfl | hy
    · exact hx
    · exact hxs y hy
  · simp
  · intro kv kvs hkv hkvs y hy
    rcases List.mem_cons.mp hy with rfl | hy
    · exact hkv
    · exact hkvs y hy
  · exact fun _ _ h => h

/-- `d.get(key)` on the items of a `dict`; `none` is a missing key. -/
def lookup (key : Str) (kvs : List (Str × JVal)) : Option JVal :=
  (kvs.find? fun kv => kv.1 = key).map Prod.snd

/-- `d[key] = value`: an existing key keeps its place, a new one goes to the end. -/
def dictSet (key : Str) (value : JVal) : List (Str × JVal) → List (Str × JVal)
  | [] => [(key, value)]
  | kv :: kvs => if kv.1 = key then (key, value) :: kvs else kv :: dictSet key value kvs

/-- The `dict` a sequence of assignments builds. -/
def dictOf (pairs : List (Str × JVal)) : List (Str × JVal) :=
  pairs.foldl (fun d kv => dictSet kv.1 kv.2 d) []

/-- Items in the order of their keys. Python compares strings by code point. -/
abbrev keyLe {α : Type} (a b : Str × α) : Prop := a.1 ≤ b.1

/-- `sorted(d.items())`; the keys are distinct, so the values are never compared. -/
def sortItems {α : Type} (kvs : List (Str × α)) : List (Str × α) := kvs.insertionSort keyLe

mutual

/-- The value with the items of every object in key order. -/
def sortKeys : JVal → JVal
  | .arr xs => .arr (sortKeysList xs)
  | .obj kvs => .obj (sortItems (sortKeysItems kvs))
  | .null => .null
  | .bool b => .bool b
  | .int n => .int n
  | .float x => .float x
  | .str s => .str s

def sortKeysList : List JVal → List JVal
  | [] => []
  | x :: xs => sortKeys x :: sortKeysList xs

def sortKeysItems : List (Str × JVal) → List (Str × JVal)
  | [] => []
  | (k, v) :: kvs => (k, sortKeys v) :: sortKeysItems kvs

end

/-- The same JSON value up to the order of keys at every level. -/
def SameJson (a b : JVal) : Prop := a.sortKeys = b.sortKeys

/-- `U+D800 .. U+DBFF`. -/
def isHigh (c : CodePoint) : Bool := decide (0xD800 ≤ c.val ∧ c.val ≤ 0xDBFF)

/-- `U+DC00 .. U+DFFF`. -/
def isLow (c : CodePoint) : Bool := decide (0xDC00 ≤ c.val ∧ c.val ≤ 0xDFFF)

/-- No high surrogate stands directly before a low one. -/
def NoPair (s : Str) : Prop := List.IsChain (fun a b => ¬(isHigh a = true ∧ isLow b = true)) s

/-- `sys.get_int_max_str_digits()`. -/
def maxStrDigits : ℕ := 4300

/-- What every value read from UTF-8 text has. -/
inductive WellFormed : JVal → Prop where
  | null : WellFormed .null
  | bool (b : Bool) : WellFormed (.bool b)
  | int {n : ℤ} (h : (natText n.natAbs).length ≤ maxStrDigits) : WellFormed (.int n)
  | float (x : PyFloat) : WellFormed (.float x)
  | str {s : Str} (h : NoPair s) : WellFormed (.str s)
  | arr {xs : List JVal} (h : ∀ x ∈ xs, WellFormed x) : WellFormed (.arr xs)
  | obj {kvs : List (Str × JVal)} (distinct : (kvs.map Prod.fst).Nodup)
      (keys : ∀ kv ∈ kvs, NoPair kv.1) (values : ∀ kv ∈ kvs, WellFormed kv.2) :
      WellFormed (.obj kvs)

/-! ## Key order -/

theorem sortKeysList_eq (xs : List JVal) : sortKeysList xs = xs.map sortKeys := by
  induction xs with
  | nil => rfl
  | cons x xs ih => rw [sortKeysList, ih, List.map_cons]

theorem sortKeysItems_eq (kvs : List (Str × JVal)) :
    sortKeysItems kvs = kvs.map fun kv => (kv.1, sortKeys kv.2) := by
  induction kvs with
  | nil => rfl
  | cons kv kvs ih => rw [sortKeysItems, ih, List.map_cons]

@[simp] theorem sortKeys_arr (xs : List JVal) : sortKeys (.arr xs) = .arr (xs.map sortKeys) := by
  rw [sortKeys, sortKeysList_eq]

theorem sortItems_perm {α : Type} (kvs : List (Str × α)) : (sortItems kvs).Perm kvs :=
  List.perm_insertionSort _ _

theorem sortItems_sorted {α : Type} (kvs : List (Str × α)) : (sortItems kvs).Pairwise keyLe := by
  have htotal : Std.Total (keyLe (α := α)) := ⟨fun a b => le_total a.1 b.1⟩
  have htrans : IsTrans (Str × α) keyLe := ⟨fun _ _ _ h₁ h₂ => le_trans h₁ h₂⟩
  exact List.pairwise_insertionSort _ _

theorem sortItems_keys {α β : Type} (f : α → β) (kvs : List (Str × α)) :
    sortItems (kvs.map fun kv => (kv.1, f kv.2)) = (sortItems kvs).map fun kv => (kv.1, f kv.2) :=
  (List.map_insertionSort keyLe keyLe (fun kv : Str × α => (kv.1, f kv.2)) kvs
    fun _ _ _ _ => Iff.rfl).symm

@[simp] theorem sortKeys_obj (kvs : List (Str × JVal)) :
    sortKeys (.obj kvs) = .obj ((sortItems kvs).map fun kv => (kv.1, sortKeys kv.2)) := by
  rw [sortKeys, sortKeysItems_eq, sortItems_keys]

theorem SameJson.refl (a : JVal) : SameJson a a := rfl

theorem SameJson.symm {a b : JVal} (h : SameJson a b) : SameJson b a := Eq.symm h

theorem SameJson.trans {a b c : JVal} (h : SameJson a b) (h' : SameJson b c) : SameJson a c :=
  Eq.trans h h'

/-! ## Dictionaries -/

theorem dictSet_of_not_mem {key : Str} {value : JVal} {kvs : List (Str × JVal)}
    (h : key ∉ kvs.map Prod.fst) : dictSet key value kvs = kvs ++ [(key, value)] := by
  induction kvs with
  | nil => rfl
  | cons kv kvs ih =>
    simp only [List.map_cons, List.mem_cons, not_or] at h
    rw [dictSet, if_neg (Ne.symm h.1), ih h.2, List.cons_append]

/-- Assignments to distinct keys build just these items. -/
theorem dictOf_of_nodup {kvs : List (Str × JVal)} (h : (kvs.map Prod.fst).Nodup) :
    dictOf kvs = kvs := by
  induction kvs using List.reverseRecOn with
  | nil => rfl
  | append_singleton kvs kv ih =>
    rw [List.map_append, List.nodup_append] at h
    have hnot : kv.1 ∉ kvs.map Prod.fst := fun hk => h.2.2 _ hk kv.1 (by simp) rfl
    have hprefix := ih h.1
    rw [dictOf] at hprefix ⊢
    rw [List.foldl_append, hprefix, List.foldl_cons, List.foldl_nil, dictSet_of_not_mem hnot]

end JVal

end SecurityAudit
