import SecurityAudit.Json.Reading

/-!
# JSON as it is

`JsonNative` is what JSON has and nothing more: of a Python value of these types, neither
`json.dumps` nor `json.loads` changes anything. The interpreter converts integers of a limited
number of digits only; `intsFit` says that all of a value are within the limit.
-/

namespace SecurityAudit

namespace JVal

mutual

/-- Every integer has few enough digits for the interpreter to convert it to text. -/
def intsFit : JVal → Bool
  | .int n => decide ((natText n.natAbs).length ≤ maxStrDigits)
  | .arr xs => intsFitList xs
  | .obj kvs => intsFitItems kvs
  | .null => true
  | .bool _ => true
  | .float _ => true
  | .str _ => true

def intsFitList : List JVal → Bool
  | [] => true
  | x :: xs => intsFit x && intsFitList xs

def intsFitItems : List (Str × JVal) → Bool
  | [] => true
  | (_, v) :: kvs => intsFit v && intsFitItems kvs

end

/-- JSON as it is: finite numbers, Unicode text, objects with distinct keys. -/
inductive JsonNative : JVal → Prop where
  | null : JsonNative .null
  | bool (b : Bool) : JsonNative (.bool b)
  | int (n : ℤ) : JsonNative (.int n)
  | float (neg : Bool) (mag : Binary64) : JsonNative (.float (.finite neg mag))
  | str {s : Str} (h : Clean s) : JsonNative (.str s)
  | arr {xs : List JVal} (h : ∀ x ∈ xs, JsonNative x) : JsonNative (.arr xs)
  | obj {kvs : List (Str × JVal)} (distinct : (kvs.map Prod.fst).Nodup)
      (keys : ∀ kv ∈ kvs, Clean kv.1) (values : ∀ kv ∈ kvs, JsonNative kv.2) :
      JsonNative (.obj kvs)

theorem Clean.noPair {s : Str} (h : Clean s) : NoPair s := by
  induction s with
  | nil => exact .nil
  | cons c s ih =>
    refine List.IsChain.cons (ih fun d hd => h d (by simp [hd])) fun d _ hd => ?_
    have hc := isSurrogate_of_isHigh hd.1
    rw [h c (by simp)] at hc
    cases hc

theorem intsFitList_eq_true {xs : List JVal} :
    intsFitList xs = true ↔ ∀ x ∈ xs, intsFit x = true := by
  induction xs with
  | nil => simp [intsFitList]
  | cons x xs ih => rw [intsFitList, Bool.and_eq_true, ih, List.forall_mem_cons]

theorem intsFitItems_eq_true {kvs : List (Str × JVal)} :
    intsFitItems kvs = true ↔ ∀ kv ∈ kvs, intsFit kv.2 = true := by
  induction kvs with
  | nil => simp [intsFitItems]
  | cons kv kvs ih => rw [intsFitItems, Bool.and_eq_true, ih, List.forall_mem_cons]

/-- JSON that can be printed is well-formed. -/
theorem JsonNative.wellFormed {v : JVal} (h : JsonNative v) (hfit : intsFit v = true) :
    WellFormed v := by
  induction h with
  | null => exact .null
  | bool b => exact .bool b
  | int n =>
    rw [intsFit, decide_eq_true_eq] at hfit
    exact .int hfit
  | float neg mag => exact .float _
  | str h => exact .str h.noPair
  | arr _ ih =>
    rw [intsFit, intsFitList_eq_true] at hfit
    exact .arr fun x hx => ih x hx (hfit x hx)
  | obj distinct keys _ ih =>
    rw [intsFit, intsFitItems_eq_true] at hfit
    exact .obj distinct (fun kv hkv => (keys kv hkv).noPair) fun kv hkv => ih kv hkv (hfit kv hkv)

/-- What was read can be printed. -/
theorem WellFormed.intsFit {v : JVal} (h : WellFormed v) : v.intsFit = true := by
  induction h with
  | null => rfl
  | bool b => rfl
  | int hn =>
    rw [JVal.intsFit]
    exact decide_eq_true hn
  | float x => rfl
  | str hs => rfl
  | arr _ ih =>
    rw [JVal.intsFit]
    exact intsFitList_eq_true.mpr ih
  | obj _ _ _ ih =>
    rw [JVal.intsFit]
    exact intsFitItems_eq_true.mpr ih

end JVal

end SecurityAudit
