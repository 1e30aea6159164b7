import SecurityAudit.Json.Value

/-!
# `json.dumps`

`dumps` is `json.dumps(value, sort_keys=True, separators=(",", ":"))`, the printer with its other
defaults: `ensure_ascii=True`, so every code point outside `' ' .. '~'` is written as a `\uXXXX`
escape (two of them, a surrogate pair, above `U+FFFF`), and `allow_nan=True`. The output is
printable ASCII whatever the value, and it depends on the value only up to the order of keys.

`printed pad` keeps the order of keys and writes `pad` after each comma and colon. A blank for
`pad` makes it `json.dumps(value)`; with nothing for `pad` it is what `dumps` makes of a value
whose keys are in order.

The printer here does not raise. `intsFit` is the condition of the interpreter on integers, which
`jsonDumps` and `canonicalJsonText` test; its limit on nesting is outside the model.
-/

namespace SecurityAudit

namespace JVal

/-- `\uXXXX`. -/
def unicodeEscape (n : ℕ) : Str :=
  [cp '\\', cp 'u', hexDigit (n / 4096), hexDigit (n / 256), hexDigit (n / 16), hexDigit n]

/-- One code point inside a string literal. -/
def escapeChar (c : CodePoint) : Str :=
  if c = cp '"' then [cp '\\', cp '"']
  else if c = cp '\\' then [cp '\\', cp '\\']
  else if c = cp '\n' then [cp '\\', cp 'n']
  else if c = cp '\r' then [cp '\\', cp 'r']
  else if c = cp '\t' then [cp '\\', cp 't']
  else if c.val = 0x0C then [cp '\\', cp 'f']
  else if c.val = 0x08 then [cp '\\', cp 'b']
  else if 0x20 ≤ c.val ∧ c.val ≤ 0x7E then [c]
  else if c.val < 0x10000 then unicodeEscape c.val
  else unicodeEscape (0xD800 + (c.val - 0x10000) / 0x400) ++
    unicodeEscape (0xDC00 + (c.val - 0x10000) % 0x400)

/-- A string literal with its quotes. -/
def quote (s : Str) : Str := cp '"' :: (s.flatMap escapeChar ++ [cp '"'])

/-- `",".join(parts)`. -/
def commaJoin : List Str → Str
  | [] => []
  | [x] => x
  | x :: y :: rest => x ++ cp ',' :: commaJoin (y :: rest)

/-- A number literal; the special values are spelled as `json` spells them. -/
def floatText : PyFloat → Str
  | .finite neg mag => (if neg then [cp '-'] else []) ++ (DecLit.reprLit mag).text
  | .infinity neg => (if neg then [cp '-'] else []) ++ SecurityAudit.str "Infinity"
  | .nan => SecurityAudit.str "NaN"

mutual

/-- `json.dumps` with sorted keys and no whitespace. -/
def dumps : JVal → Str
  | .null => SecurityAudit.str "null"
  | .bool true => SecurityAudit.str "true"
  | .bool false => SecurityAudit.str "false"
  | .int n => intText n
  | .float x => floatText x
  | .str s => quote s
  | .arr xs => cp '[' :: (commaJoin (dumpsList xs) ++ [cp ']'])
  | .obj kvs => cp '{' ::
      (commaJoin ((sortItems (dumpsItems kvs)).map fun kv => quote kv.1 ++ cp ':' :: kv.2) ++
        [cp '}'])

def dumpsList : List JVal → List Str
  | [] => []
  | x :: xs => dumps x :: dumpsList xs

def dumpsItems : List (Str × JVal) → List (Str × Str)
  | [] => []
  | (k, v) :: kvs => (k, dumps v) :: dumpsItems kvs

end

theorem dumpsList_eq (xs : List JVal) : dumpsList xs = xs.map dumps := by
  induction xs with
  | nil => rfl
  | cons x xs ih => rw [dumpsList, ih, List.map_cons]

theorem dumpsItems_eq (kvs : List (Str × JVal)) :
    dumpsItems kvs = kvs.map fun kv => (kv.1, dumps kv.2) := by
  induction kvs with
  | nil => rfl
  | cons kv kvs ih => rw [dumpsItems, ih, List.map_cons]

/-- One member of an object. -/
def dumpsMember (kv : Str × JVal) : Str := quote kv.1 ++ cp ':' :: dumps kv.2

theorem dumps_arr (xs : List JVal) :
    dumps (.arr xs) = cp '[' :: (commaJoin (xs.map dumps) ++ [cp ']']) := by
  rw [dumps, dumpsList_eq]

theorem dumps_obj (kvs : List (Str × JVal)) :
    dumps (.obj kvs) = cp '{' :: (commaJoin ((sortItems kvs).map dumpsMember) ++ [cp '}']) := by
  rw [dumps, dumpsItems_eq, sortItems_keys, List.map_map]
  rfl

/-! ## Key order does not show -/

/-- Printing sorts the keys anyway. -/
theorem dumps_sortKeys (v : JVal) : dumps v.sortKeys = dumps v := by
  induction v using JVal.induct with
  | null => rfl
  | bool b => rfl
  | int n => rfl
  | float x => rfl
  | str s => rfl
  | arr xs ih =>
    rw [sortKeys_arr, dumps_arr, dumps_arr, List.map_map]
    congr 3
    exact List.map_congr_left ih
  | obj kvs ih =>
    have hsorted : ∀ kvs : List (Str × JVal), sortItems (sortItems kvs) = sortItems kvs :=
      fun kvs => (sortItems_sorted kvs).insertionSort_eq
    rw [sortKeys_obj, dumps_obj, dumps_obj, sortItems_keys, hsorted, List.map_map]
    congr 3
    refine List.map_congr_left fun kv hkv => ?_
    rw [Function.comp_apply, dumpsMember, dumpsMember, ih kv ((sortItems_perm kvs).mem_iff.mp hkv)]

/-- The same JSON value up to key order is printed the same. -/
theorem dumps_congr {a b : JVal} (h : SameJson a b) : dumps a = dumps b := by
  rw [← dumps_sortKeys a, ← dumps_sortKeys b, h]

/-! ## Printable output -/

/-- Every code point of `s` is in `' ' .. '~'`. -/
def Printable (s : Str) : Prop := ∀ c ∈ s, 0x20 ≤ c.val ∧ c.val ≤ 0x7E

/-- The test form, for fixed text. -/
theorem Printable.of_all {s : Str} (h : (s.all fun c => decide (0x20 ≤ c.val ∧ c.val ≤ 0x7E)) = true) :
    Printable s := by
  simpa [Printable, List.all_eq_true] using h

theorem Printable.nil : Printable [] := by intro c h; cases h

theorem Printable.cons {c : CodePoint} {s : Str} (hc : 0x20 ≤ c.val ∧ c.val ≤ 0x7E)
    (hs : Printable s) : Printable (c :: s) := by
  intro d hd
  rcases List.mem_cons.mp hd with rfl | hd
  · exact hc
  · exact hs d hd

theorem Printable.append {s t : Str} (hs : Printable s) (ht : Printable t) :
    Printable (s ++ t) := by
  intro c hc
  rcases List.mem_append.mp hc with hc | hc
  · exact hs c hc
  · exact ht c hc

theorem printable_of_digits {s : Str} (h : ∀ c ∈ s, isDigit c = true) : Printable s := by
  intro c hc
  have hd := h c hc
  rw [isDigit, decide_eq_true_eq] at hd
  omega

theorem printable_natText (n : ℕ) : Printable (natText n) :=
  printable_of_digits fun _ hc => isDigit_of_mem_natText hc

theorem printable_intText (n : ℤ) : Printable (intText n) := by
  cases n with
  | ofNat n => exact printable_natText n
  | negSucc n => exact .cons (by decide) (printable_natText _)

theorem printable_unicodeEscape (n : ℕ) : Printable (unicodeEscape n) := by
  have hhex : ∀ d, 0x20 ≤ (hexDigit d).val ∧ (hexDigit d).val ≤ 0x7E := fun d => by
    have := hexDigit_range d
    omega
  exact .cons (by decide) (.cons (by decide) (.cons (hhex _) (.cons (hhex _) (.cons (hhex _)
    (.cons (hhex _) .nil)))))

theorem printable_escapeChar (c : CodePoint) : Printable (escapeChar c) := by
  unfold escapeChar
  split_ifs with _ _ _ _ _ _ _ hprint
  · exact .cons (by decide) (.cons (by decide) .nil)
  · exact .cons (by decide) (.cons (by decide) .nil)
  · exact .cons (by decide) (.cons (by decide) .nil)
  · exact .cons (by decide) (.cons (by decide) .nil)
  · exact .cons (by decide) (.cons (by decide) .nil)
  · exact .cons (by decide) (.cons (by decide) .nil)
  · exact .cons (by decide) (.cons (by decide) .nil)
  · exact .cons hprint .nil
  · exact printable_unicodeEscape _
  · exact (printable_unicodeEscape _).append (printable_unicodeEscape _)

theorem printable_quote (s : Str) : Printable (quote s) := by
  refine .cons (by decide) (.append (fun c hc => ?_) (.cons (by decide) .nil))
  obtain ⟨d, -, hd⟩ := List.mem_flatMap.mp hc
  exact printable_escapeChar d c hd

theorem printable_decLit {l : DecLit} (h : l.WellFormed) : Printable l.text := by
  unfold DecLit.text
  refine .append (.append (printable_of_digits h.ip_digits) ?_) ?_
  · split
    · exact .nil
    · exact .cons (by decide) (printable_of_digits h.fp_digits)
  · cases l.ex with
    | none => exact .nil
    | some k =>
      refine .cons (by decide) ?_
      unfold DecLit.exponentText
      refine .cons ?_ ?_
      · split <;> decide
      · split
        · exact .cons (by decide) (printable_natText _)
        · exact printable_natText _

theorem printable_floatText (x : PyFloat) : Printable (floatText x) := by
  have hsign : ∀ neg : Bool, Printable (if neg then [cp '-'] else []) := by
    intro neg
    cases neg
    · exact .nil
    · exact .cons (by decide) .nil
  cases x with
  | finite neg mag => exact (hsign neg).append (printable_decLit (DecLit.wellFormed_reprLit mag))
  | infinity neg => exact (hsign neg).append (.of_all (by decide))
  | nan => exact .of_all (by decide)

/-! ## Printing in insertion order -/

/-- `("," + pad).join(parts)`. -/
def paddedJoin (pad : Str) : List Str → Str
  | [] => []
  | [x] => x
  | x :: y :: rest => x ++ cp ',' :: (pad ++ paddedJoin pad (y :: rest))

section Printed

variable (pad : Str)

mutual

/-- `json.dumps` with `pad` after the separators. -/
def printed : JVal → Str
  | .null => SecurityAudit.str "null"
  | .bool true => SecurityAudit.str "true"
  | .bool false => SecurityAudit.str "false"
  | .int n => intText n
  | .float x => floatText x
  | .str s => quote s
  | .arr xs => cp '[' :: (paddedJoin pad (printedList xs) ++ [cp ']'])
  | .obj kvs => cp '{' :: (paddedJoin pad (printedItems kvs) ++ [cp '}'])

def printedList : List JVal → List Str
  | [] => []
  | x :: xs => printed x :: printedList xs

def printedItems : List (Str × JVal) → List Str
  | [] => []
  | (k, v) :: kvs => (quote k ++ cp ':' :: (pad ++ printed v)) :: printedItems kvs

end

/-- One member of an object. -/
def printedMember (kv : Str × JVal) : Str := quote kv.1 ++ cp ':' :: (pad ++ printed pad kv.2)

theorem printed_arr (xs : List JVal) :
    printed pad (.arr xs) = cp '[' :: (paddedJoin pad (xs.map (printed pad)) ++ [cp ']']) := by
  have hlist : printedList pad xs = xs.map (printed pad) := by
    induction xs with
    | nil => rfl
    | cons x xs ih => rw [printedList, ih, List.map_cons]
  rw [printed, hlist]

theorem printed_obj (kvs : List (Str × JVal)) :
    printed pad (.obj kvs) = cp '{' :: (paddedJoin pad (kvs.map (printedMember pad)) ++ [cp '}']) := by
  have hitems : printedItems pad kvs = kvs.map (printedMember pad) := by
    induction kvs with
    | nil => rfl
    | cons kv kvs ih => rw [printedItems, ih, List.map_cons, printedMember]
  rw [printed, hitems]

end Printed

theorem paddedJoin_nil (parts : List Str) : paddedJoin [] parts = commaJoin parts := by
  induction parts using commaJoin.induct with
  | case1 => rfl
  | case2 x => rfl
  | case3 x y rest ih => rw [paddedJoin, commaJoin, ih, List.nil_append]

/-- Sorting the keys first and printing without blanks is `dumps`. -/
theorem printed_sortKeys (v : JVal) : printed [] v.sortKeys = dumps v := by
  induction v using JVal.induct with
  | null => rfl
  | bool b => cases b <;> rfl
  | int n => rfl
  | float x => rfl
  | str s => rfl
  | arr xs ih =>
    rw [sortKeys_arr, printed_arr, dumps_arr, paddedJoin_nil, List.map_map]
    congr 3
    exact List.map_congr_left ih
  | obj kvs ih =>
    rw [sortKeys_obj, printed_obj, dumps_obj, paddedJoin_nil, List.map_map]
    congr 3
    refine List.map_congr_left fun kv hkv => ?_
    rw [Function.comp_apply, printedMember, dumpsMember, List.nil_append,
      ih kv ((sortItems_perm kvs).mem_iff.mp hkv)]

theorem Printable.paddedJoin {pad : Str} (hpad : Printable pad) {parts : List Str}
    (h : ∀ p ∈ parts, Printable p) : Printable (JVal.paddedJoin pad parts) := by
  induction parts using commaJoin.induct with
  | case1 => exact .nil
  | case2 x => exact h x (by simp)
  | case3 x y rest ih =>
    exact (h x (by simp)).append (.cons (by decide) (hpad.append (ih fun p hp => h p (by simp [hp]))))

/-- The printed value is printable ASCII. -/
theorem printable_printed {pad : Str} (hpad : Printable pad) (v : JVal) :
    Printable (printed pad v) := by
  induction v using JVal.induct with
  | null => exact .of_all (s := SecurityAudit.str "null") (by decide)
  | bool b =>
    cases b
    · exact .of_all (s := SecurityAudit.str "false") (by decide)
    · exact .of_all (s := SecurityAudit.str "true") (by decide)
  | int n => exact printable_intText n
  | float x => exact printable_floatText x
  | str s => exact printable_quote s
  | arr xs ih =>
    rw [printed_arr]
    refine .cons (by decide) (.append (.paddedJoin hpad ?_) (.cons (by decide) .nil))
    intro p hp
    obtain ⟨x, hx, rfl⟩ := List.mem_map.mp hp
    exact ih x hx
  | obj kvs ih =>
    rw [printed_obj]
    refine .cons (by decide) (.append (.paddedJoin hpad ?_) (.cons (by decide) .nil))
    intro p hp
    obtain ⟨kv, hkv, rfl⟩ := List.mem_map.mp hp
    exact (printable_quote _).append (.cons (by decide) (hpad.append (ih kv hkv)))

theorem printable_dumps (v : JVal) : Printable (dumps v) := by
  rw [← printed_sortKeys]
  exact printable_printed .nil _

end JVal

end SecurityAudit
