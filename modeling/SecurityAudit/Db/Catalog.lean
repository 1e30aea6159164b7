import SecurityAudit.Json.Value
import SecurityAudit.Calendar.DateTime

/-!
# Statements that change a schema

A database here is a catalog, the tables there are with their columns, indexes and triggers, and
the rows of each table. A statement of the data definition language fails if what it creates is
there or what it drops is not, whatever the rows are (`Ddl.onCatalog`); otherwise it changes the
rows along (`Ddl.onRows`): a new column gets its default in every row, or `NULL`.

`Kept` is what is left of a row by statements that only add things: the row as it was, and the
defaults of the columns that came after it (`Kept.additive`).
-/

namespace SecurityAudit

namespace Sql

inductive ColumnType where
  | string (length : ℕ)
  | text
  | integer
  | dateTime
  | json
deriving DecidableEq

inductive ServerDefault where
  | text (s : Str)
  /-- `now()` -/
  | now
deriving DecidableEq

inductive Cell where
  | null
  | text (s : Str)
  | integer (i : ℤ)
  | dateTime (t : Naive)
  | json (v : JVal)

/-- A column, named by `N`. -/
structure Column (N : Type) where
  name : N
  type : ColumnType
  nullable : Bool
  primary_key : Bool
  server_default : Option ServerDefault
deriving DecidableEq

/-- What a row that has no value for the column gets. -/
def Column.fill {N : Type} (c : Column N) (now : Naive) : Cell :=
  match c.server_default with
  | none => .null
  | some (.text s) => .text s
  | some .now => .dateTime now

/-- What there is of a table besides its rows. Indexes are named by `I`, triggers by `G`. -/
structure Layout (N I G : Type) where
  columns : List (Column N)
  indexes : List (I × List N)
  triggers : List G
deriving DecidableEq

abbrev Catalog (T N I G : Type) : Type := List (T × Layout N I G)

/-- A row, with the names of its columns. -/
abbrev Cells (N : Type) : Type := List (N × Cell)

inductive Ddl (T N I G : Type) where
  | createTable (t : T) (columns : List (Column N))
  | dropTable (t : T)
  | addColumn (t : T) (column : Column N)
  | dropColumn (t : T) (name : N)
  | createIndex (index : I) (t : T) (names : List N)
  | dropIndex (index : I) (t : T)
  | createTrigger (trigger : G) (t : T)
  /-- `DROP TRIGGER IF EXISTS` -/
  | dropTriggerIfExists (trigger : G)

variable {T N I G : Type} [DecidableEq T]

namespace Catalog

def layout? (cat : Catalog T N I G) (t : T) : Option (Layout N I G) := cat.lookup t

/-- Change the layout of a table, if there is one and the change is possible. -/
def alter (cat : Catalog T N I G) (t : T) (f : Layout N I G → Option (Layout N I G)) :
    Option (Catalog T N I G) := do
  let layout ← (cat.layout? t).bind f
  return cat.map fun entry => if entry.1 = t then (t, layout) else entry

end Catalog

section

variable [DecidableEq N] [DecidableEq I] [DecidableEq G]

namespace Ddl

/-- What the statement does to the catalog. -/
def onCatalog (op : Ddl T N I G) (cat : Catalog T N I G) : Option (Catalog T N I G) :=
  match op with
  | .createTable t columns =>
    if (cat.layout? t).isSome then none else some (cat ++ [(t, ⟨columns, [], []⟩)])
  | .dropTable t =>
    if (cat.layout? t).isSome then some (cat.filter fun entry => entry.1 ≠ t) else none
  | .addColumn t column => cat.alter t fun l =>
    if column.name ∈ l.columns.map Column.name then none
    else some { l with columns := l.columns ++ [column] }
  | .dropColumn t name => cat.alter t fun l =>
    if name ∈ l.columns.map Column.name then
      some { l with columns := l.columns.filter fun c => c.name ≠ name }
    else none
  | .createIndex index t names => cat.alter t fun l =>
    if index ∈ l.indexes.map Prod.fst then none
    else some { l with indexes := l.indexes ++ [(index, names)] }
  | .dropIndex index t => cat.alter t fun l =>
    if index ∈ l.indexes.map Prod.fst then
      some { l with indexes := l.indexes.filter fun i => i.1 ≠ index }
    else none
  | .createTrigger trigger t =>
    if trigger ∈ cat.flatMap fun entry => entry.2.triggers then none
    else cat.alter t fun l => some { l with triggers := l.triggers ++ [trigger] }
  | .dropTriggerIfExists trigger => some (cat.map fun entry =>
    (entry.1, { entry.2 with triggers := entry.2.triggers.filter fun g => g ≠ trigger }))

/-- What it does to the rows. -/
def onRows (op : Ddl T N I G) (now : Naive) (rows : T → List (Cells N)) : T → List (Cells N) :=
  match op with
  | .createTable t _ | .dropTable t => Function.update rows t []
  | .addColumn t column => Function.update rows t
      ((rows t).map fun r => r ++ [(column.name, column.fill now)])
  | .dropColumn t name => Function.update rows t
      ((rows t).map fun r => r.filter fun cell => cell.1 ≠ name)
  | _ => rows

/-- The statements that only add something. -/
def Additive : Ddl T N I G → Prop
  | .createTable _ _ | .addColumn _ _ | .createIndex _ _ _ | .createTrigger _ _ => True
  | _ => False

instance (op : Ddl T N I G) : Decidable op.Additive :=
  match op with
  | .createTable _ _ | .addColumn _ _ | .createIndex _ _ _ | .createTrigger _ _ => isTrue trivial
  | .dropTable _ | .dropColumn _ _ | .dropIndex _ _ | .dropTriggerIfExists _ => isFalse id

end Ddl

/-- One statement after the other. -/
def applyAll (ops : List (Ddl T N I G)) (cat : Catalog T N I G) : Option (Catalog T N I G) :=
  ops.foldlM (fun cat op => op.onCatalog cat) cat

@[simp] theorem applyAll_nil (cat : Catalog T N I G) : applyAll [] cat = some cat := rfl

theorem applyAll_append (ops ops' : List (Ddl T N I G)) (cat : Catalog T N I G) :
    applyAll (ops ++ ops') cat = (applyAll ops cat).bind (applyAll ops') := List.foldlM_append

theorem applyAll_snoc {ops : List (Ddl T N I G)} {op : Ddl T N I G} {cat cat' : Catalog T N I G}
    (h : applyAll ops cat = some cat') : applyAll (ops ++ [op]) cat = op.onCatalog cat' := by
  rw [applyAll_append, h]
  show op.onCatalog cat' >>= some = _
  exact bind_pure _

end

/-! ## The rows of a table that things are added to -/

/-- A cell that a column has been given. -/
def Filled (c : Column N) (cell : N × Cell) : Prop :=
  cell.1 = c.name ∧ ∃ now, cell.2 = c.fill now

/-- The row `r`, which has a cell for each of the columns `cs`, is there with the defaults of the
columns that came after these. -/
def Kept (t : T) (r : Cells N) (cs : List (Column N)) (cat : Catalog T N I G)
    (rows : T → List (Cells N)) : Prop :=
  ∃ l later added, cat.layout? t = some l ∧ l.columns = cs ++ later ∧ r ++ added ∈ rows t ∧
    List.Forall₂ Filled later added

theorem layout?_alter_self {cat cat' : Catalog T N I G} {t : T}
    {f : Layout N I G → Option (Layout N I G)} (h : cat.alter t f = some cat') :
    cat'.layout? t = (cat.layout? t).bind f := by
  obtain ⟨l, hl, hcat⟩ := Option.bind_eq_some_iff.mp h
  cases hcat
  obtain ⟨l₀, hl₀, hf⟩ := Option.bind_eq_some_iff.mp hl
  rw [hl₀]
  show _ = f l₀
  rw [hf]
  unfold Catalog.layout? at hl₀ ⊢
  clear h hl
  induction cat with
  | nil => cases hl₀
  | cons entry cat ih =>
    by_cases ht : entry.1 = t
    · simp [ht]
    · have hne : (t == entry.1) = false := beq_false_of_ne (Ne.symm ht)
      rw [List.lookup_cons, hne] at hl₀
      rw [List.map_cons, if_neg ht, List.lookup_cons, hne]
      exact ih hl₀

theorem layout?_alter_of_ne {cat cat' : Catalog T N I G} {t t' : T}
    {f : Layout N I G → Option (Layout N I G)} (h : cat.alter t f = some cat') (ht : t' ≠ t) :
    cat'.layout? t' = cat.layout? t' := by
  obtain ⟨l, -, hcat⟩ := Option.bind_eq_some_iff.mp h
  cases hcat
  unfold Catalog.layout?
  clear h
  induction cat with
  | nil => rfl
  | cons entry cat ih =>
    by_cases hentry : entry.1 = t
    · have hne : (t' == t) = false := beq_false_of_ne ht
      rw [List.map_cons, if_pos hentry, List.lookup_cons, List.lookup_cons, hentry, hne]
      exact ih
    · rw [List.map_cons, if_neg hentry, List.lookup_cons, List.lookup_cons, ih]

/-- A change of a table that is possible. -/
theorem alter_eq_some {cat cat' : Catalog T N I G} {t : T} {l : Layout N I G}
    {f : Layout N I G → Option (Layout N I G)} (h : cat.alter t f = some cat')
    (hl : cat.layout? t = some l) : ∃ l', f l = some l' ∧ cat'.layout? t = some l' := by
  have hlayout := layout?_alter_self h
  obtain ⟨l', hl', -⟩ := Option.bind_eq_some_iff.mp h
  rw [hl, Option.bind_some] at hlayout hl'
  exact ⟨l', hl', hlayout.trans hl'⟩

/-- Rows that are inserted change nothing about the others. -/
theorem Kept.mono {cat : Catalog T N I G} {t : T} {r : Cells N} {cs : List (Column N)}
    {rows rows' : T → List (Cells N)} (h : Kept t r cs cat rows)
    (hrows : ∀ r ∈ rows t, r ∈ rows' t) : Kept t r cs cat rows' := by
  obtain ⟨l, later, added, hl, hcolumns, hrow, hadded⟩ := h
  exact ⟨l, later, added, hl, hcolumns, hrows _ hrow, hadded⟩

/-- A change of a table that keeps its columns keeps the rows. -/
theorem Kept.alter {cat cat' : Catalog T N I G} {t t' : T} {r : Cells N} {cs : List (Column N)}
    {rows : T → List (Cells N)} {f : Layout N I G → Option (Layout N I G)}
    (h : Kept t r cs cat rows) (hf : ∀ l l', f l = some l' → l'.columns = l.columns)
    (hcat : cat.alter t' f = some cat') : Kept t r cs cat' rows := by
  obtain ⟨l, later, added, hl, hcolumns, hrow, hadded⟩ := h
  by_cases ht : t = t'
  · subst ht
    obtain ⟨l', hfl, hl'⟩ := alter_eq_some hcat hl
    exact ⟨l', later, added, hl', (hf l l' hfl).trans hcolumns, hrow, hadded⟩
  · exact ⟨l, later, added, (layout?_alter_of_ne hcat ht).trans hl, hcolumns, hrow, hadded⟩

/-- A statement that adds something keeps the rows. -/
theorem Kept.additive [DecidableEq N] [DecidableEq I] [DecidableEq G] {op : Ddl T N I G}
    {cat cat' : Catalog T N I G} {t : T} {r : Cells N}
    {cs : List (Column N)} {rows : T → List (Cells N)} (h : Kept t r cs cat rows)
    (hop : op.Additive) (hcat : op.onCatalog cat = some cat') (now : Naive) :
    Kept t r cs cat' (op.onRows now rows) := by
  cases op with
  | createTable t' columns =>
    obtain ⟨l, later, added, hl, hcolumns, hrow, hadded⟩ := h
    have hnew : ¬(cat.layout? t').isSome := by
      intro hsome
      rw [Ddl.onCatalog, if_pos hsome] at hcat
      cases hcat
    rw [Ddl.onCatalog, if_neg hnew] at hcat
    cases hcat
    have hne : t ≠ t' := by
      rintro rfl
      rw [hl] at hnew
      exact hnew rfl
    refine ⟨l, later, added, ?_, hcolumns, ?_, hadded⟩
    · show List.lookup t (cat ++ _) = _
      rw [List.lookup_append]
      show (cat.layout? t).or _ = _
      rw [hl]
      rfl
    · show r ++ added ∈ Function.update rows t' [] t
      rwa [Function.update_of_ne hne]
  | addColumn t' column =>
    obtain ⟨l, later, added, hl, hcolumns, hrow, hadded⟩ := h
    by_cases ht : t = t'
    · subst ht
      obtain ⟨l', hfl, hl'⟩ := alter_eq_some hcat hl
      split_ifs at hfl
      cases hfl
      refine ⟨_, later ++ [column], added ++ [(column.name, column.fill now)], hl', ?_, ?_, ?_⟩
      · rw [← List.append_assoc, ← hcolumns]
      · show _ ∈ Function.update rows t _ t
        rw [Function.update_self, ← List.append_assoc]
        exact List.mem_map_of_mem (f := fun r => r ++ [(column.name, column.fill now)]) hrow
      · exact List.rel_append hadded (.cons ⟨rfl, now, rfl⟩ .nil)
    · refine ⟨l, later, added, (layout?_alter_of_ne hcat ht).trans hl, hcolumns, ?_, hadded⟩
      show r ++ added ∈ Function.update rows t' _ t
      rwa [Function.update_of_ne ht]
  | createIndex index t' names =>
    refine h.alter (fun l l' hl => ?_) hcat
    split_ifs at hl
    cases hl
    rfl
  | createTrigger trigger t' =>
    rw [Ddl.onCatalog] at hcat
    split_ifs at hcat
    refine h.alter (fun l l' hl => ?_) hcat
    cases hl
    rfl
  | dropTable t' => exact absurd hop id
  | dropColumn t' name => exact absurd hop id
  | dropIndex index t' => exact absurd hop id
  | dropTriggerIfExists trigger => exact absurd hop id

end Sql

end SecurityAudit
