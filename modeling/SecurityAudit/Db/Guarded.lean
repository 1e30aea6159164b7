import SecurityAudit.Prog.Except
import SecurityAudit.Text.Str

/-!
# Tables behind grants and triggers

A database is a set of keyed tables. An account changes it by `INSERT`, `UPDATE` and `DELETE`
statements; each statement needs a privilege on its table, runs the `BEFORE` triggers of the
table for every row it touches, and is all or nothing. What a statement may select or compute is
left open: `WHERE` and `SET` are functions, of the whole database where a subquery may be.

`exec` runs a statement. `Move` is what one row of it does, and `exec_moves` takes a statement
apart into moves, so that what no permitted move breaks, no sequence of statements breaks.
-/

namespace SecurityAudit

namespace Sql

/-- What is done to a row. -/
inductive Event where
  | insert
  | update
  | delete
deriving DecidableEq

/-- One row changes: `OLD` and `NEW` of a trigger. -/
inductive Change (α : Type) where
  | insert (new : α)
  | update (old new : α)
  | delete (old : α)

def Change.event {α : Type} : Change α → Event
  | .insert _ => .insert
  | .update _ _ => .update
  | .delete _ => .delete

/-- The tables, their rows and their primary keys. Two keys are equal where the database takes
them for equal. -/
structure Schema where
  Table : Type
  [tableEq : DecidableEq Table]
  Row : Table → Type
  Key : Type
  [keyEq : DecidableEq Key]
  key : (t : Table) → Row t → Key

attribute [instance] Schema.tableEq Schema.keyEq

/-- The rows of every table, no two of one table with the same key. -/
structure Db (S : Schema) where
  rows : (t : S.Table) → List (S.Row t)
  unique : ∀ t, ((rows t).map (S.key t)).Nodup

/-- Why a statement fails. -/
inductive Error where
  | denied
  | signal (message : Str)
  | duplicateKey
deriving DecidableEq

variable {S : Schema} {A : Type}

namespace Db

variable (db : Db S)

/-- The row of a key. -/
def find? (t : S.Table) (k : S.Key) : Option (S.Row t) :=
  (db.rows t).find? fun r => S.key t r = k

/-- The rows with another key than `old`. -/
def others (t : S.Table) (old : S.Row t) : List (S.Row t) :=
  (db.rows t).filter fun r => S.key t r ≠ S.key t old

theorem nodup_others (t : S.Table) (old : S.Row t) : ((db.others t old).map (S.key t)).Nodup :=
  (db.unique t).sublist (List.filter_sublist.map _)

/-- Replace the rows of one table. -/
def set (t : S.Table) (rows : List (S.Row t)) (h : (rows.map (S.key t)).Nodup) : Db S where
  rows := Function.update db.rows t rows
  unique t' := by
    by_cases ht : t' = t
    · subst ht
      simpa using h
    · simpa [ht] using db.unique t'

@[simp] theorem set_rows_self (t : S.Table) (rows : List (S.Row t))
    (h : (rows.map (S.key t)).Nodup) : (db.set t rows h).rows t = rows := by
  simp [set]

theorem set_rows_of_ne {t t' : S.Table} (rows : List (S.Row t))
    (h : (rows.map (S.key t)).Nodup) (ht : t' ≠ t) : (db.set t rows h).rows t' = db.rows t' := by
  simp [set, ht]

variable {db}

/-- A row is determined by its key. -/
theorem eq_of_key {t : S.Table} {r r' : S.Row t} (hr : r ∈ db.rows t) (hr' : r' ∈ db.rows t)
    (h : S.key t r = S.key t r') : r = r' :=
  List.inj_on_of_nodup_map (db.unique t) hr hr' h

end Db

/-- A `BEFORE` trigger of the table `t`. -/
structure Trigger (S : Schema) (A : Type) (t : S.Table) where
  event : Event
  body : A → Db S → Change (S.Row t) → Except Error Unit

/-- The privileges granted to the accounts and the triggers created on the tables. -/
structure Guard (S : Schema) (A : Type) where
  granted : A → S.Table → Event → Bool
  triggers : (t : S.Table) → List (Trigger S A t)

/-- What an `INSERT` does about a key that is taken. -/
inductive OnDuplicate (α : Type) where
  | fail
  | ignore
  | update (set : α → α → α)

/-- The statements. -/
inductive Statement (S : Schema) where
  | insert (t : S.Table) (rows : List (S.Row t)) (onDuplicate : OnDuplicate (S.Row t))
  | update (t : S.Table) (cond : Db S → S.Row t → Bool) (set : S.Row t → S.Row t)
  | delete (t : S.Table) (cond : Db S → S.Row t → Bool)

namespace Statement

/-- The table a statement is about. -/
def table : Statement S → S.Table
  | .insert t _ _ => t
  | .update t _ _ => t
  | .delete t _ => t

/-- The privileges a statement needs on its table. -/
def events : Statement S → List Event
  | .insert _ _ (.update _) => [.insert, .update]
  | .insert _ _ _ => [.insert]
  | .update _ _ _ => [.update]
  | .delete _ _ => [.delete]

variable {st : Statement S}

theorem eq_delete (h : .delete ∈ st.events) : ∃ cond, st = .delete st.table cond := by
  cases st with
  | insert t rows onDuplicate => cases onDuplicate <;> simp [events] at h
  | update => simp [events] at h
  | delete t cond => exact ⟨cond, rfl⟩

theorem eq_insert (h : .insert ∈ st.events) :
    ∃ rows onDuplicate, st = .insert st.table rows onDuplicate := by
  cases st with
  | insert t rows onDuplicate => exact ⟨rows, onDuplicate, rfl⟩
  | update => simp [events] at h
  | delete => simp [events] at h

end Statement

variable (G : Guard S A)

namespace Guard

/-- Run the triggers of the table for one change. -/
def fire (a : A) (db : Db S) (t : S.Table) (c : Change (S.Row t)) : Except Error Unit :=
  ((G.triggers t).filter fun trg => trg.event = c.event).forM fun trg => trg.body a db c

/-- Insert one row. -/
def insertRow (a : A) (db : Db S) (t : S.Table) (r : S.Row t) : Except Error (Db S) := do
  G.fire a db t (.insert r)
  if h : S.key t r ∉ (db.rows t).map (S.key t) then
    return db.set t (r :: db.rows t) (List.nodup_cons.mpr ⟨h, db.unique t⟩)
  else throw .duplicateKey

/-- Replace `old` by `new`. -/
def updateRow (a : A) (t : S.Table) (db : Db S) (old new : S.Row t) : Except Error (Db S) := do
  G.fire a db t (.update old new)
  if h : S.key t new ∉ (db.others t old).map (S.key t) then
    return db.set t (new :: db.others t old)
      (List.nodup_cons.mpr ⟨h, db.nodup_others t old⟩)
  else throw .duplicateKey

/-- Delete one row. -/
def deleteRow (a : A) (t : S.Table) (db : Db S) (old : S.Row t) : Except Error (Db S) := do
  G.fire a db t (.delete old)
  return db.set t (db.others t old) (db.nodup_others t old)

/-- Insert one row of an `INSERT` statement. -/
def insertOr (a : A) (t : S.Table) (onDuplicate : OnDuplicate (S.Row t)) (db : Db S)
    (r : S.Row t) : Except Error (Db S) :=
  match db.find? t (S.key t r), onDuplicate with
  | some _, .ignore => do
    G.fire a db t (.insert r)
    return db
  | some old, .update set => do
    G.fire a db t (.insert r)
    G.updateRow a t db old (set old r)
  | _, _ => G.insertRow a db t r

/-- Run a statement. -/
def exec (a : A) (db : Db S) (st : Statement S) : Except Error (Db S) :=
  if st.events.all (G.granted a st.table) then
    match st with
    | .insert t rows onDuplicate => rows.foldlM (G.insertOr a t onDuplicate) db
    | .update t cond set =>
      ((db.rows t).filter (cond db)).foldlM (fun d r => G.updateRow a t d r (set r)) db
    | .delete t cond => ((db.rows t).filter (cond db)).foldlM (G.deleteRow a t) db
  else .error .denied

/-- The database after a statement: one that fails changes nothing. -/
def step (db : Db S) (s : A × Statement S) : Db S :=
  match G.exec s.1 db s.2 with
  | .ok db' => db'
  | .error _ => db

/-- The database after the first `i` statements of a sequence. -/
def stateAt (db : Db S) (log : List (A × Statement S)) (i : ℕ) : Db S :=
  (log.take i).foldl G.step db

/-! ## Moves -/

/-- One change of a row of `t` that account `a` may make. -/
inductive Move (a : A) (t : S.Table) : Event → Db S → Db S → Prop where
  | insert {db : Db S} (r : S.Row t) (granted : G.granted a t .insert = true)
      (fired : G.fire a db t (.insert r) = .ok ())
      (free : S.key t r ∉ (db.rows t).map (S.key t)) :
      Move a t .insert db (db.set t (r :: db.rows t) (List.nodup_cons.mpr ⟨free, db.unique t⟩))
  | update {db : Db S} (old new : S.Row t) (granted : G.granted a t .update = true)
      (fired : G.fire a db t (.update old new) = .ok ())
      (free : S.key t new ∉ (db.others t old).map (S.key t)) :
      Move a t .update db (db.set t (new :: db.others t old)
        (List.nodup_cons.mpr ⟨free, db.nodup_others t old⟩))
  | delete {db : Db S} (old : S.Row t) (granted : G.granted a t .delete = true)
      (fired : G.fire a db t (.delete old) = .ok ()) :
      Move a t .delete db (db.set t (db.others t old) (db.nodup_others t old))

namespace Move

variable {G} {a : A} {t : S.Table} {e : Event} {db db' : Db S}

/-- A move leaves the other tables alone. -/
theorem rows_of_ne (h : G.Move a t e db db') {t' : S.Table} (ht : t' ≠ t) :
    db'.rows t' = db.rows t' := by
  cases h <;> exact db.set_rows_of_ne _ _ ht

/-- A move needs its privilege. -/
theorem granted (h : G.Move a t e db db') : G.granted a t e = true := by
  cases h <;> assumption

/-- An insertion keeps the rows there are. -/
theorem mem_of_insert (h : G.Move a t .insert db db') {r : S.Row t} (hr : r ∈ db.rows t) :
    r ∈ db'.rows t := by
  cases h
  simp [hr]

/-- A deletion brings no row. -/
theorem mem_of_delete (h : G.Move a t .delete db db') {r : S.Row t} (hr : r ∈ db'.rows t) :
    r ∈ db.rows t := by
  cases h
  rw [Db.set_rows_self] at hr
  exact List.mem_of_mem_filter hr

/-- A row that a deletion takes passed the triggers, up to its key. -/
theorem fired_of_delete (h : G.Move a t .delete db db') {r : S.Row t} (hr : r ∈ db.rows t)
    (hr' : r ∉ db'.rows t) :
    ∃ old, S.key t old = S.key t r ∧ G.fire a db t (.delete old) = .ok () := by
  cases h with
  | delete old granted fired =>
    refine ⟨old, ?_, fired⟩
    by_contra hne
    apply hr'
    rw [Db.set_rows_self]
    exact List.mem_filter.mpr ⟨hr, by simpa using fun h => hne h.symm⟩

end Move

variable {G} {a : A} {t : S.Table} {db db' : Db S}

theorem insertRow_move (hg : G.granted a t .insert = true) {r : S.Row t}
    (h : G.insertRow a db t r = .ok db') : G.Move a t .insert db db' := by
  unfold insertRow at h
  obtain ⟨⟨⟩, hfired, h⟩ := bind_eq_ok.mp h
  split at h
  · next free =>
    rw [← Except.ok.inj h]
    exact .insert r hg hfired free
  · cases h

theorem updateRow_move (hg : G.granted a t .update = true) {old new : S.Row t}
    (h : G.updateRow a t db old new = .ok db') : G.Move a t .update db db' := by
  unfold updateRow at h
  obtain ⟨⟨⟩, hfired, h⟩ := bind_eq_ok.mp h
  split at h
  · next free =>
    rw [← Except.ok.inj h]
    exact .update old new hg hfired free
  · cases h

theorem deleteRow_move (hg : G.granted a t .delete = true) {old : S.Row t}
    (h : G.deleteRow a t db old = .ok db') : G.Move a t .delete db db' := by
  unfold deleteRow at h
  obtain ⟨⟨⟩, hfired, h⟩ := bind_eq_ok.mp h
  rw [← Except.ok.inj h]
  exact .delete old hg hfired

/-- Moves of one account on one table, of the kinds listed. -/
abbrev Moves (G : Guard S A) (a : A) (t : S.Table) (es : List Event) : Db S → Db S → Prop :=
  Relation.ReflTransGen fun d d' => ∃ e ∈ es, G.Move a t e d d'

namespace Moves

variable {es : List Event}

/-- Moves on one table leave the other tables alone. -/
theorem rows_of_ne (h : Moves G a t es db db') {t' : S.Table} (ht : t' ≠ t) :
    db'.rows t' = db.rows t' := by
  induction h with
  | refl => rfl
  | tail _ hmove ih =>
    obtain ⟨e, -, hmove⟩ := hmove
    rw [hmove.rows_of_ne ht, ih]

/-- A row that is gone was deleted by one of the moves, which passed the triggers. -/
theorem fired_of_removed (hupd : ∀ d d', ¬G.Move a t .update d d') (h : Moves G a t es db db')
    {r : S.Row t} (hr : r ∈ db.rows t) (hr' : r ∉ db'.rows t) :
    .delete ∈ es ∧ ∃ d old, Moves G a t es db d ∧ S.key t old = S.key t r ∧
      G.granted a t .delete = true ∧ G.fire a d t (.delete old) = .ok () := by
  induction h with
  | refl => exact absurd hr hr'
  | @tail d d' hd hmove ih =>
    by_cases hmem : r ∈ d.rows t
    · -- the last move took it
      obtain ⟨e, he, hmove⟩ := hmove
      cases e with
      | insert => exact absurd (hmove.mem_of_insert hmem) hr'
      | update => exact absurd hmove (hupd d d')
      | delete =>
        obtain ⟨old, hold, hfired⟩ := hmove.fired_of_delete hmem hr'
        exact ⟨he, d, old, hd, hold, hmove.granted, hfired⟩
    · exact ih hmem

/-- A row that is new was inserted by one of the moves. -/
theorem granted_of_added (hupd : ∀ d d', ¬G.Move a t .update d d') (h : Moves G a t es db db')
    {r : S.Row t} (hr : r ∉ db.rows t) (hr' : r ∈ db'.rows t) :
    .insert ∈ es ∧ G.granted a t .insert = true := by
  induction h with
  | refl => exact absurd hr' hr
  | @tail d d' hd hmove ih =>
    by_cases hmem : r ∈ d.rows t
    · exact ih hmem
    · -- the last move brought it
      obtain ⟨e, he, hmove⟩ := hmove
      cases e with
      | insert => exact ⟨he, hmove.granted⟩
      | update => exact absurd hmove (hupd d d')
      | delete => exact absurd (hmove.mem_of_delete hr') hmem

end Moves

/-- A statement that succeeds is a sequence of moves of its own kinds on its own table. -/
theorem exec_moves {st : Statement S} (h : G.exec a db st = .ok db') :
    Moves G a st.table st.events db db' := by
  unfold exec at h
  split at h
  · next hall =>
    have hgranted : ∀ e ∈ st.events, G.granted a st.table e = true := List.all_eq_true.mp hall
    cases st with
    | insert t rows onDuplicate =>
      refine chain_of_foldlM (fun d r d' hd => ?_) h
      have hins : Event.insert ∈ (Statement.insert t rows onDuplicate).events := by
        cases onDuplicate <;> simp [Statement.events]
      unfold insertOr at hd
      split at hd
      · obtain ⟨⟨⟩, -, hd⟩ := bind_eq_ok.mp hd
        rw [Except.ok.inj hd]
      · -- the row is there: `ON DUPLICATE KEY UPDATE` changes it
        rename_i old set _
        obtain ⟨⟨⟩, -, hd⟩ := bind_eq_ok.mp hd
        have hupd : Event.update ∈ (Statement.insert t rows (.update set)).events := by
          simp [Statement.events]
        exact .single ⟨.update, hupd, updateRow_move (hgranted _ hupd) hd⟩
      · exact .single ⟨.insert, hins, insertRow_move (hgranted _ hins) hd⟩
    | update t cond set =>
      have hupd : Event.update ∈ (Statement.update t cond set).events := by
        simp [Statement.events]
      exact chain_of_foldlM (fun d r d' hd =>
        .single ⟨.update, hupd, updateRow_move (hgranted _ hupd) hd⟩) h
    | delete t cond =>
      have hdel : Event.delete ∈ (Statement.delete t cond).events := by simp [Statement.events]
      exact chain_of_foldlM (fun d r d' hd =>
        .single ⟨.delete, hdel, deleteRow_move (hgranted _ hdel) hd⟩) h
  · cases h

section

/-! ### Where no row may be updated -/

variable {st : Statement S} (hupd : ∀ t d d', ¬G.Move a t .update d d')
  (hm : Moves G a st.table st.events db db')
include hupd hm

/-- A row of any table that is gone was deleted by a `DELETE` on that table; the triggers saw the
other tables as they were. -/
theorem gone_of_moves {t : S.Table} {r : S.Row t} (hr : r ∈ db.rows t) (hr' : r ∉ db'.rows t) :
    (∃ cond, st = .delete t cond) ∧ G.granted a t .delete = true ∧
      ∃ d old, (∀ t', t' ≠ t → d.rows t' = db.rows t') ∧ S.key t old = S.key t r ∧
        G.fire a d t (.delete old) = .ok () := by
  by_cases ht : t = st.table
  · subst ht
    obtain ⟨hdel, d, old, hd, hkey, hgranted, hfired⟩ :=
      hm.fired_of_removed (hupd st.table) hr hr'
    exact ⟨Statement.eq_delete hdel, hgranted, d, old, fun _ ht' => hd.rows_of_ne ht', hkey, hfired⟩
  · rw [hm.rows_of_ne ht] at hr'
    exact absurd hr hr'

/-- A row of any table that is new was inserted by an `INSERT` on that table. -/
theorem added_of_moves {t : S.Table} {r : S.Row t} (hr : r ∉ db.rows t) (hr' : r ∈ db'.rows t) :
    (∃ rows onDuplicate, st = .insert t rows onDuplicate) ∧ G.granted a t .insert = true := by
  by_cases ht : t = st.table
  · subst ht
    obtain ⟨hins, hgranted⟩ := hm.granted_of_added (hupd st.table) hr hr'
    exact ⟨Statement.eq_insert hins, hgranted⟩
  · rw [hm.rows_of_ne ht] at hr'
    exact absurd hr' hr

/-- A row that keeps its key is the row it was. -/
theorem unchanged_of_moves {t : S.Table} {r r' : S.Row t} (hr : r ∈ db.rows t)
    (hr' : r' ∈ db'.rows t) (h : S.key t r' = S.key t r) : r' = r := by
  by_cases hkept : r ∈ db'.rows t
  · exact Db.eq_of_key hr' hkept h
  by_cases hold : r' ∈ db.rows t
  · exact Db.eq_of_key hold hr h
  -- one of the rows was deleted, the other inserted
  obtain ⟨⟨cond, hdel⟩, -⟩ := gone_of_moves hupd hm hr hkept
  obtain ⟨⟨rows, onDuplicate, hins⟩, -⟩ := added_of_moves hupd hm hold hr'
  cases hdel.symm.trans hins

end

/-- What every move keeps, every statement keeps. -/
theorem step_of_moves {P : Db S → Db S → Prop} (hrefl : ∀ d, P d d) {s : A × Statement S}
    (h : ∀ d', Moves G s.1 s.2.table s.2.events db d' → P db d') : P db (G.step db s) := by
  unfold step
  split
  · next d' hd => exact h d' (exec_moves hd)
  · exact hrefl db

@[simp] theorem stateAt_zero (db : Db S) (log : List (A × Statement S)) :
    G.stateAt db log 0 = db := rfl

theorem stateAt_succ (db : Db S) (log : List (A × Statement S)) {i : ℕ} (hi : i < log.length) :
    G.stateAt db log (i + 1) = G.step (G.stateAt db log i) log[i] := by
  unfold stateAt
  rw [List.take_succ_eq_append_getElem hi, List.foldl_append, List.foldl_cons, List.foldl_nil]

end Guard

end Sql

end SecurityAudit
