import SecurityAudit.Db.Migrations

/-!
# What the recorded revision says of the database

However often `alembic upgrade` is run and wherever it stops, the schema is the one of the recorded
revision and the first few statements of the next one, and at the last revision the triggers are
there that the rules of the ledger rest on (`recorded_revision`). An upgrade that stopped between two
statements is not resumed by another one. Rows keep their cells and get the defaults of later
columns (`rows_kept`). Once a row has a key id no command changes anything any more
(`key_ids_kept`).
-/

namespace SecurityAudit

open Sql

namespace Migrations

open Immutability (Table)

variable {dialect : Str} {s t u : State} {trace : List (Entry sig State)}

/-! ## Programs that are lists of statements -/

/-- The statements of a program, as long as none of them fails. -/
def script : Prog sig Unit → List Statement
  | .call (.ddl op) next => op :: script (next (.ok ()))
  | _ => []

/-- The program executes its statements one after the other, and stops at one that fails. -/
def Straight : Prog sig Unit → Prop
  | .ret _ => True
  | .raise _ => False
  | .call (.ddl _) next => Straight (next (.ok ())) ∧ ∀ e, next (.error e) = .raise e
  | .call _ _ => False

theorem straight_execute (op : Statement) : Straight (execute op) := ⟨trivial, fun _ => rfl⟩

theorem Straight.bind {p : Prog sig Unit} {f : Unit → Prog sig Unit} (hp : Straight p)
    (hf : Straight (f ())) : Straight (p >>= f) := by
  induction p with
  | ret a => exact hf
  | raise e => exact hp.elim
  | call c next ih =>
    cases c with
    | ddl op =>
      refine ⟨ih (.ok ()) hp.1, fun e => ?_⟩
      show next (.error e) >>= f = _
      rw [hp.2 e]
      rfl
    | _ => exact hp.elim

/-- What statements have done, others inserting rows meanwhile. -/
structure Ran (done : List Statement) (s t : State) : Prop where
  catalog : applyAll done s.catalog = some t.catalog
  revision : t.revision = s.revision
  kept : (∀ op ∈ done, op.Additive) → ∀ tbl r cs, Kept tbl r cs s.catalog s.rows →
    Kept tbl r cs t.catalog t.rows

theorem OthersInsert.ran (h : OthersInsert s t) : Ran [] s t where
  catalog := congrArg some h.catalog.symm
  revision := h.revision
  kept _ tbl r cs hkept := by
    rw [h.catalog]
    exact hkept.mono (h.rows tbl)

theorem Ran.trans {done done' : List Statement} (h : Ran done s t) (h' : Ran done' t u) :
    Ran (done ++ done') s u where
  catalog := by
    rw [applyAll_append, h.catalog]
    exact h'.catalog
  revision := h'.revision.trans h.revision
  kept hadditive tbl r cs hkept :=
    h'.kept (fun op hop => hadditive op (List.mem_append_right _ hop)) tbl r cs
      (h.kept (fun op hop => hadditive op (List.mem_append_left _ hop)) tbl r cs hkept)

theorem Ran.refl (s : State) : Ran [] s s := ⟨rfl, rfl, fun _ _ _ _ h => h⟩

theorem OthersInsert.of_drift (h : Relation.ReflTransGen world.drift s t) : OthersInsert s t := by
  induction h with
  | refl => exact ⟨rfl, rfl, fun _ _ h => h⟩
  | tail _ hstep ih =>
    have hstep : OthersInsert _ _ := hstep
    exact ⟨hstep.catalog.trans ih.catalog, hstep.revision.trans ih.revision,
      fun tbl r hr => hstep.rows tbl r (ih.rows tbl r hr)⟩

theorem ran_ddl {op : Statement} {v : (Call.ddl op).Reply} (h : Effect (.ddl op) s v t) :
    Ran [op] s t := by
  cases h with
  | ddl hcatalog now =>
    refine ⟨?_, rfl, fun hadditive tbl r cs hkept => ?_⟩
    · rw [← List.nil_append [op], applyAll_snoc (applyAll_nil _), hcatalog]
    · exact hkept.additive (hadditive op List.mem_cons_self) hcatalog now

/-- A run of such a program: some of its first statements have been executed, and all of them if
it returned. -/
theorem runs_straight {p : Prog sig Unit} {o : Except Exc Unit} (hp : Straight p)
    (h : Runs world p s trace o t) :
    ∃ done, done <+: script p ∧ (o = .ok () → done = script p) ∧ Ran done s t := by
  induction p generalizing s trace with
  | ret a =>
    obtain ⟨-, -, rfl⟩ := h.of_ret
    exact ⟨[], List.nil_prefix, fun _ => rfl, .refl _⟩
  | raise e => exact hp.elim
  | call c next ih =>
    cases c with
    | ddl op =>
      obtain ⟨v, r, s', rest, hdrift, hanswer, rfl, hrest⟩ := h.of_call
      have hbefore : Ran [] s v := (OthersInsert.of_drift hdrift).ran
      cases hanswer with
      | ok heffect =>
        obtain ⟨done, hdone, hall, hran⟩ := ih (.ok ()) hp.1 hrest
        refine ⟨op :: done, List.cons_prefix_cons.mpr ⟨rfl, hdone⟩, fun ho => ?_, ?_⟩
        · rw [hall ho]
          rfl
        · exact (hbefore.trans (ran_ddl heffect)).trans hran
      | lost heffect =>
        rw [hp.2] at hrest
        cases hrest
        exact ⟨[op], List.cons_prefix_cons.mpr ⟨rfl, List.nil_prefix⟩, nofun,
          hbefore.trans (ran_ddl heffect)⟩
      | failed =>
        rw [hp.2] at hrest
        cases hrest
        exact ⟨[], List.nil_prefix, nofun, hbefore⟩
    | _ => exact hp.elim

/-! ## The statements of the revisions -/

theorem straight_upgrade (dialect : Str) : ∀ m ∈ versions, Straight (m.upgrade dialect) := by
  have h₃ : Straight upgrade_0003 :=
    (straight_execute _).bind ((straight_execute _).bind (straight_execute _))
  have h₅ : Straight (upgrade_0005 dialect) := by
    refine (straight_execute _).bind ((straight_execute _).bind ((straight_execute _).bind ?_))
    split_ifs
    · trivial
    · exact (straight_execute _).bind ((straight_execute _).bind ((straight_execute _).bind
        ((straight_execute _).bind (straight_execute _))))
  have h₆ : Straight upgrade_0006 := (straight_execute _).bind (straight_execute _)
  intro m hm
  simp only [versions, List.mem_cons, List.not_mem_nil, or_false] at hm
  rcases hm with rfl | rfl | rfl | rfl | rfl | rfl
  · exact straight_execute _
  · exact straight_execute _
  · exact h₃
  · exact straight_execute _
  · exact h₅
  · exact h₆

/-- The statements of the revisions up to the recorded one. -/
def statementsTo (dialect : Str) (recorded : Option Revision) : List Statement :=
  (applied recorded).reverse.flatMap fun m => script (m.upgrade dialect)

/-- The statements of the revision after the recorded one. -/
def statementsNext (dialect : Str) (recorded : Option Revision) : List Statement :=
  match pending recorded with
  | [] => []
  | m :: _ => script (m.upgrade dialect)

/-- The dialect matters only by being MySQL or not. -/
theorem dialect_cases (dialect : Str) : dialect = str "mysql" ∨ dialect ≠ str "mysql" ∧
    ∀ m ∈ versions, m.upgrade dialect = m.upgrade (str "sqlite") := by
  by_cases h : dialect = str "mysql"
  · exact .inl h
  · refine .inr ⟨h, ?_⟩
    have hsqlite : str "sqlite" ≠ str "mysql" := by decide
    have h₅ : upgrade_0005 dialect = upgrade_0005 (str "sqlite") := by
      unfold upgrade_0005
      rw [if_pos h, if_pos hsqlite]
    intro m hm
    simp only [versions, List.mem_cons, List.not_mem_nil, or_false] at hm
    rcases hm with rfl | rfl | rfl | rfl | rfl | rfl
    · rfl
    · rfl
    · rfl
    · rfl
    · exact h₅
    · rfl

theorem additive_upgrade (dialect : Str) : ∀ m ∈ versions,
    ∀ op ∈ script (m.upgrade dialect), op.Additive := by
  have hmysql : ∀ m ∈ versions, ∀ op ∈ script (m.upgrade (str "mysql")), op.Additive := by decide
  have hsqlite : ∀ m ∈ versions, ∀ op ∈ script (m.upgrade (str "sqlite")), op.Additive := by
    decide
  rcases dialect_cases dialect with rfl | ⟨-, heq⟩
  · exact hmysql
  · intro m hm
    rw [heq m hm]
    exact hsqlite m hm

/-- The first of the pending revisions comes after the recorded one. -/
theorem pending_cons (dialect : Str) {recorded : Option Revision} {m : Migration} {ms : List Migration}
    (h : pending recorded = m :: ms) :
    m ∈ versions ∧ m.down_revision = recorded ∧ pending (some m.revision) = ms ∧
      statementsNext dialect recorded = script (m.upgrade dialect) ∧
      statementsTo dialect (some m.revision) =
        statementsTo dialect recorded ++ script (m.upgrade dialect) := by
  have hnext : statementsNext dialect recorded = script (m.upgrade dialect) := by
    unfold statementsNext
    rw [h]
  suffices hrest : m ∈ versions ∧ m.down_revision = recorded ∧ pending (some m.revision) = ms ∧
      applied (some m.revision) = m :: applied recorded by
    obtain ⟨hm, hdown, hpending, happlied⟩ := hrest
    refine ⟨hm, hdown, hpending, hnext, ?_⟩
    rw [statementsTo, happlied, List.reverse_cons, List.flatMap_append, List.flatMap_singleton]
    rfl
  rcases recorded with _ | r
  · cases h
    exact ⟨by simp [versions], rfl, rfl, rfl⟩
  · cases r <;> cases h <;> exact ⟨by simp [versions], rfl, rfl, rfl⟩

/-- So do the statements. -/
theorem statements_cases (dialect : Str) : dialect = str "mysql" ∨ dialect ≠ str "mysql" ∧
    ∀ recorded, statementsTo dialect recorded = statementsTo (str "sqlite") recorded ∧
      statementsNext dialect recorded = statementsNext (str "sqlite") recorded := by
  refine (dialect_cases dialect).imp_right fun h => ⟨h.1, fun recorded => ⟨?_, ?_⟩⟩
  · refine List.flatMap_congr fun m hm => ?_
    simp only [applied, List.reverse_reverse] at hm
    rw [h.2 m (List.mem_of_mem_take hm)]
  · cases hpending : pending recorded with
    | nil => simp only [statementsNext, hpending]
    | cons m ms =>
      have hm : m ∈ versions := (pending_cons dialect hpending).1
      simp only [statementsNext, hpending]
      rw [h.2 m hm]

/-! ## The recorded revision and the schema -/

/-- The schema is the one of the recorded revision and `done`, the first statements of the next
one. -/
structure Partly (dialect : Str) (done : List Statement) (s : State) : Prop where
  first : done <+: statementsNext dialect s.revision
  catalog : applyAll (statementsTo dialect s.revision ++ done) [] = some s.catalog

/-- A schema like this is one of the schemas an upgrade leaves. -/
theorem Partly.ran {done : List Statement} (h : Partly dialect [] s) (hran : Ran done s t)
    (hdone : done <+: statementsNext dialect s.revision) : Partly dialect done t where
  first := by rwa [hran.revision]
  catalog := by
    have hcatalog := h.catalog
    rw [List.append_nil] at hcatalog
    rw [hran.revision, applyAll_append, hcatalog]
    exact hran.catalog

/-- Whether, of the next revision, every proper beginning that is not empty makes the first
statement impossible. -/
def blocks (dialect : Str) (recorded : Option Revision) : Bool :=
  match statementsNext dialect recorded with
  | [] => true
  | op :: rest => rest.inits.all fun more =>
    ((applyAll (statementsTo dialect recorded ++ op :: more) []).bind op.onCatalog).isNone

theorem blocks_upgrade (dialect : Str) (recorded : Option Revision) :
    blocks dialect recorded = true := by
  have hclosed : ∀ d ∈ [str "mysql", str "sqlite"], ∀ r ∈ none :: versions.map fun m =>
      some m.revision, blocks d r = true := by decide +kernel
  have hmem : recorded ∈ none :: versions.map fun m => some m.revision := by
    rcases recorded with _ | r
    · exact List.mem_cons_self
    · cases r <;> decide
  rcases statements_cases dialect with rfl | ⟨-, hstatements⟩
  · exact hclosed _ (by decide) _ hmem
  · obtain ⟨hto, hnext⟩ := hstatements recorded
    unfold blocks
    rw [hto, hnext]
    exact hclosed _ (by decide) _ hmem

/-- Where a next revision was begun, its first statement is not possible again. -/
theorem Partly.blocked {done : List Statement} (h : Partly dialect done s) (hne : done ≠ [])
    {op : Statement} {rest : List Statement} (hnext : statementsNext dialect s.revision = op :: rest) :
    op.onCatalog s.catalog = none := by
  obtain ⟨first, more, rfl⟩ := List.exists_cons_of_ne_nil hne
  have hfirst := h.first
  rw [hnext, List.cons_prefix_cons] at hfirst
  obtain ⟨rfl, hmore⟩ := hfirst
  have hblocks := blocks_upgrade dialect s.revision
  unfold blocks at hblocks
  rw [hnext] at hblocks
  have hnone := List.all_eq_true.mp hblocks more ((List.mem_inits _ _).mpr hmore)
  rw [h.catalog] at hnone
  exact Option.isNone_iff_eq_none.mp hnone

/-- A run of `upgrade` of the next revision. -/
theorem Partly.upgrade {done : List Statement} {m : Migration} {ms : List Migration}
    {o : Except Exc Unit} (h : Partly dialect done s) (hpending : pending s.revision = m :: ms)
    (hrun : Runs world (m.upgrade dialect) s trace o t) :
    (∃ done', Partly dialect done' t ∧ (o = .ok () → done' = script (m.upgrade dialect)) ∧
      (done ≠ [] → done' = done ∧ t.catalog = s.catalog ∧ ∃ e, o = .error e)) ∧
      t.revision = s.revision ∧
      ∀ tbl r cs, Kept tbl r cs s.catalog s.rows → Kept tbl r cs t.catalog t.rows := by
  obtain ⟨hm, -, -, hnext, -⟩ := pending_cons dialect hpending
  obtain ⟨more, hmore, hall, hran⟩ := runs_straight (straight_upgrade dialect m hm) hrun
  refine ⟨?_, hran.revision, hran.kept fun op hop =>
    additive_upgrade dialect m hm op (hmore.subset hop)⟩
  by_cases hne : done = []
  · subst hne
    exact ⟨more, h.ran hran (hnext ▸ hmore), hall, fun hnot => absurd rfl hnot⟩
  · -- nothing of it is possible
    obtain ⟨op, rest, hscript⟩ : ∃ op rest, script (m.upgrade dialect) = op :: rest := by
      refine List.exists_cons_of_ne_nil fun hnil => hne ?_
      have hfirst := h.first
      rw [hnext, hnil] at hfirst
      exact List.prefix_nil.mp hfirst
    have hblocked := h.blocked hne (hnext.trans hscript)
    have hnothing : more = [] := by
      cases more with
      | nil => rfl
      | cons op' more =>
        rw [hscript, List.cons_prefix_cons] at hmore
        obtain ⟨rfl, -⟩ := hmore
        have hcatalog := hran.catalog
        rw [applyAll, List.foldlM_cons, hblocked] at hcatalog
        cases hcatalog
    subst hnothing
    have hcatalog : t.catalog = s.catalog := (Option.some.inj hran.catalog).symm
    have herror : ∃ e, o = .error e := by
      cases o with
      | error e => exact ⟨e, rfl⟩
      | ok v =>
        have hnil := hall rfl
        rw [hscript] at hnil
        cases hnil
    refine ⟨done, ⟨?_, ?_⟩, ?_, fun _ => ⟨rfl, hcatalog, herror⟩⟩
    · rw [hran.revision]
      exact h.first
    · rw [hran.revision, hcatalog]
      exact h.catalog
    · obtain ⟨e, rfl⟩ := herror
      intro hok
      cases hok

/-- What runs of `upgrade` keep. -/
structure Sound (dialect : Str) (done : List Statement) (s t : State) : Prop where
  partly : ∃ done', Partly dialect done' t
  /-- an interrupted upgrade stays where it is -/
  resumed : done ≠ [] → t.catalog = s.catalog ∧ t.revision = s.revision
  kept : ∀ tbl r cs, Kept tbl r cs s.catalog s.rows → Kept tbl r cs t.catalog t.rows

/-- A revision is recorded when all its statements have been executed. -/
theorem Partly.record {m : Migration} {ms : List Migration}
    {o : sig.Answer (.record m.down_revision (some m.revision))}
    (h : Partly dialect (script (m.upgrade dialect)) s) (hpending : pending s.revision = m :: ms)
    (hrun : Runs world (ask (.record m.down_revision (some m.revision))) s trace o t) :
    t.catalog = s.catalog ∧ (∀ tbl, ∀ r ∈ s.rows tbl, r ∈ t.rows tbl) ∧
      ((Partly dialect [] t ∧ pending t.revision = ms) ∨
        (Partly dialect (script (m.upgrade dialect)) t ∧ ∃ e, o = .error e)) := by
  obtain ⟨-, hdown, hrest, -, hto⟩ := pending_cons dialect hpending
  obtain ⟨v, hdrift, hanswer, -⟩ := hrun.of_perform
  have hinsert : OthersInsert s v := .of_drift hdrift
  have hafter : ∀ {w : State} {x : (Call.record m.down_revision (some m.revision)).Reply},
      Effect (.record m.down_revision (some m.revision)) v x w →
        w.catalog = s.catalog ∧ (∀ tbl, ∀ r ∈ s.rows tbl, r ∈ w.rows tbl) ∧
          Partly dialect [] w ∧ pending w.revision = ms := by
    intro w x heffect
    cases heffect
    refine ⟨hinsert.catalog, hinsert.rows, ⟨List.nil_prefix, ?_⟩, hrest⟩
    have hcatalog := h.catalog
    rw [← hdown] at hto
    show applyAll (statementsTo dialect (some m.revision) ++ []) [] = some v.catalog
    rw [List.append_nil, hto, hdown, hinsert.catalog]
    exact hcatalog
  cases hanswer with
  | ok heffect =>
    obtain ⟨hcatalog, hrows, hpartly⟩ := hafter heffect
    exact ⟨hcatalog, hrows, .inl hpartly⟩
  | lost heffect =>
    obtain ⟨hcatalog, hrows, hpartly⟩ := hafter heffect
    exact ⟨hcatalog, hrows, .inl hpartly⟩
  | failed =>
    refine ⟨hinsert.catalog, hinsert.rows, .inr ⟨⟨?_, ?_⟩, _, rfl⟩⟩
    · rw [hinsert.revision]
      exact h.first
    · rw [hinsert.revision, hinsert.catalog]
      exact h.catalog

/-- The turn of one revision. -/
theorem Partly.turn {done : List Statement} {m : Migration} {ms : List Migration}
    {o : Except Exc Unit} (h : Partly dialect done s) (hpending : pending s.revision = m :: ms)
    (hrun : Runs world (do
      m.upgrade dialect
      ask (.record m.down_revision (some m.revision))) s trace o t) :
    Sound dialect done s t ∧
      (o = .ok () → done = [] ∧ Partly dialect [] t ∧ pending t.revision = ms) := by
  obtain ⟨e, rfl, hupgrade⟩ | ⟨⟨⟩, first, rest, u, rfl, hupgrade, hrecord⟩ := hrun.of_bind
  · obtain ⟨⟨done', hpartly, -, hblocked⟩, hrevision, hkept⟩ := h.upgrade hpending hupgrade
    exact ⟨⟨⟨done', hpartly⟩, fun hne => ⟨(hblocked hne).2.1, hrevision⟩, hkept⟩, nofun⟩
  · obtain ⟨⟨done', hpartly, hall, hblocked⟩, hrevision, hkept⟩ := h.upgrade hpending hupgrade
    obtain rfl := hall rfl
    -- it returned, so it was not begun before
    have hdone : done = [] := by
      by_contra hne
      obtain ⟨-, -, e, he⟩ := hblocked hne
      cases he
    obtain ⟨hcatalog, hrows, hend⟩ := hpartly.record (hrevision ▸ hpending) hrecord
    refine ⟨⟨?_, fun hne => absurd hdone hne, fun tbl r cs hr => ?_⟩, fun ho => ⟨hdone, ?_⟩⟩
    · rcases hend with ⟨hpartly', -⟩ | ⟨hpartly', -⟩
      · exact ⟨[], hpartly'⟩
      · exact ⟨_, hpartly'⟩
    · rw [hcatalog]
      exact (hkept tbl r cs hr).mono (hrows tbl)
    · rcases hend with hend | ⟨-, e, he⟩
      · exact hend
      · rw [ho] at he
        cases he

theorem Sound.refl {done : List Statement} (h : Partly dialect done s) : Sound dialect done s s :=
  ⟨⟨done, h⟩, fun _ => ⟨rfl, rfl⟩, fun _ _ _ h => h⟩

/-- The turns of the revisions. -/
theorem Partly.turns {done : List Statement} {ms : List Migration} {o : Except Exc Unit}
    (h : Partly dialect done s) (hms : ms <+: pending s.revision)
    (hrun : Runs world (Prog.forEach (fun m => do
      m.upgrade dialect
      ask (.record m.down_revision (some m.revision))) ms) s trace o t) :
    Sound dialect done s t := by
  induction ms generalizing s done trace with
  | nil =>
    obtain ⟨-, -, rfl⟩ := hrun.of_ret
    exact .refl h
  | cons m ms ih =>
    obtain ⟨rest, hpending⟩ := hms
    rw [List.cons_append] at hpending
    obtain ⟨e, -, hturn⟩ | ⟨⟨⟩, first, later, u, rfl, hturn, hturns⟩ := hrun.of_bind
    · exact (h.turn hpending.symm hturn).1
    · obtain ⟨hsound, hok⟩ := h.turn hpending.symm hturn
      obtain ⟨rfl, hpartly, hrest⟩ := hok rfl
      have hsound' := ih hpartly (hrest ▸ List.prefix_append ms rest) hturns
      exact ⟨hsound'.partly, fun hne => absurd rfl hne,
        fun tbl r cs hr => hsound'.kept tbl r cs (hsound.kept tbl r cs hr)⟩

/-- A run of the command. -/
theorem Partly.alembicUpgrade {done : List Statement} {steps : ℕ} {o : Except Exc Unit}
    (h : Partly dialect done s) (hrun : Runs world (alembicUpgrade dialect steps) s trace o t) :
    Sound dialect done s t := by
  have hinsert : ∀ {v : State}, OthersInsert s v → Partly dialect done v ∧
      ∀ tbl r cs, Kept tbl r cs s.catalog s.rows → Kept tbl r cs v.catalog v.rows := by
    intro v hv
    refine ⟨⟨?_, ?_⟩, fun tbl r cs hr => ?_⟩
    · rw [hv.revision]
      exact h.first
    · rw [hv.revision, hv.catalog]
      exact h.catalog
    · rw [hv.catalog]
      exact hr.mono (hv.rows tbl)
  obtain ⟨e, -, hrecorded⟩ | ⟨recorded, first, rest, u, rfl, hrecorded, hturns⟩ := hrun.of_bind
  · obtain ⟨v, hdrift, hanswer, -⟩ := hrecorded.of_perform
    have hv : OthersInsert s v := .of_drift hdrift
    have hanswer : Answers .recorded v (.error e) t := hanswer
    have ht : t = v := by
      cases hanswer with
      | lost heffect =>
        cases heffect
        rfl
      | failed => rfl
    subst ht
    obtain ⟨hpartly, hkept⟩ := hinsert hv
    exact ⟨⟨done, hpartly⟩, fun _ => ⟨hv.catalog, hv.revision⟩, hkept⟩
  · obtain ⟨v, hdrift, hanswer, -⟩ := hrecorded.of_perform
    have hv : OthersInsert s v := .of_drift hdrift
    have hanswer : Answers .recorded v (.ok recorded) u := hanswer
    cases hanswer with
    | ok heffect =>
      cases heffect
      obtain ⟨hpartly, hkept⟩ := hinsert hv
      have hsound := hpartly.turns (List.take_prefix steps _) hturns
      refine ⟨hsound.partly, fun hne => ?_, fun tbl r cs hr => hsound.kept tbl r cs (hkept tbl r cs hr)⟩
      obtain ⟨hcatalog, hrevision⟩ := hsound.resumed hne
      exact ⟨hcatalog.trans hv.catalog, hrevision.trans hv.revision⟩

/-! ## Any number of commands -/

/-- Others insert rows, or `alembic upgrade` is run. -/
inductive Upgraded (dialect : Str) : State → State → Prop where
  | others {s t : State} (h : OthersInsert s t) : Upgraded dialect s t
  | command {s t : State} {steps : ℕ} {trace : List (Entry sig State)} {o : Except Exc Unit}
      (h : Runs world (alembicUpgrade dialect steps) s trace o t) : Upgraded dialect s t

theorem Partly.upgraded {done : List Statement} (h : Partly dialect done s)
    (hstep : Upgraded dialect s t) : Sound dialect done s t := by
  cases hstep with
  | others hothers =>
    refine ⟨⟨done, ?_, ?_⟩, fun _ => ⟨hothers.catalog, hothers.revision⟩, fun tbl r cs hr => ?_⟩
    · rw [hothers.revision]
      exact h.first
    · rw [hothers.revision, hothers.catalog]
      exact h.catalog
    · rw [hothers.catalog]
      exact hr.mono (hothers.rows tbl)
  | command hrun => exact h.alembicUpgrade hrun

theorem Partly.reach {done : List Statement} (h : Partly dialect done s)
    (hreach : Relation.ReflTransGen (Upgraded dialect) s t) : Sound dialect done s t := by
  induction hreach with
  | refl => exact .refl h
  | @tail t u _ hstep ih =>
    obtain ⟨done', hpartly⟩ := ih.partly
    have hstep' := hpartly.upgraded hstep
    refine ⟨hstep'.partly, fun hne => ?_, fun tbl r cs hr =>
      hstep'.kept tbl r cs (ih.kept tbl r cs hr)⟩
    -- the same statements are still what the upgrade was interrupted after
    obtain ⟨hcatalog, hrevision⟩ := ih.resumed hne
    have hsame : Partly dialect done t := by
      refine ⟨?_, ?_⟩
      · rw [hrevision]
        exact h.first
      · rw [hrevision, hcatalog]
        exact h.catalog
    obtain ⟨hcatalog', hrevision'⟩ := (hsame.upgraded hstep).resumed hne
    exact ⟨hcatalog'.trans hcatalog, hrevision'.trans hrevision⟩

theorem partly_empty (dialect : Str) : Partly dialect [] .empty := ⟨List.nil_prefix, rfl⟩

/-! ## The last revision -/

/-- The columns of `db/models.py`. -/
def modelColumns : Table → List Col
  | .audit_events =>
    [keyColumn .event_id (.string 64),
      column .timestamp .dateTime false,
      column .service (.string 255) false,
      column .event_type (.string 255) false,
      column .user_id (.string 255) true,
      column .organization_id (.string 255) true,
      defaultColumn .tenant_scope (.string 16) (.text (str "unknown")),
      column .action (.string 255) false,
      column .resource (.string 255) true,
      column .decision (.string 64) true,
      column .reason .text true,
      column .trace_id (.string 255) true,
      column .context .json false,
      defaultColumn .integrity_status (.string 16) (.text (str "unsigned")),
      defaultColumn .created_at .dateTime .now,
      column .record_integrity_hash (.string 64) true,
      column .integrity_key_id (.string 64) true]
  | .quarantined_audit_events =>
    [keyColumn .stream_message_id (.string 64),
      column .raw_data .text true,
      column .raw_signature .text true,
      column .service (.string 255) true,
      column .failure_category (.string 32) false,
      column .failure_detail (.string 255) true,
      column .delivery_attempts .integer false,
      defaultColumn .quarantined_at .dateTime .now,
      column .record_integrity_hash (.string 64) true,
      column .integrity_key_id (.string 64) true]
  | .audit_legal_holds =>
    [keyColumn .record_table (.string 32),
      keyColumn .record_key (.string 64),
      defaultColumn .held_at .dateTime .now,
      column .held_by (.string 255) true,
      column .reason (.string 255) true]

/-- The indexes of `db/models.py`. -/
def modelIndexes : Table → List (IndexName × List ColumnName)
  | .audit_events =>
    [(.ix_audit_events_org_timestamp_event, [.organization_id, .timestamp, .event_id])]
  | _ => []

/-- The model gives `action` its default in Python, and the table in the server. -/
def withoutActionDefault (c : Col) : Col :=
  if c.name = .action then { c with server_default := none } else c

/-- The triggers of a table, by name. -/
def triggerNames : Table → List TriggerName
  | .audit_events => [.trg_audit_events_no_update, .trg_audit_events_no_delete]
  | .quarantined_audit_events =>
    [.trg_quarantined_audit_events_no_update, .trg_quarantined_audit_events_no_delete]
  | .audit_legal_holds => [.trg_audit_legal_holds_no_update]

/-- The statement that the trigger is created with. -/
def TriggerName.body (srv : Immutability.Server) :
    TriggerName → (t : Table) × Immutability.Trigger srv t
  | .trg_audit_events_no_update => ⟨_, Immutability.trg_audit_events_no_update srv⟩
  | .trg_audit_events_no_delete => ⟨_, Immutability.trg_audit_events_no_delete srv⟩
  | .trg_quarantined_audit_events_no_update =>
    ⟨_, Immutability.trg_quarantined_audit_events_no_update srv⟩
  | .trg_quarantined_audit_events_no_delete =>
    ⟨_, Immutability.trg_quarantined_audit_events_no_delete srv⟩
  | .trg_audit_legal_holds_no_update => ⟨_, Immutability.trg_audit_legal_holds_no_update srv⟩

/-- The table is the one of `db/models.py`, with its triggers on MySQL. -/
def AsModelled (dialect : Str) (tbl : Table)
    (l : Layout ColumnName IndexName TriggerName) : Prop :=
  (l.columns.map withoutActionDefault).Perm (modelColumns tbl) ∧ l.indexes = modelIndexes tbl ∧
    l.triggers = if dialect = str "mysql" then triggerNames tbl else []

instance (dialect : Str) (tbl : Table) (l : Layout ColumnName IndexName TriggerName) :
    Decidable (AsModelled dialect tbl l) := inferInstanceAs (Decidable (_ ∧ _ ∧ _))

/-- What all statements together make of a database without tables. -/
theorem head_asModelled (dialect : Str) {catalog : Catalog Table ColumnName IndexName TriggerName}
    (h : applyAll (statementsTo dialect (some head)) [] = some catalog) (tbl : Table) :
    ∃ l, catalog.layout? tbl = some l ∧ AsModelled dialect tbl l := by
  have hclosed : ∀ d ∈ [str "mysql", str "sqlite"], ∀ t ∈ [Table.audit_events,
      .quarantined_audit_events, .audit_legal_holds],
      ((applyAll (statementsTo d (some head)) []).bind fun c => c.layout? t).any
        (fun l => decide (AsModelled d t l)) = true := by decide +kernel
  have htable : tbl ∈ [Table.audit_events, .quarantined_audit_events, .audit_legal_holds] := by
    cases tbl <;> decide
  have hfound : ∀ d ∈ [str "mysql", str "sqlite"],
      applyAll (statementsTo d (some head)) [] = some catalog →
        ∃ l, catalog.layout? tbl = some l ∧ AsModelled d tbl l := by
    intro d hd hcatalog
    have hany := hclosed d hd tbl htable
    rw [hcatalog, Option.bind_some, Option.any_eq_true_iff_get] at hany
    obtain ⟨hsome, hmodelled⟩ := hany
    exact ⟨_, (Option.some_get hsome).symm, of_decide_eq_true hmodelled⟩
  rcases statements_cases dialect with rfl | ⟨hne, hstatements⟩
  · exact hfound _ (by decide) h
  · rw [(hstatements _).1] at h
    obtain ⟨l, hl, hcolumns, hindexes, htriggers⟩ := hfound _ (by decide) h
    have hsqlite : str "sqlite" ≠ str "mysql" := by decide
    rw [if_neg hsqlite] at htriggers
    exact ⟨l, hl, hcolumns, hindexes, by rw [if_neg hne, htriggers]⟩

/-- The triggers of a table are those of the rules of the ledger. -/
theorem map_body_triggerNames (srv : Immutability.Server) (tbl : Table) :
    (triggerNames tbl).map (TriggerName.body srv) =
      (Immutability.triggers srv tbl).map (Sigma.mk tbl) := by
  cases tbl <;> rfl

/-- The schema of the last revision. -/
theorem Partly.asModelled (srv : Immutability.Server) {done : List Statement}
    (h : Partly dialect done s) (hhead : s.revision = some head) (tbl : Table) :
    ∃ l, s.catalog.layout? tbl = some l ∧ AsModelled dialect tbl l ∧ (dialect = str "mysql" →
      l.triggers.map (TriggerName.body srv) =
        (Immutability.triggers srv tbl).map (Sigma.mk tbl)) := by
  -- there is no next revision
  have hdone : done = [] := by
    have hfirst := h.first
    rw [hhead] at hfirst
    exact List.prefix_nil.mp hfirst
  have hcatalog := h.catalog
  rw [hhead, hdone, List.append_nil] at hcatalog
  obtain ⟨l, hl, hmodelled⟩ := head_asModelled dialect hcatalog tbl
  refine ⟨l, hl, hmodelled, fun hmysql => ?_⟩
  rw [hmodelled.2.2, if_pos hmysql]
  exact map_body_triggerNames srv tbl

/-- **The recorded revision tells the schema**, after any number of upgrades that may have stopped
anywhere: the schema is the one of the revision with some first statements of the next one. At the
last revision it is the one of `db/models.py`, with the triggers of the ledger on MySQL. An upgrade
that stopped between two statements is never resumed. -/
theorem recorded_revision (srv : Immutability.Server) (dialect : Str) (s : State)
    (h : Relation.ReflTransGen (Upgraded dialect) .empty s) :
    ∃ done, Partly dialect done s ∧
      (s.revision = some head → ∀ tbl, ∃ l, s.catalog.layout? tbl = some l ∧
        AsModelled dialect tbl l ∧ (dialect = str "mysql" →
          l.triggers.map (TriggerName.body srv) =
            (Immutability.triggers srv tbl).map (Sigma.mk tbl))) ∧
      (done ≠ [] → ∀ t, Relation.ReflTransGen (Upgraded dialect) s t →
        t.catalog = s.catalog ∧ t.revision = s.revision) := by
  obtain ⟨done, hpartly⟩ := ((partly_empty dialect).reach h).partly
  exact ⟨done, hpartly, hpartly.asModelled srv, fun hne t hreach => (hpartly.reach hreach).resumed hne⟩

/-- **Upgrades keep the rows**: whatever fails, a row of any revision is still there, its cells as
they were and after them the defaults of the columns that were added since. -/
theorem rows_kept (dialect : Str) (s t : State)
    (hs : Relation.ReflTransGen (Upgraded dialect) .empty s)
    (h : Relation.ReflTransGen (Upgraded dialect) s t) (tbl : Table)
    (l : Layout ColumnName IndexName TriggerName) (hl : s.catalog.layout? tbl = some l)
    (r : Cells ColumnName) (hr : r ∈ s.rows tbl) : Kept tbl r l.columns t.catalog t.rows := by
  obtain ⟨done, hpartly⟩ := ((partly_empty dialect).reach hs).partly
  refine (hpartly.reach h).kept tbl r l.columns ⟨l, [], [], hl, ?_, ?_, .nil⟩
  · rw [List.append_nil]
  · rwa [List.append_nil]

/-! ## Downgrades -/

/-- Others insert rows, or `alembic upgrade` or `alembic downgrade` is run. -/
inductive Commanded (dialect : Str) : State → State → Prop where
  | upgraded {s t : State} (h : Upgraded dialect s t) : Commanded dialect s t
  | downgraded {s t : State} {steps : ℕ} {trace : List (Entry sig State)} {o : Except Exc Unit}
      (h : Runs world (alembicDowngrade dialect steps) s trace o t) : Commanded dialect s t

/-- The database is as it was, with the row in its table. -/
structure Same (tbl : Table) (r : Cells ColumnName) (s t : State) : Prop where
  catalog : t.catalog = s.catalog
  revision : t.revision = s.revision
  row : r ∈ t.rows tbl

theorem Same.others {tbl : Table} {r : Cells ColumnName} (h : Same tbl r s t)
    (hothers : OthersInsert t u) : Same tbl r s u :=
  ⟨hothers.catalog.trans h.catalog, hothers.revision.trans h.revision, hothers.rows tbl r h.row⟩

/-- A question changes nothing. -/
theorem Answers.eq_of_question {c : Call} {v : sig.Answer c} (h : Answers c s v t)
    (hc : c = .recorded ∨ ∃ tbl, c = .versioned tbl) : t = s := by
  rcases hc with rfl | ⟨tbl, rfl⟩
  · cases h with
    | ok heffect | lost heffect =>
      cases heffect
      rfl
    | failed => rfl
  · cases h with
    | ok heffect | lost heffect =>
      cases heffect
      rfl
    | failed => rfl

/-- The check does not pass over a row with a key id. -/
theorem not_runs_refuseVersioned {tbls : List Table} {tbl : Table} {r : Cells ColumnName}
    {cell : Cell} (htbl : tbl ∈ tbls) (hcell : (ColumnName.integrity_key_id, cell) ∈ r)
    (hnull : cell ≠ .null) (hrow : r ∈ s.rows tbl) :
    ¬Runs world (Prog.forEach refuseVersioned tbls) s trace (.ok ()) t := by
  intro h
  induction tbls generalizing s trace with
  | nil => cases htbl
  | cons first tbls ih =>
    obtain ⟨⟨⟩, t₁, rest, u, -, hfirst, hrest⟩ := h.of_bind_ok
    obtain ⟨present, t₂, rest', v, -, hversioned, hraise⟩ := hfirst.of_bind_ok
    obtain ⟨w, hdrift, hanswer, -⟩ := hversioned.of_perform
    have hothers : OthersInsert s w := .of_drift hdrift
    have hsame : v = w := Answers.eq_of_question hanswer (.inr ⟨first, rfl⟩)
    have hanswer : Answers (.versioned first) w (.ok present) v := hanswer
    rcases List.mem_cons.mp htbl with rfl | hmem
    · have hpresent : present = true := by
        cases hanswer with
        | ok heffect =>
          cases heffect with
          | versioned hiff => exact hiff.mpr ⟨r, hothers.rows tbl r hrow, cell, hcell, hnull⟩
      rw [if_pos hpresent] at hraise
      cases hraise
    · by_cases hpresent : present = true
      · rw [if_pos hpresent] at hraise
        cases hraise
      · rw [if_neg hpresent] at hraise
        obtain ⟨-, -, rfl⟩ := hraise.of_ret
        rw [hsame] at hrest
        exact ih hmem (hothers.rows tbl r hrow) hrest

/-- The last revision is not undone where a row has a key id. -/
theorem Same.downgrade_0006 {tbl : Table} {r : Cells ColumnName} {cell : Cell}
    {o : Except Exc Unit} (h : Same tbl r s t)
    (htbl : tbl ∈ [Table.audit_events, .quarantined_audit_events])
    (hcell : (ColumnName.integrity_key_id, cell) ∈ r) (hnull : cell ≠ .null)
    (hrun : Runs world downgrade_0006 t trace o u) : Same tbl r s u ∧ ∃ e, o = .error e := by
  obtain ⟨e, rfl, hcheck⟩ | ⟨⟨⟩, first, rest, v, rfl, hcheck, -⟩ := hrun.of_bind
  · refine ⟨hcheck.keeps (P := fun c : Call => ∃ t, c = .versioned t) ?_ ?_ ?_ h, e, rfl⟩
    · refine Prog.All.bind ?_ fun _ => Prog.All.bind ?_ fun _ => trivial
      · refine (Prog.all_perform ⟨_, rfl⟩).bind fun present => ?_
        split_ifs <;> trivial
      · refine (Prog.all_perform ⟨_, rfl⟩).bind fun present => ?_
        split_ifs <;> trivial
    · exact fun _ _ hdrift hsame => hsame.others hdrift
    · intro c v x w hc hanswer hsame
      rwa [Answers.eq_of_question hanswer (.inr hc)]
  · exact absurd hcheck (not_runs_refuseVersioned htbl hcell hnull h.row)

/-- A command at the last revision. -/
theorem Same.command {tbl : Table} {r : Cells ColumnName} {f : Option Revision → Prog sig Unit}
    {o : Except Exc Unit} (h : Same tbl r s t) (hhead : s.revision = some head)
    (hrun : Runs world (ask .recorded >>= f) t trace o u) :
    Same tbl r s u ∨ ∃ rest v, Same tbl r s v ∧ Runs world (f (some head)) v rest o u := by
  obtain ⟨e, -, hrecorded⟩ | ⟨recorded, first, rest, v, rfl, hrecorded, hrest⟩ := hrun.of_bind
  · obtain ⟨w, hdrift, hanswer, -⟩ := hrecorded.of_perform
    have hsame : u = w := Answers.eq_of_question hanswer (.inl rfl)
    exact .inl (hsame ▸ h.others (.of_drift hdrift))
  · obtain ⟨w, hdrift, hanswer, -⟩ := hrecorded.of_perform
    have hanswer : Answers .recorded w (.ok recorded) v := hanswer
    have hw := h.others (.of_drift hdrift)
    cases hanswer with
    | ok heffect =>
      cases heffect
      rw [hw.revision.trans hhead] at hrest
      exact .inr ⟨rest, v, hw, hrest⟩

/-- **Key ids are not discarded.** Once a row of the ledger or of the quarantine has a key id, no
number of upgrades and downgrades changes the schema, the recorded revision or the row, whatever
fails. -/
theorem key_ids_kept (dialect : Str) (s t : State) (hhead : s.revision = some head) (tbl : Table)
    (htbl : tbl ∈ Immutability.recordTables) (r : Cells ColumnName) (hr : r ∈ s.rows tbl)
    (cell : Cell) (hcell : (ColumnName.integrity_key_id, cell) ∈ r) (hnull : cell ≠ .null)
    (h : Relation.ReflTransGen (Commanded dialect) s t) :
    t.catalog = s.catalog ∧ t.revision = s.revision ∧ r ∈ t.rows tbl := by
  suffices hsame : Same tbl r s t from ⟨hsame.catalog, hsame.revision, hsame.row⟩
  induction h with
  | refl => exact ⟨rfl, rfl, hr⟩
  | @tail t u _ hstep ih =>
    cases hstep with
    | upgraded hupgraded =>
      cases hupgraded with
      | others hothers => exact ih.others hothers
      | @command steps _ _ hrun =>
        obtain hsame | ⟨rest, v, hsame, hrest⟩ := ih.command hhead hrun
        · exact hsame
        · -- there is no later revision
          have hnone : (pending (some head)).take steps = [] := List.take_nil
          rw [hnone] at hrest
          obtain ⟨-, -, rfl⟩ := hrest.of_ret
          exact hsame
    | @downgraded steps _ _ hrun =>
      obtain hsame | ⟨rest, v, hsame, hrest⟩ := ih.command hhead hrun
      · exact hsame
      · cases steps with
        | zero =>
          obtain ⟨-, -, rfl⟩ := hrest.of_ret
          exact hsame
        | succ steps =>
          obtain ⟨e, -, hturn⟩ | ⟨⟨⟩, t₁, t₂, w, -, hturn, -⟩ := hrest.of_bind
          · obtain ⟨e, -, hdown⟩ | ⟨⟨⟩, t₃, t₄, x, -, hdown, -⟩ := hturn.of_bind
            · exact (hsame.downgrade_0006 htbl hcell hnull hdown).1
            · obtain ⟨-, e, he⟩ := hsame.downgrade_0006 htbl hcell hnull hdown
              cases he
          · obtain ⟨⟨⟩, t₃, t₄, x, -, hdown, -⟩ := hturn.of_bind_ok
            obtain ⟨-, e, he⟩ := hsame.downgrade_0006 htbl hcell hnull hdown
            cases he

/-! ## Runs -/

/-- The state when the statements have been executed at one moment. -/
def State.after (s : State) (ops : List Statement) (now : Naive) : State :=
  { s with catalog := (applyAll ops s.catalog).getD []
           rows := ops.foldl (fun rows op => op.onRows now rows) s.rows }

/-- A program of statements that are possible one after the other, where nothing fails. -/
theorem runs_script (now : Naive) {p : Prog sig Unit} (hp : Straight p)
    (h : (applyAll (script p) s.catalog).isSome) :
    ∃ trace, Runs world p s trace (.ok ()) (s.after (script p) now) := by
  induction p generalizing s with
  | ret a => exact ⟨[], .ret a s⟩
  | raise e => exact hp.elim
  | call c next ih =>
    cases c with
    | ddl op =>
      have hscript : applyAll (script (.call (.ddl op) next)) s.catalog =
          (op.onCatalog s.catalog).bind (applyAll (script (next (.ok ())))) := rfl
      rw [hscript] at h
      cases hop : op.onCatalog s.catalog with
      | none =>
        rw [hop] at h
        cases h
      | some middle =>
        rw [hop] at h
        obtain ⟨trace, hruns⟩ :=
          ih (.ok ()) (s := { s with catalog := middle, rows := op.onRows now s.rows }) hp.1 h
        have hend : State.after { s with catalog := middle, rows := op.onRows now s.rows }
            (script (next (.ok ()))) now = s.after (script (.call (.ddl op) next)) now := by
          simp only [State.after, hscript, hop]
          rfl
        rw [← hend]
        exact ⟨_, .call .refl (.ok (.ddl hop now)) hruns⟩
    | _ => exact hp.elim

/-- The database after the turn of a revision in which nothing fails. -/
def State.turn (s : State) (dialect : Str) (now : Naive) (m : Migration) : State :=
  { s.after (script (m.upgrade dialect)) now with revision := some m.revision }

/-- The turn of a revision in which nothing fails. -/
theorem runs_turn (dialect : Str) (now : Naive) {m : Migration} (hm : m ∈ versions)
    (hs : s.revision = m.down_revision)
    (h : (applyAll (script (m.upgrade dialect)) s.catalog).isSome) :
    ∃ trace, Runs world (do
      m.upgrade dialect
      ask (.record m.down_revision (some m.revision))) s trace (.ok ()) (s.turn dialect now m) := by
  obtain ⟨trace, hruns⟩ := runs_script now (straight_upgrade dialect m hm) h
  have hanswer : Answers (.record m.down_revision (some m.revision))
      (s.after (script (m.upgrade dialect)) now) (.ok ()) (s.turn dialect now m) :=
    .ok (.record hs)
  exact ⟨_, hruns.bind (.perform hanswer)⟩

/-- An upgrade by one revision. -/
theorem upgraded_turn (dialect : Str) (now : Naive) {m : Migration} {ms : List Migration}
    (hpending : pending s.revision = m :: ms)
    (h : (applyAll (script (m.upgrade dialect)) s.catalog).isSome) :
    Upgraded dialect s (s.turn dialect now m) := by
  obtain ⟨hm, hdown, -⟩ := pending_cons dialect hpending
  obtain ⟨trace, hturn⟩ := runs_turn dialect now hm hdown.symm h
  have hloop : Runs world (Prog.forEach (fun m => do
      m.upgrade dialect
      ask (.record m.down_revision (some m.revision))) ((pending s.revision).take 1)) s
      (trace ++ []) (.ok ()) (s.turn dialect now m) := by
    rw [hpending, List.take_succ_cons, List.take_zero]
    exact hturn.bind (.ret () _)
  have hcommand : Runs world (alembicUpgrade dialect 1) s _ (.ok ()) _ :=
    .bind (.perform (W := world) (.ok .recorded)) hloop
  exact .command hcommand

namespace Sample

/-- 2026-01-02T00:00:00. -/
def now : Naive := ⟨63902908800000000, by decide⟩

/-- An event of the first revision. -/
def event : Cells ColumnName :=
  [(.event_id, .text (str "evt-1")), (.timestamp, .dateTime now), (.service, .text (str "gateway")),
    (.event_type, .text (str "login")), (.user_id, .null), (.action, .text []), (.resource, .null),
    (.decision, .null), (.reason, .null), (.trace_id, .null), (.context, .json (.obj [])),
    (.created_at, .dateTime now)]

/-- The database of the first revision, with one event. -/
def first : State :=
  { State.empty.after (script upgrade_0001) now with
    rows := fun
      | .audit_events => [event]
      | _ => []
    revision := some .audit_events_0001 }

/-- The database of the second revision. -/
def second : State :=
  { first.after (script upgrade_0002) now with revision := some .integrity_status_0002 }

/-- The first of the three statements of the third revision. -/
def third : List Statement :=
  [.addColumn .audit_events (column .organization_id (.string 255) true)]

/-- The database of the last revision, with an entry in the quarantine that has a key id. -/
def versioned : State where
  catalog := (applyAll (statementsTo (str "mysql") (some head)) []).getD []
  rows := fun
    | .quarantined_audit_events =>
      [[(.stream_message_id, .text (str "1-0")), (.integrity_key_id, .text (str "k1"))]]
    | _ => []
  revision := some head

end Sample

/-- The first revision, and then an event. -/
theorem upgraded_first : Relation.ReflTransGen (Upgraded (str "mysql")) .empty Sample.first := by
  refine .tail (.single (upgraded_turn (m := versions[0]) (str "mysql") Sample.now rfl rfl))
    (.others ⟨rfl, rfl, fun t r hr => ?_⟩)
  cases t <;> cases hr

/-- The second revision. -/
theorem upgraded_second : Upgraded (str "mysql") Sample.first Sample.second :=
  upgraded_turn (m := versions[1]) (str "mysql") Sample.now rfl rfl

/-- The second revision, and then an upgrade that is killed after the first statement of the third:
no upgrade gets any further. -/
theorem recorded_revision_interrupted : ∃ s,
    Relation.ReflTransGen (Upgraded (str "mysql")) .empty s ∧
      s.revision = some .integrity_status_0002 ∧
      ∀ t, Relation.ReflTransGen (Upgraded (str "mysql")) s t →
        t.catalog = s.catalog ∧ t.revision = s.revision := by
  have hkilled : Runs world (alembicUpgrade (str "mysql") 1) Sample.second _
      (.error .databaseError) (Sample.second.after Sample.third Sample.now) :=
    .call .refl (.ok .recorded) (.call .refl (.lost (.ddl rfl Sample.now)) (.raise _ _))
  have hreach := (upgraded_first.tail upgraded_second).tail (.command hkilled)
  obtain ⟨done, hpartly, -, hnever⟩ :=
    recorded_revision ⟨str "root", id, by decide⟩ (str "mysql") _ hreach
  refine ⟨_, hreach, rfl, hnever ?_⟩
  -- the column is there, which it is not at the second revision
  rintro rfl
  exact absurd hpartly.catalog (by decide +kernel)

/-- The event of the first revision gets the status of an unsigned one. -/
theorem rows_kept_unsigned : ∃ l,
    Sample.first.catalog.layout? .audit_events = some l ∧
      Kept .audit_events Sample.event l.columns Sample.second.catalog Sample.second.rows ∧
      Sample.second.rows .audit_events =
        [Sample.event ++ [(.integrity_status, .text (str "unsigned"))]] :=
  ⟨_, rfl, rows_kept (str "mysql") Sample.first Sample.second upgraded_first
    (.single upgraded_second) .audit_events _ rfl Sample.event List.mem_cons_self, rfl⟩

/-- A downgrade is refused, and leaves everything as it is. -/
theorem key_ids_kept_refused : ∃ trace,
    Runs world (alembicDowngrade (str "mysql") 1) Sample.versioned trace
      (.error (.runtimeError (str "cannot downgrade while quarantined_audit_events contains " ++
        str "versioned integrity records"))) Sample.versioned ∧
    [(.stream_message_id, .text (str "1-0")), (.integrity_key_id, .text (str "k1"))] ∈
      Sample.versioned.rows .quarantined_audit_events := by
  have hevents : Effect (.versioned .audit_events) Sample.versioned false Sample.versioned := by
    refine .versioned ⟨nofun, ?_⟩
    rintro ⟨r, hr, -⟩
    cases hr
  have hquarantine : Effect (.versioned .quarantined_audit_events) Sample.versioned true
      Sample.versioned :=
    .versioned ⟨fun _ => ⟨_, List.mem_cons_self, .text (str "k1"), by simp, nofun⟩, fun _ => rfl⟩
  have hrun : Runs world (alembicDowngrade (str "mysql") 1) Sample.versioned _ _ Sample.versioned :=
    .call .refl (.ok .recorded) (.call .refl (.ok hevents) (.call .refl (.ok hquarantine)
      (.raise _ _)))
  have hkept := key_ids_kept (str "mysql") Sample.versioned Sample.versioned rfl
    .quarantined_audit_events (by decide) _ List.mem_cons_self (.text (str "k1"))
    (by simp) nofun (.single (.downgraded hrun))
  exact ⟨_, hrun, hkept.2.2⟩

end Migrations

end SecurityAudit
