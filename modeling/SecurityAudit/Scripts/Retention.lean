import SecurityAudit.Db.Immutability
import SecurityAudit.Prog.Observed

/-!
# Retention cleanup: `scripts/audit_retention_cleanup.py`

`main` as a program over what it asks of the world: the clock, the SQL engine, and for each table
a connection of its own with a count, a delete and a commit. A call that fails has no effect, with
one exception: a COMMIT may be carried out although its reply is lost. What a connection has
deleted and not committed is undone when it is closed. Meanwhile others write: they insert records,
and they declare and release legal holds.

What the script prints is left out, and so is the security alert at its end: writing to the
standard streams is taken to succeed.
-/

namespace SecurityAudit

namespace Retention

open Immutability

/-! ## The script -/

/-- The value of the table's date column. -/
def dateOf : (t : Table) → t.Row → Naive
  | .audit_events, r => r.timestamp
  | .quarantined_audit_events, r => r.quarantined_at
  | .audit_legal_holds, r => r.held_at

inductive Exc where
  | systemExit (code : ℕ)
  | overflowError
  | argumentError
  | sqlAlchemyError
  | osError

/-- An entry of `results`. -/
inductive Result where
  /-- `"dry_run"` -/
  | dryRun (count : ℕ)
  /-- `"success"` -/
  | success (count : ℕ)
  /-- `"partial"` -/
  | incomplete (expected actual : ℕ)
  /-- `"failed"` -/
  | failed (error : Exc)

/-- The calls. Those on a connection name the table it was opened for. -/
inductive Call where
  /-- `datetime.now(timezone.utc)` -/
  | now
  /-- `create_engine(maintenance_url)` -/
  | createEngine (url : Str)
  /-- `engine.connect()` -/
  | connect (t : Table)
  /-- the statement of `_count_eligible` -/
  | countEligible (t : Table) (cutoff : Naive)
  /-- the statement of `_delete_eligible` -/
  | deleteEligible (t : Table) (cutoff : Naive)
  /-- `conn.commit()` -/
  | commit (t : Table)
  /-- the end of the `with` block, which rolls back -/
  | close (t : Table)
  /-- `_write_status_file` -/
  | writeStatusFile (execute overall_ok : Bool) (results : List (Table × Result))

def Call.Reply : Call → Type
  | .now => Naive
  | .createEngine _ => Unit
  | .connect _ => Unit
  | .countEligible _ _ => ℕ
  | .deleteEligible _ _ => ℕ
  | .commit _ => Unit
  | .close _ => Unit
  | .writeStatusFile _ _ _ => Unit

/-- The table a call is about. -/
def Call.table? : Call → Option Table
  | .connect t | .countEligible t _ | .deleteEligible t _ | .commit t | .close t => some t
  | _ => none

abbrev sqlSig : Sig := ⟨Call, Call.Reply, Exc⟩

abbrev ask (c : Call) : Prog sqlSig c.Reply := @Prog.perform sqlSig c

/-- The command line. -/
structure Args where
  execute : Bool
  dry_run : Bool

/-- The environment variables, and how `int` reads a text. -/
structure Settings where
  audit_retention_days : Option Str
  audit_maintenance_database_url : Option Str
  int : Str → Option ℤ

/-- A day, in microseconds. -/
def dayUs : ℕ := 86400000000

/-- `_cutoff`: a cutoff before the year 1 raises. -/
def cutoff (now : Naive) (retention_days : ℤ) : Except Exc Naive :=
  match Naive.ofInt? (now.us - retention_days * dayUs) with
  | some t => .ok t
  | none => .error .overflowError

/-- The inside of the `with` block. -/
def operate (execute : Bool) (cutoff : Naive) (t : Table) : Prog sqlSig Result := do
  let eligible : ℕ ← ask (.countEligible t cutoff)
  if execute = false then return .dryRun eligible
  else if eligible = 0 then return .success 0
  else
    let deleted : ℕ ← ask (.deleteEligible t cutoff)
    ask (.commit t)
    if deleted ≠ eligible then return .incomplete eligible deleted
    else return .success deleted

/-- The `with` block. -/
def withConnection (execute : Bool) (cutoff : Naive) (t : Table) : Prog sqlSig Result := do
  ask (.connect t)
  Prog.ensuring (operate execute cutoff t) (ask (.close t))

/-- The turn of one table. -/
def turn (execute : Bool) (cutoff : Naive) (t : Table) : Prog sqlSig Result := do
  match ← (withConnection execute cutoff t).attempt with
  | .ok result => return result
  | .error e => return .failed e

/-- The loop over `_TABLES`. -/
def turns (execute : Bool) (cutoff : Naive) : List Table → Prog sqlSig (List (Table × Result))
  | [] => return []
  | t :: ts => do
    let result ← turn execute cutoff t
    let results ← turns execute cutoff ts
    return (t, result) :: results

/-- The results that leave `overall_ok` true. -/
def Result.isOk : Result → Bool
  | .dryRun _ | .success _ => true
  | .incomplete _ _ | .failed _ => false

/-- What `main` does once it is configured. -/
def clean (execute : Bool) (retention_days : ℤ) (url : Str) : Prog sqlSig ℕ := do
  let now ← ask .now
  let cutoff ← Prog.ofExcept (cutoff now retention_days)
  ask (.createEngine url)
  let results ← turns execute cutoff recordTables
  let overall_ok := results.all fun r => r.2.isOk
  ask (.writeStatusFile execute overall_ok results)
  if overall_ok = true then return 0 else return 1

/-- `main`. -/
def main (S : Settings) (args : Args) : Prog sqlSig ℕ :=
  if args.dry_run = true ∧ args.execute = true then .raise (.systemExit 2)
  else match S.audit_retention_days.filter (· ≠ []) with
    | none => return 0
    | some retention_days_raw =>
      match S.int retention_days_raw with
      | none => return 1
      | some retention_days =>
        if retention_days ≤ 0 then return 1
        else match S.audit_maintenance_database_url.filter (· ≠ []) with
          | none => return 1
          | some maintenance_url => clean args.execute retention_days maintenance_url

/-! ## The world -/

variable (srv : Server)

/-- What is committed, and the keys of what the open transaction has deleted. -/
structure State where
  db : Db srv
  pending : Table → List (List Str)

variable {srv}

/-- The row is older than the cutoff and no hold matches it. -/
def Eligible (db : Db srv) (t : Table) (cutoff : Naive) (r : t.Row) : Prop :=
  (dateOf t r).us < cutoff.us ∧ ¬Held srv db t (t.recordKey r)

instance (db : Db srv) (t : Table) (cutoff : Naive) (r : t.Row) :
    Decidable (Eligible db t cutoff r) := inferInstanceAs (Decidable (_ ∧ _))

/-- The rows of a table that the open transaction sees and that are eligible. -/
def State.eligible (s : State srv) (t : Table) (cutoff : Naive) : List t.Row :=
  (s.db.rows t).filter fun r =>
    decide ((schema srv).key t r ∉ s.pending t ∧ Eligible s.db t cutoff r)

/-- No transaction has deleted anything. -/
def State.fresh (s : State srv) : State srv where
  db := s.db
  pending := fun _ => []

/-- The transaction deletes the eligible rows. -/
def State.deleted (s : State srv) (t : Table) (cutoff : Naive) : State srv where
  db := s.db
  pending := Function.update s.pending t
    (s.pending t ++ (s.eligible t cutoff).map ((schema srv).key t))

/-- The rows that are left once the transaction is committed. -/
def State.kept (s : State srv) (t : Table) : List t.Row :=
  (s.db.rows t).filter fun r => decide ((schema srv).key t r ∉ s.pending t)

/-- The transaction is committed. -/
def State.committed (s : State srv) : State srv where
  db := ⟨s.kept, fun t => (s.db.unique t).sublist (List.filter_sublist.map _)⟩
  pending := fun _ => []

/-- How calls are answered. -/
inductive Answers : (c : Call) → State srv → sqlSig.Answer c → State srv → Prop where
  | now (s : State srv) (t : Naive) : Answers .now s (.ok t) s
  | createdEngine (s : State srv) (url : Str) : Answers (.createEngine url) s (.ok ()) s
  | connected (s : State srv) (t : Table) : Answers (.connect t) s (.ok ()) s.fresh
  | counted (s : State srv) (t : Table) (cutoff : Naive) :
    Answers (.countEligible t cutoff) s (.ok (s.eligible t cutoff).length) s
  | deleted (s : State srv) (t : Table) (cutoff : Naive) :
    Answers (.deleteEligible t cutoff) s (.ok (s.eligible t cutoff).length) (s.deleted t cutoff)
  | committed (s : State srv) (t : Table) : Answers (.commit t) s (.ok ()) s.committed
  /-- the server commits, and the connection breaks before its reply -/
  | commitLost (s : State srv) (t : Table) (e : Exc) : Answers (.commit t) s (.error e) s.committed
  | closed (s : State srv) (t : Table) : Answers (.close t) s (.ok ()) s.fresh
  | wroteStatusFile (s : State srv) (execute overall_ok : Bool) (results : List (Table × Result)) :
    Answers (.writeStatusFile execute overall_ok results) s (.ok ()) s
  | failed {c : Call} (hc : ∀ t, c ≠ .close t) (s : State srv) (e : Exc) : Answers c s (.error e) s

/-- Others insert records, and declare and release holds. -/
structure OthersWrite (s s' : State srv) : Prop where
  inserted : ∀ t ∈ recordTables, ∀ r ∈ s.db.rows t, r ∈ s'.db.rows t
  pending : s'.pending = s.pending

/-- The database, with others at work. -/
def world (srv : Server) : World sqlSig (State srv) := ⟨Answers, OthersWrite⟩

/-! ## What is lost -/

/-- An answered call of the script. -/
abbrev Step (srv : Server) : Type := Entry sqlSig (State srv)

/-- A call took the row away. -/
def Lost (trace : List (Step srv)) (t : Table) (r : t.Row) : Prop :=
  ∃ e ∈ trace, r ∈ e.before.db.rows t ∧ r ∉ e.after.db.rows t

/-- The table had its turn. -/
def HadTurn (trace : List (Step srv)) (t : Table) : Prop := ∃ e ∈ trace, e.event.1.table? = some t

/-- A call in the table's turn raised. -/
def RaisedFor (trace : List (Step srv)) (t : Table) : Prop :=
  ∃ e ∈ trace, e.event.1.table? = some t ∧ e.Raised

/-- The COMMIT of the table's turn raised although the server had carried it out. -/
def CommitLost (trace : List (Step srv)) (t : Table) : Prop :=
  ∃ e ∈ trace, e.event.1 = .commit t ∧ e.Raised ∧ e.after = e.before.committed

/-- The count of the table's turn was `n`. -/
def Counted (trace : List (Step srv)) (t : Table) (cutoff : Naive) (n : ℕ) : Prop :=
  ∃ e ∈ trace, e.event = ⟨.countEligible t cutoff, .ok n⟩

/-- The delete of the table's turn deleted `n` rows, and in the state of that moment `P` holds. -/
def Deleted (trace : List (Step srv)) (t : Table) (cutoff : Naive) (n : ℕ) (P : Db srv → Prop) :
    Prop :=
  ∃ e ∈ trace, e.event = ⟨.deleteEligible t cutoff, .ok n⟩ ∧ P e.before.db

variable {trace trace' : List (Step srv)} {s s' u : State srv} {t : Table} {c : Call}

theorem OthersWrite.refl (s : State srv) : OthersWrite s s := ⟨fun _ _ _ h => h, rfl⟩

theorem OthersWrite.of_drift (h : Relation.ReflTransGen (world srv).drift s s') :
    OthersWrite s s' := by
  induction h with
  | refl => exact .refl s
  | tail _ hstep ih =>
    have hstep : OthersWrite _ _ := hstep
    exact ⟨fun t ht r hr => hstep.inserted t ht r (ih.inserted t ht r hr),
      hstep.pending.trans ih.pending⟩

theorem lost_append {r : t.Row} :
    Lost (trace ++ trace') t r ↔ Lost trace t r ∨ Lost trace' t r := by
  simp only [Lost, List.mem_append, or_and_right, exists_or]

theorem lost_cons {e : Step srv} {r : t.Row} :
    Lost (e :: trace) t r ↔
      (r ∈ e.before.db.rows t ∧ r ∉ e.after.db.rows t) ∨ Lost trace t r := by
  simp only [Lost, List.exists_mem_cons_iff]

@[simp] theorem not_lost_nil {r : t.Row} : ¬Lost ([] : List (Step srv)) t r := by simp [Lost]

/-- Nothing is lost where every call leaves the tables as they are. -/
theorem not_lost_of_db_eq (h : ∀ e ∈ trace, e.after.db = e.before.db) (r : t.Row) :
    ¬Lost trace t r := by
  rintro ⟨e, he, hr, hr'⟩
  rw [h e he] at hr'
  exact hr' hr

/-- Only a commit changes the tables. -/
theorem Answers.db_eq {r : sqlSig.Answer c} (h : Answers c s r s') (hc : ∀ t, c ≠ .commit t) :
    s'.db = s.db := by
  cases h with
  | committed _ t => exact absurd rfl (hc t)
  | commitLost _ t e => exact absurd rfl (hc t)
  | _ => rfl

/-- With nothing pending, all rows are seen. -/
theorem mem_eligible {cutoff : Naive} (h : s.pending = fun _ => []) {r : t.Row} :
    r ∈ s.eligible t cutoff ↔ r ∈ s.db.rows t ∧ Eligible s.db t cutoff r := by
  simp [State.eligible, h]

/-- What is lost when a delete with nothing pending before it is committed. -/
theorem lost_committed {cutoff : Naive} (ht : t ∈ recordTables) (hs : s.pending = fun _ => [])
    (hdrift : OthersWrite (s.deleted t cutoff) u) :
    (∀ r, (r ∈ u.db.rows t ∧ r ∉ u.committed.db.rows t) ↔ r ∈ s.eligible t cutoff) ∧
      ∀ t' ≠ t, ∀ r, ¬(r ∈ u.db.rows t' ∧ r ∉ u.committed.db.rows t') := by
  have hpending : u.pending = (s.deleted t cutoff).pending := hdrift.pending
  have hlost : ∀ (t' : Table) r, (r ∈ u.db.rows t' ∧ r ∉ u.committed.db.rows t') ↔
      r ∈ u.db.rows t' ∧ (schema srv).key t' r ∈ u.pending t' := by
    intro t' r
    simp only [State.committed, State.kept, List.mem_filter, decide_eq_true_eq]
    tauto
  constructor
  · intro r
    rw [hlost, hpending]
    simp only [State.deleted, Function.update_self, hs, List.nil_append, List.mem_map]
    constructor
    · rintro ⟨hr, r', hr', hkey⟩
      have hrow : r' ∈ u.db.rows t :=
        hdrift.inserted t ht r' ((mem_eligible hs).mp hr').1
      rwa [← Sql.Db.eq_of_key hrow hr hkey]
    · intro hr
      exact ⟨hdrift.inserted t ht r ((mem_eligible hs).mp hr).1, r, hr, rfl⟩
  · intro t' hne r h
    rw [hlost, hpending] at h
    simp [State.deleted, hne, hs] at h

/-! ## The turn of a table -/

/-- No call raised. -/
def Unraised (trace : List (Step srv)) : Prop := ∀ e ∈ trace, ¬e.Raised

/-- The rows that went are the ones the delete found eligible, `m` of them. -/
structure Purged (trace : List (Step srv)) (t : Table) (cutoff : Naive) (m : ℕ) : Prop where
  others : ∀ t' ≠ t, ∀ r, ¬Lost trace t' r
  deleted : Deleted trace t cutoff m fun db =>
    m = ((db.rows t).filter fun r => decide (Eligible db t cutoff r)).length ∧
      ∀ r, Lost trace t r ↔ r ∈ db.rows t ∧ Eligible db t cutoff r

/-- How the turn of a table can go. -/
inductive TurnSpec (execute : Bool) (cutoff : Naive) (t : Table) (trace : List (Step srv)) :
    Except Exc Result → Prop where
  | raised (e : Exc) (hraised : ∃ e ∈ trace, e.Raised) (hcommit : ¬CommitLost trace t)
    (hkept : ∀ t' r, ¬Lost trace t' r) : TurnSpec execute cutoff t trace (.error e)
  | unanswered (e : Exc) (m : ℕ) (hexecute : execute = true) (hcommit : CommitLost trace t)
    (hpurged : Purged trace t cutoff m) : TurnSpec execute cutoff t trace (.error e)
  | dryRun (n : ℕ) (hexecute : execute = false) (hunraised : Unraised trace)
    (hkept : ∀ t' r, ¬Lost trace t' r) : TurnSpec execute cutoff t trace (.ok (.dryRun n))
  | nothing (hexecute : execute = true) (hunraised : Unraised trace)
    (hcounted : Counted trace t cutoff 0) (hkept : ∀ t' r, ¬Lost trace t' r) :
    TurnSpec execute cutoff t trace (.ok (.success 0))
  | purged (n m : ℕ) (hexecute : execute = true) (hunraised : Unraised trace)
    (hcounted : Counted trace t cutoff n) (hpurged : Purged trace t cutoff m) :
    TurnSpec execute cutoff t trace (.ok (if m ≠ n then .incomplete n m else .success m))

/-- A call that neither raised nor touched the tables. -/
def Silent (trace : List (Step srv)) : Prop :=
  ∀ e ∈ trace, ¬e.Raised ∧ e.after.db = e.before.db

theorem Silent.lost_iff {before after : List (Step srv)} (hb : Silent before) (ha : Silent after)
    (r : t.Row) : Lost (before ++ trace ++ after) t r ↔ Lost trace t r := by
  rw [lost_append, lost_append]
  have hbefore := not_lost_of_db_eq (fun e he => (hb e he).2) r
  have hafter := not_lost_of_db_eq (fun e he => (ha e he).2) r
  tauto

theorem Silent.commitLost_iff {before after : List (Step srv)} (hb : Silent before)
    (ha : Silent after) : CommitLost (before ++ trace ++ after) t ↔ CommitLost trace t := by
  constructor
  · intro ⟨e, he, hcall, hraised, hafter⟩
    rw [List.mem_append, List.mem_append] at he
    rcases he with (he | he) | he
    · exact absurd hraised (hb e he).1
    · exact ⟨e, he, hcall, hraised, hafter⟩
    · exact absurd hraised (ha e he).1
  · intro ⟨e, he, hlost⟩
    exact ⟨e, by simp [he], hlost⟩

theorem Silent.unraised {before after : List (Step srv)} (hb : Silent before) (ha : Silent after)
    (h : Unraised trace) : Unraised (before ++ trace ++ after) := by
  intro e he
  rw [List.mem_append, List.mem_append] at he
  rcases he with (he | he) | he
  · exact (hb e he).1
  · exact h e he
  · exact (ha e he).1

theorem Silent.purged {before after : List (Step srv)} {cutoff : Naive} {m : ℕ}
    (hb : Silent before) (ha : Silent after) (h : Purged trace t cutoff m) :
    Purged (before ++ trace ++ after) t cutoff m := by
  obtain ⟨d, hd, hdeleted, hm, hlost⟩ := h.deleted
  refine ⟨fun t' ht' r => ?_, d, by simp [hd], hdeleted, hm, fun r => ?_⟩
  · rw [hb.lost_iff ha]
    exact h.others t' ht' r
  · rw [hb.lost_iff ha]
    exact hlost r

/-- A turn stays what it is with the connection around it. -/
theorem TurnSpec.pad {execute : Bool} {cutoff : Naive} {o : Except Exc Result}
    {before after : List (Step srv)} (h : TurnSpec execute cutoff t trace o) (hb : Silent before)
    (ha : Silent after) : TurnSpec execute cutoff t (before ++ trace ++ after) o := by
  have hmem : ∀ e ∈ trace, e ∈ before ++ trace ++ after := fun e he => by simp [he]
  have hkept : (∀ t' r, ¬Lost trace t' r) → ∀ t' r, ¬Lost (before ++ trace ++ after) t' r :=
    fun h t' r => by rw [hb.lost_iff ha]; exact h t' r
  cases h with
  | raised e hraised hcommit hspared =>
    obtain ⟨e', he', hraised⟩ := hraised
    refine .raised e ⟨e', hmem e' he', hraised⟩ ?_ (hkept hspared)
    rwa [hb.commitLost_iff ha]
  | unanswered e m hexecute hcommit hpurged =>
    exact .unanswered e m hexecute ((hb.commitLost_iff ha).mpr hcommit) (hb.purged ha hpurged)
  | dryRun n hexecute hunraised hspared =>
    exact .dryRun n hexecute (hb.unraised ha hunraised) (hkept hspared)
  | nothing hexecute hunraised hcounted hspared =>
    obtain ⟨c, hc, hcounted⟩ := hcounted
    exact .nothing hexecute (hb.unraised ha hunraised) ⟨c, hmem c hc, hcounted⟩ (hkept hspared)
  | purged n m hexecute hunraised hcounted hpurged =>
    obtain ⟨c, hc, hcounted⟩ := hcounted
    exact .purged n m hexecute (hb.unraised ha hunraised) ⟨c, hmem c hc, hcounted⟩
      (hb.purged ha hpurged)

/-- A call that raised left everything as it was, or was a COMMIT that was carried out. -/
theorem Answers.of_error {e : Exc} (h : Answers c s (.error e) s') :
    s' = s ∨ (∃ t, c = .commit t) ∧ s' = s.committed := by
  cases h with
  | commitLost _ t _ => exact .inr ⟨⟨t, rfl⟩, rfl⟩
  | failed _ _ _ => exact .inl rfl

/-- A trace whose last call raised and did nothing, after calls that left the tables alone. -/
theorem TurnSpec.of_raised {execute : Bool} {cutoff : Naive} {e : Exc} {last : Step srv}
    (trace : List (Step srv)) (hfirst : Silent trace) (hraised : last.Raised)
    (hlast : last.after = last.before)
    (hcommit : last.event.1 = .commit t → last.after ≠ last.before.committed) :
    TurnSpec execute cutoff t (trace ++ [last]) (.error e) := by
  refine .raised e ⟨last, by simp, hraised⟩ ?_ fun t' r => not_lost_of_db_eq (fun x hx => ?_) r
  · intro ⟨x, hx, hcall, hxraised, hafter⟩
    rcases List.mem_append.mp hx with hx | hx
    · exact (hfirst x hx).1 hxraised
    · rw [List.mem_singleton.mp hx] at hcall hafter
      exact hcommit hcall hafter
  · rcases List.mem_append.mp hx with hx | hx
    · exact (hfirst x hx).2
    · rw [List.mem_singleton.mp hx, hlast]

/-- The call that raised, where it is not the COMMIT, is the end of a turn that did nothing. -/
theorem TurnSpec.of_answer {execute : Bool} {cutoff : Naive} {e : Exc} (trace : List (Step srv))
    (hfirst : Silent trace) (h : Answers c s (.error e) s') (hc : ∀ t, c ≠ .commit t) :
    TurnSpec execute cutoff t (trace ++ [⟨s, ⟨c, .error e⟩, s'⟩]) (.error e) := by
  refine .of_raised trace hfirst rfl ?_ fun hcommit => absurd hcommit (hc t)
  rcases h.of_error with hsame | ⟨⟨t', ht'⟩, -⟩
  · exact hsame
  · exact absurd ht' (hc t')

/-- The delete and the commit, in a turn that counted something: what is lost if the commit was
carried out. -/
theorem purged_of_commit {cutoff : Naive} (ht : t ∈ recordTables) (hs : s.pending = fun _ => [])
    {count : Step srv} (hcount : count.after.db = count.before.db)
    (hdrift : OthersWrite (s.deleted t cutoff) u) (r : sqlSig.Answer (.commit t)) :
    Purged [count,
      ⟨s, ⟨.deleteEligible t cutoff, .ok (s.eligible t cutoff).length⟩, s.deleted t cutoff⟩,
      ⟨u, ⟨.commit t, r⟩, u.committed⟩] t cutoff (s.eligible t cutoff).length := by
  obtain ⟨hlost, hothers⟩ := lost_committed ht hs hdrift
  -- of the three calls only the commit takes rows away
  have hall : ∀ (t' : Table) x, Lost [count,
      ⟨s, ⟨.deleteEligible t cutoff, .ok (s.eligible t cutoff).length⟩, s.deleted t cutoff⟩,
      ⟨u, ⟨.commit t, r⟩, u.committed⟩] t' x ↔
        (x ∈ u.db.rows t' ∧ x ∉ u.committed.db.rows t') := by
    intro t' x
    simp [lost_cons, hcount, State.deleted]
  refine ⟨fun t' ht' x => ?_, _, List.mem_cons_of_mem _ List.mem_cons_self, rfl, ?_, fun x => ?_⟩
  · exact fun h => hothers t' ht' x ((hall t' x).mp h)
  · simp [State.eligible, hs]
  · exact ((hall t x).trans (hlost x)).trans (mem_eligible hs)

/-- What follows the count, in a turn that has something to delete. -/
theorem runs_purge {cutoff : Naive} {o : Except Exc Result} {n : ℕ} (ht : t ∈ recordTables)
    (hs : s.pending = fun _ => []) (count : Step srv)
    (hcount : count.event = ⟨.countEligible t cutoff, .ok n⟩)
    (hafter : count.after.db = count.before.db)
    (h : Runs (world srv) (do
      let deleted : ℕ ← ask (.deleteEligible t cutoff)
      ask (.commit t)
      if deleted ≠ n then return .incomplete n deleted
      else return .success deleted) s trace o u) :
    TurnSpec true cutoff t (count :: trace) o ∧ ∀ e ∈ trace, e.event.1.table? = some t := by
  have hcounted : Silent [count] := by
    intro e he
    rw [List.mem_singleton.mp he]
    exact ⟨Entry.not_raised hcount, hafter⟩
  obtain ⟨e, rfl, hdelete⟩ | ⟨m, first, rest, s₂, rfl, hdelete, hrest⟩ := h.of_bind
  · obtain ⟨s₂, -, hanswer, rfl⟩ := hdelete.of_perform
    exact ⟨.of_answer [count] hcounted hanswer nofun, by simp [Call.table?]⟩
  obtain ⟨s₂, hdrift₂, hanswer₂, rfl⟩ := hdelete.of_perform
  have hpending₂ : s₂.pending = fun _ => [] := (OthersWrite.of_drift hdrift₂).pending.trans hs
  cases hanswer₂
  have hdeleted : Silent [count,
      ⟨s₂, ⟨.deleteEligible t cutoff, .ok (s₂.eligible t cutoff).length⟩, s₂.deleted t cutoff⟩] := by
    intro e he
    rcases List.mem_cons.mp he with rfl | he
    · exact hcounted _ (List.mem_singleton_self _)
    · rw [List.mem_singleton.mp he]
      exact ⟨Entry.not_raised rfl, rfl⟩
  obtain ⟨e, rfl, hcommit⟩ | ⟨⟨⟩, first, rest', s₃, rfl, hcommit, hend⟩ := hrest.of_bind
  · -- a COMMIT that raised took the rows away or did nothing
    obtain ⟨s₃, hdrift₃, hanswer, rfl⟩ := hcommit.of_perform
    refine ⟨?_, by simp [Call.table?]⟩
    by_cases hdone : u = s₃.committed
    · subst hdone
      exact .unanswered e _ rfl ⟨_, List.mem_of_getLast? rfl, rfl, rfl, rfl⟩
        (purged_of_commit ht hpending₂ hafter (.of_drift hdrift₃) _)
    · have hsame : u = s₃ := hanswer.of_error.resolve_right fun h => hdone h.2
      exact .of_raised _ hdeleted rfl hsame fun _ => hdone
  obtain ⟨s₃, hdrift₃, hanswer₃, rfl⟩ := hcommit.of_perform
  cases hanswer₃
  have hend : rest' = [] ∧ o = .ok (if (s₂.eligible t cutoff).length ≠ n
      then .incomplete n (s₂.eligible t cutoff).length
      else .success (s₂.eligible t cutoff).length) := by
    split_ifs at hend ⊢
    · exact ⟨hend.of_ret.1, hend.of_ret.2.1⟩
    · exact ⟨hend.of_ret.1, hend.of_ret.2.1⟩
  obtain ⟨rfl, rfl⟩ := hend
  refine ⟨.purged n _ rfl ?_ ⟨count, by simp, hcount⟩
    (purged_of_commit ht hpending₂ hafter (.of_drift hdrift₃) _), by simp [Call.table?]⟩
  intro e he
  simp only [List.mem_cons, List.nil_append, List.not_mem_nil, or_false, List.cons_append] at he
  rcases he with rfl | rfl | rfl
  · exact (hcounted _ (List.mem_singleton_self _)).1
  · exact Entry.not_raised rfl
  · exact Entry.not_raised rfl

theorem runs_operate {execute : Bool} {cutoff : Naive} {o : Except Exc Result}
    (ht : t ∈ recordTables) (hs : s.pending = fun _ => [])
    (h : Runs (world srv) (operate execute cutoff t) s trace o u) :
    TurnSpec execute cutoff t trace o ∧ ∀ e ∈ trace, e.event.1.table? = some t := by
  obtain ⟨e, rfl, hcount⟩ | ⟨n, first, rest, s₁, rfl, hcount, hrest⟩ := h.of_bind
  · obtain ⟨s₁, -, hanswer, rfl⟩ := hcount.of_perform
    exact ⟨.of_answer [] (by simp [Silent]) hanswer nofun, by simp [Call.table?]⟩
  obtain ⟨s₁, hdrift₁, hanswer₁, rfl⟩ := hcount.of_perform
  have hpending₁ : s₁.pending = fun _ => [] := (OthersWrite.of_drift hdrift₁).pending.trans hs
  cases hanswer₁
  by_cases hexecute : execute = false
  · rw [if_pos hexecute] at hrest
    obtain ⟨rfl, rfl, rfl⟩ := hrest.of_ret
    refine ⟨.dryRun _ hexecute ?_ ?_, by simp [Call.table?]⟩
    · simp [Unraised, Entry.Raised, Except.isOk, Except.toBool]
    · exact fun t' r => not_lost_of_db_eq (by simp) r
  rw [if_neg hexecute] at hrest
  rw [Bool.not_eq_false] at hexecute
  by_cases hzero : (s₁.eligible t cutoff).length = 0
  · rw [if_pos hzero] at hrest
    obtain ⟨rfl, rfl, rfl⟩ := hrest.of_ret
    refine ⟨.nothing hexecute ?_ ⟨_, List.mem_cons_self, ?_⟩ ?_, by simp [Call.table?]⟩
    · simp [Unraised, Entry.Raised, Except.isOk, Except.toBool]
    · show (⟨.countEligible t cutoff, .ok (u.eligible t cutoff).length⟩ : sqlSig.Event) = _
      exact congrArg (fun n : ℕ => (⟨.countEligible t cutoff, .ok n⟩ : sqlSig.Event)) hzero
    · exact fun t' r => not_lost_of_db_eq (by simp) r
  · rw [if_neg hzero] at hrest
    obtain ⟨hspec, habout⟩ := runs_purge ht hpending₁ ⟨s₁, ⟨.countEligible t cutoff,
      .ok (s₁.eligible t cutoff).length⟩, s₁⟩ rfl rfl hrest
    subst hexecute
    refine ⟨hspec, fun e he => ?_⟩
    rcases List.mem_cons.mp he with rfl | he
    · rfl
    · exact habout e he

/-- Closing a connection never raises. -/
theorem runs_close {r : Except Exc Unit} (h : Runs (world srv) (ask (.close t)) s trace r u) :
    r = .ok () ∧ Silent trace ∧ ∀ e ∈ trace, e.event.1.table? = some t := by
  obtain ⟨s', -, hanswer, rfl⟩ := h.of_perform
  cases hanswer with
  | closed =>
    refine ⟨rfl, ?_, by simp [Call.table?]⟩
    simp [Silent, Entry.Raised, Except.isOk, Except.toBool, State.fresh]
  | failed hc => exact absurd rfl (hc t)

theorem runs_withConnection {execute : Bool} {cutoff : Naive} {o : Except Exc Result}
    (ht : t ∈ recordTables)
    (h : Runs (world srv) (withConnection execute cutoff t) s trace o u) :
    TurnSpec execute cutoff t trace o ∧ HadTurn trace t ∧
      ∀ e ∈ trace, e.event.1.table? = some t := by
  obtain ⟨e, rfl, hconnect⟩ | ⟨⟨⟩, first, rest, s₁, rfl, hconnect, hrest⟩ := h.of_bind
  · obtain ⟨s₁, -, hanswer, rfl⟩ := hconnect.of_perform
    exact ⟨.of_answer [] (by simp [Silent]) hanswer nofun,
      ⟨_, List.mem_singleton_self _, rfl⟩, by simp [Call.table?]⟩
  obtain ⟨s₁, -, hanswer, rfl⟩ := hconnect.of_perform
  cases hanswer
  obtain ⟨o', r, first, last, s₂, rfl, hoperate, hclose, hok, -⟩ := hrest.of_ensuring
  obtain ⟨rfl, hsilent, hlast⟩ := runs_close hclose
  obtain rfl := hok rfl
  obtain ⟨hspec, habout⟩ := runs_operate ht rfl hoperate
  have hfirst : Silent [(⟨s₁, ⟨.connect t, .ok ()⟩, s₁.fresh⟩ : Step srv)] := by
    simp [Silent, Entry.Raised, Except.isOk, Except.toBool, State.fresh]
  refine ⟨?_, ⟨_, List.mem_cons_self, rfl⟩, ?_⟩
  · rw [← List.append_assoc]
    exact hspec.pad hfirst hsilent
  · intro e he
    rcases List.mem_append.mp he with he | he
    · rw [List.mem_singleton.mp he]
      rfl
    rcases List.mem_append.mp he with he | he
    · exact habout e he
    · exact hlast e he

/-! ## The turns together -/

/-- What the loop notes down about a turn. -/
def resultOf : Except Exc Result → Result
  | .ok result => result
  | .error e => .failed e

/-- A turn takes nothing from other tables. -/
theorem TurnSpec.others {execute : Bool} {cutoff : Naive} {o : Except Exc Result} {t' : Table}
    (h : TurnSpec execute cutoff t trace o) (ht' : t' ≠ t) (r : t'.Row) : ¬Lost trace t' r := by
  cases h with
  | raised e hraised hcommit hkept => exact hkept t' r
  | unanswered e m hexecute hcommit hpurged => exact hpurged.others t' ht' r
  | dryRun n hexecute hunraised hkept => exact hkept t' r
  | nothing hexecute hunraised hcounted hkept => exact hkept t' r
  | purged n m hexecute hunraised hcounted hpurged => exact hpurged.others t' ht' r

/-- The turn of a table in a longer trace. -/
structure TurnIn (execute : Bool) (cutoff : Naive) (t : Table) (trace : List (Step srv))
    (o : Except Exc Result) : Prop where
  part : ∃ part, TurnSpec execute cutoff t part o ∧
    (∀ e, e ∈ part ↔ e ∈ trace ∧ e.event.1.table? = some t) ∧
      ∀ r, Lost trace t r ↔ Lost part t r
  had : HadTurn trace t

/-- Calls that are not about the table. -/
structure Foreign (trace : List (Step srv)) (t : Table) : Prop where
  table : ∀ e ∈ trace, e.event.1.table? ≠ some t
  kept : ∀ r, ¬Lost trace t r

theorem Foreign.nil : Foreign ([] : List (Step srv)) t := ⟨by simp, by simp⟩

theorem Foreign.append (h : Foreign trace t) (h' : Foreign trace' t) :
    Foreign (trace ++ trace') t := by
  refine ⟨fun e he => ?_, fun r hr => ?_⟩
  · exact (List.mem_append.mp he).elim (h.table e) (h'.table e)
  · exact (lost_append.mp hr).elim (h.kept r) (h'.kept r)

/-- A call about no table, which is no commit. -/
theorem Foreign.single {r : sqlSig.Answer c} (h : Answers c s r s') (hc : c.table? = none) :
    Foreign [(⟨s, ⟨c, r⟩, s'⟩ : Step srv)] t := by
  refine ⟨by simp [hc], not_lost_of_db_eq ?_⟩
  have hdb : s'.db = s.db := h.db_eq fun t ht => by
    rw [ht] at hc
    cases hc
  simpa using hdb

theorem TurnIn.append_right {execute : Bool} {cutoff : Naive} {o : Except Exc Result}
    (h : TurnIn execute cutoff t trace o) (hf : Foreign trace' t) :
    TurnIn execute cutoff t (trace ++ trace') o := by
  obtain ⟨part, hspec, hpart, hlost⟩ := h.part
  refine ⟨⟨part, hspec, fun e => ?_, fun r => ?_⟩, ?_⟩
  · rw [hpart, List.mem_append]
    have := hf.table e
    tauto
  · rw [lost_append, hlost]
    have := hf.kept r
    tauto
  · obtain ⟨e, he, htable⟩ := h.had
    exact ⟨e, List.mem_append_left _ he, htable⟩

theorem TurnIn.append_left {execute : Bool} {cutoff : Naive} {o : Except Exc Result}
    (h : TurnIn execute cutoff t trace o) (hf : Foreign trace' t) :
    TurnIn execute cutoff t (trace' ++ trace) o := by
  obtain ⟨part, hspec, hpart, hlost⟩ := h.part
  refine ⟨⟨part, hspec, fun e => ?_, fun r => ?_⟩, ?_⟩
  · rw [hpart, List.mem_append]
    have := hf.table e
    tauto
  · rw [lost_append, hlost]
    have := hf.kept r
    tauto
  · obtain ⟨e, he, htable⟩ := h.had
    exact ⟨e, List.mem_append_right _ he, htable⟩

theorem runs_turn {execute : Bool} {cutoff : Naive} {o : Except Exc Result}
    (ht : t ∈ recordTables) (h : Runs (world srv) (turn execute cutoff t) s trace o u) :
    ∃ o', o = .ok (resultOf o') ∧ TurnIn execute cutoff t trace o' ∧
      ∀ t' ≠ t, Foreign trace t' := by
  obtain ⟨o', first, rest, s₁, rfl, hconnection, hrest⟩ := h.of_attempt_bind
  have hend : rest = [] ∧ o = .ok (resultOf o') := by
    cases o' with
    | ok result => exact ⟨hrest.of_ret.1, hrest.of_ret.2.1⟩
    | error e => exact ⟨hrest.of_ret.1, hrest.of_ret.2.1⟩
  obtain ⟨rfl, rfl⟩ := hend
  obtain ⟨hspec, hhad, habout⟩ := runs_withConnection ht hconnection
  rw [List.append_nil]
  refine ⟨o', rfl, ⟨⟨first, hspec, fun e => ?_, fun r => Iff.rfl⟩, hhad⟩, fun t' ht' => ?_⟩
  · exact ⟨fun he => ⟨he, habout e he⟩, And.left⟩
  · refine ⟨fun e he htable => ht' ?_, hspec.others ht'⟩
    exact Option.some.inj (htable.symm.trans (habout e he))

/-- Every table has its turn, whatever happened in the turns before. -/
theorem runs_turns {execute : Bool} {cutoff : Naive} {ts : List Table}
    {o : Except Exc (List (Table × Result))} (hts : ∀ t ∈ ts, t ∈ recordTables) (hnodup : ts.Nodup)
    (h : Runs (world srv) (turns execute cutoff ts) s trace o u) :
    ∃ results, o = .ok results ∧
      (∀ t ∈ ts, ∃ o', TurnIn execute cutoff t trace o' ∧ (t, resultOf o') ∈ results) ∧
        ∀ t ∉ ts, Foreign trace t := by
  induction ts generalizing s u trace o with
  | nil =>
    obtain ⟨rfl, rfl, -⟩ := h.of_ret
    exact ⟨[], rfl, by simp, fun _ _ => .nil⟩
  | cons t ts ih =>
    obtain ⟨ht, hts⟩ := List.forall_mem_cons.mp hts
    obtain ⟨hnot, hnodup⟩ := List.nodup_cons.mp hnodup
    obtain ⟨e, -, hturn⟩ | ⟨result, first, rest, s₁, rfl, hturn, hrest⟩ := h.of_bind
    · obtain ⟨_, hok, -⟩ := runs_turn ht hturn
      cases hok
    obtain ⟨o', hok, hin, hforeign⟩ := runs_turn ht hturn
    cases hok
    obtain ⟨e, -, hturns⟩ | ⟨results, first', rest', s₂, rfl, hturns, hend⟩ := hrest.of_bind
    · obtain ⟨_, hok, -⟩ := ih hts hnodup hturns
      cases hok
    obtain ⟨_, hok, hothers, hforeign'⟩ := ih hts hnodup hturns
    cases hok
    obtain ⟨rfl, rfl, -⟩ := hend.of_ret
    rw [List.append_nil]
    refine ⟨_, rfl, fun t' ht' => ?_, fun t' ht' => ?_⟩
    · rcases List.mem_cons.mp ht' with rfl | hmem'
      · exact ⟨o', hin.append_right (hforeign' t' hnot), List.mem_cons_self⟩
      · obtain ⟨o'', hin', hmem⟩ := hothers t' hmem'
        have hne : t' ≠ t := by
          rintro rfl
          exact hnot hmem'
        exact ⟨o'', hin'.append_left (hforeign t' hne), List.mem_cons_of_mem _ hmem⟩
    · rw [List.mem_cons, not_or] at ht'
      exact (hforeign t' ht'.1).append (hforeign' t' ht'.2)

/-! ## A run of `main` -/

/-- `AUDIT_RETENTION_DAYS`, if it is set and an integer. -/
def Settings.retentionDays? (S : Settings) : Option ℤ :=
  (S.audit_retention_days.filter (· ≠ [])).bind S.int

/-- The cutoff of the run: so many days before what the clock said. -/
def IsCutoff (days : ℤ) (trace : List (Step srv)) (t : Naive) : Prop :=
  ∃ now, (∃ e ∈ trace, e.event = ⟨.now, .ok now⟩) ∧ cutoff now days = .ok t

/-- A run that is configured, up to the loop: it stopped before it, or each table has its turn. -/
theorem runs_clean {execute : Bool} {days : ℤ} {url : Str} {o : Except Exc ℕ}
    (h : Runs (world srv) (clean execute days url) s trace o u) :
    (o ≠ .ok 0 ∧ ∀ t, Foreign trace t) ∨
      ∃ (cut : Naive) (results : List (Table × Result)), IsCutoff days trace cut ∧
        (∀ t ∈ recordTables, ∃ o', TurnIn execute cut t trace o' ∧ (t, resultOf o') ∈ results) ∧
        (∀ t ∉ recordTables, Foreign trace t) ∧
        (o = .ok 0 → results.all (fun r => r.2.isOk) = true) := by
  obtain ⟨e, rfl, hnow⟩ | ⟨now, first, rest, s₁, rfl, hnow, h₁⟩ := h.of_bind
  · obtain ⟨s₁, -, hanswer, rfl⟩ := hnow.of_perform
    exact .inl ⟨nofun, fun t => .single hanswer rfl⟩
  obtain ⟨s₁', -, hanswer₁, rfl⟩ := hnow.of_perform
  have hf₁ : ∀ t, Foreign [(⟨s₁', ⟨.now, .ok now⟩, s₁⟩ : Step srv)] t :=
    fun t => .single hanswer₁ rfl
  obtain ⟨e, rfl, hcutoff⟩ | ⟨cut, first, rest', s₂, rfl, hcutoff, h₂⟩ := h₁.of_bind
  · obtain ⟨rfl, -, -⟩ := hcutoff.of_ofExcept
    exact .inl ⟨nofun, fun t => by rw [List.append_nil]; exact hf₁ t⟩
  obtain ⟨rfl, hcut, rfl⟩ := hcutoff.of_ofExcept
  obtain ⟨e, rfl, hengine⟩ | ⟨⟨⟩, first, rest, s₃, rfl, hengine, h₃⟩ := h₂.of_bind
  · obtain ⟨s₃, -, hanswer, rfl⟩ := hengine.of_perform
    exact .inl ⟨nofun, fun t => (hf₁ t).append (.single hanswer rfl)⟩
  obtain ⟨s₃', -, hanswer₃, rfl⟩ := hengine.of_perform
  have hf₃ : ∀ t, Foreign [(⟨s₃', ⟨.createEngine url, .ok ()⟩, s₃⟩ : Step srv)] t :=
    fun t => .single hanswer₃ rfl
  obtain ⟨e, -, hturns⟩ | ⟨results, first, rest', s₄, rfl, hturns, hrest⟩ := h₃.of_bind
  · obtain ⟨_, hok, -⟩ := runs_turns (fun _ h => h) (by decide) hturns
    cases hok
  obtain ⟨_, hok, hin, hforeign⟩ := runs_turns (fun _ h => h) (by decide) hturns
  cases hok
  -- the status file is about no table, whether it is written or not
  have hf₄ : ∀ t, Foreign rest' t := by
    obtain ⟨e, -, hfile⟩ | ⟨⟨⟩, first', rest, s₅, rfl, hfile, hend⟩ := hrest.of_bind
    · obtain ⟨s₅, -, hanswer, rfl⟩ := hfile.of_perform
      exact fun t => .single hanswer rfl
    · obtain ⟨s₅', -, hanswer, rfl⟩ := hfile.of_perform
      have hnone : rest = [] := by
        split_ifs at hend
        · exact hend.of_ret.1
        · exact hend.of_ret.1
      subst hnone
      exact fun t => .single hanswer rfl
  have hzero : o = .ok 0 → results.all (fun r => r.2.isOk) = true := by
    rintro rfl
    obtain ⟨e, hnone, -⟩ | ⟨⟨⟩, first', rest, s₅, rfl, hfile, hend⟩ := hrest.of_bind
    · cases hnone
    · by_contra hnot
      rw [if_neg hnot] at hend
      cases hend.of_ret.2.1
  refine .inr ⟨cut, results, ⟨now, ⟨_, List.mem_cons_self, rfl⟩, hcut.symm⟩, ?_, ?_, hzero⟩
  · intro t ht
    obtain ⟨o', hin, hmem⟩ := hin t ht
    exact ⟨o', ((hin.append_right (hf₄ t)).append_left (hf₃ t)).append_left (hf₁ t), hmem⟩
  · exact fun t ht => (hf₁ t).append ((hf₃ t).append ((hforeign t ht).append (hf₄ t)))

/-- What a run of the script does to the tables. -/
structure Exact (days : ℤ) (execute : Bool) (s : State srv) (trace : List (Step srv))
    (o : Except Exc ℕ) (u : State srv) : Prop where
  /-- what goes is expired and not held at the moment of the delete -/
  expired : ∀ t r, Lost trace t r → t ∈ recordTables ∧ execute = true ∧
    ∃ cut n, IsCutoff days trace cut ∧
      Deleted trace t cut n fun db => r ∈ db.rows t ∧ Eligible db t cut r
  /-- a table loses what the calls take away, and nothing else -/
  kept : ∀ t ∈ recordTables, ∀ r ∈ s.db.rows t, r ∈ u.db.rows t ∨ Lost trace t r
  /-- a table whose turn raised loses nothing, unless its COMMIT raised and was carried out -/
  raised : ∀ t, RaisedFor trace t → ¬CommitLost trace t → ∀ r, ¬Lost trace t r
  /-- in that case it loses what was eligible at its delete -/
  unanswered : ∀ t, CommitLost trace t → ∃ cut n, IsCutoff days trace cut ∧
    Deleted trace t cut n fun db => ∀ r, Lost trace t r ↔ r ∈ db.rows t ∧ Eligible db t cut r
  /-- if one table has its turn, so does the other -/
  independent : ∀ t ∈ recordTables, ∀ t' ∈ recordTables, HadTurn trace t → HadTurn trace t'
  /-- a table whose turn did not raise loses all that was eligible at its delete -/
  complete : execute = true → ∀ t ∈ recordTables, HadTurn trace t → ¬RaisedFor trace t →
    ∃ cut, IsCutoff days trace cut ∧ (Counted trace t cut 0 ∨
      ∃ n, Deleted trace t cut n fun db => ∀ r, r ∈ db.rows t → Eligible db t cut r →
        Lost trace t r)
  /-- 0 is returned only if every table lost as many rows as were counted -/
  zero : o = .ok 0 → execute = true → ∀ t ∈ recordTables, ∃ cut n, IsCutoff days trace cut ∧
    Counted trace t cut n ∧ {r | Lost trace t r}.ncard = n
  /-- a dry run takes nothing -/
  dry : execute = false → ∀ t r, ¬Lost trace t r

theorem Counted.mono {cut : Naive} {n : ℕ} (hsub : ∀ e ∈ trace, e ∈ trace')
    (h : Counted trace t cut n) : Counted trace' t cut n := by
  obtain ⟨e, he, hevent⟩ := h
  exact ⟨e, hsub e he, hevent⟩

theorem CommitLost.mono (hsub : ∀ e ∈ trace, e ∈ trace') (h : CommitLost trace t) :
    CommitLost trace' t := by
  obtain ⟨e, he, hlost⟩ := h
  exact ⟨e, hsub e he, hlost⟩

theorem Deleted.mono {cut : Naive} {n : ℕ} {P Q : Db srv → Prop} (hsub : ∀ e ∈ trace, e ∈ trace')
    (hPQ : ∀ db, P db → Q db) (h : Deleted trace t cut n P) : Deleted trace' t cut n Q := by
  obtain ⟨e, he, hevent, hP⟩ := h
  exact ⟨e, hsub e he, hevent, hPQ _ hP⟩

/-- The number of rows that went is the number of rows that were eligible. -/
theorem Purged.ncard {cut : Naive} {m : ℕ} (h : Purged trace t cut m) :
    {r | Lost trace t r}.ncard = m := by
  classical
  obtain ⟨e, -, -, hm, hlost⟩ := h.deleted
  have hset : {r | Lost trace t r} =
      ((e.before.db.rows t).filter fun r => decide (Eligible e.before.db t cut r)).toFinset := by
    ext r
    simp [hlost]
  have hnodup : (e.before.db.rows t).Nodup := (e.before.db.unique t).of_map
  rw [hset, Set.ncard_coe_finset, List.toFinset_card_of_nodup (hnodup.filter _), hm]

/-- Records that are there at the start are there at the end, or were lost to a call. -/
theorem kept_or_lost {α : Type} {p : Prog sqlSig α} {o : Except Exc α}
    (h : Runs (world srv) p s trace o u) (ht : t ∈ recordTables) (r : t.Row)
    (hr : r ∈ s.db.rows t) : r ∈ u.db.rows t ∨ Lost trace t r :=
  h.lasts (P := fun s : State srv => r ∈ s.db.rows t)
    (fun s s' (hdrift : OthersWrite s s') hr => hdrift.inserted t ht r hr) hr

/-- A run that stops before the loop. -/
theorem exact_of_foreign {days : ℤ} {execute : Bool} {o : Except Exc ℕ} (ho : o ≠ .ok 0)
    (hforeign : ∀ t, Foreign trace t)
    (hkept : ∀ t ∈ recordTables, ∀ r ∈ s.db.rows t, r ∈ u.db.rows t ∨ Lost trace t r) :
    Exact days execute s trace o u where
  expired t r h := absurd h ((hforeign t).kept r)
  kept := hkept
  raised t _ _ := (hforeign t).kept
  unanswered t h := by
    obtain ⟨e, he, hcall, -⟩ := h
    exact absurd (congrArg Call.table? hcall) ((hforeign t).table e he)
  independent t _ _ _ h := by
    obtain ⟨e, he, htable⟩ := h
    exact absurd htable ((hforeign t).table e he)
  complete _ t _ h _ := by
    obtain ⟨e, he, htable⟩ := h
    exact absurd htable ((hforeign t).table e he)
  zero h := absurd h ho
  dry _ t := (hforeign t).kept

/-! What the turn of a table says about the whole run, of which it is the part with the calls that
are about the table. -/

section OneTurn

variable {execute : Bool} {cut : Naive} {o : Except Exc Result}

/-- What goes was found eligible by the delete. -/
theorem TurnIn.lost (h : TurnIn execute cut t trace o) {r : t.Row} (hr : Lost trace t r) :
    execute = true ∧
      ∃ n, Deleted trace t cut n fun db => r ∈ db.rows t ∧ Eligible db t cut r := by
  obtain ⟨part, hspec, hpart, hlost⟩ := h.part
  have hsub : ∀ e ∈ part, e ∈ trace := fun e he => ((hpart e).mp he).1
  rw [hlost] at hr
  cases hspec with
  | raised e hraised hcommit hkept => exact absurd hr (hkept t r)
  | unanswered e m hexecute hcommit hpurged =>
    exact ⟨hexecute, m, hpurged.deleted.mono hsub fun db hdb => (hdb.2 r).mp hr⟩
  | dryRun n hexecute hunraised hkept => exact absurd hr (hkept t r)
  | nothing hexecute hunraised hcounted hkept => exact absurd hr (hkept t r)
  | purged n m hexecute hunraised hcounted hpurged =>
    exact ⟨hexecute, m, hpurged.deleted.mono hsub fun db hdb => (hdb.2 r).mp hr⟩

/-- A turn that raised takes nothing, unless its COMMIT was carried out. -/
theorem TurnIn.spared (h : TurnIn execute cut t trace o) (hraised : RaisedFor trace t)
    (hnot : ¬CommitLost trace t) (r : t.Row) : ¬Lost trace t r := by
  obtain ⟨e, he, htable, hraised⟩ := hraised
  obtain ⟨part, hspec, hpart, hlost⟩ := h.part
  have hsub : ∀ e ∈ part, e ∈ trace := fun e he => ((hpart e).mp he).1
  have hpart : e ∈ part := (hpart e).mpr ⟨he, htable⟩
  rw [hlost]
  cases hspec with
  | raised e hraised hcommit hkept => exact hkept t r
  | unanswered e m hexecute hcommit hpurged => exact absurd (hcommit.mono hsub) hnot
  | dryRun n hexecute hunraised hkept => exact hkept t r
  | nothing hexecute hunraised hcounted hkept => exact hkept t r
  | purged n m hexecute hunraised hcounted hpurged => exact absurd hraised (hunraised e hpart)

/-- A COMMIT that was carried out takes what the delete found, although it raised. -/
theorem TurnIn.unanswered (h : TurnIn execute cut t trace o) (hlost : CommitLost trace t) :
    ∃ n, Deleted trace t cut n fun db => ∀ r,
      Lost trace t r ↔ r ∈ db.rows t ∧ Eligible db t cut r := by
  obtain ⟨e, he, hcall, hraised, hafter⟩ := hlost
  obtain ⟨part, hspec, hpart, hlost⟩ := h.part
  have hsub : ∀ e ∈ part, e ∈ trace := fun e he => ((hpart e).mp he).1
  have hpart : e ∈ part := (hpart e).mpr ⟨he, congrArg Call.table? hcall⟩
  cases hspec with
  | raised _ _ hcommit hkept => exact absurd ⟨e, hpart, hcall, hraised, hafter⟩ hcommit
  | unanswered _ m hexecute hcommit hpurged =>
    refine ⟨m, hpurged.deleted.mono hsub fun db hdb r => ?_⟩
    rw [hlost]
    exact hdb.2 r
  | dryRun n hexecute hunraised hkept => exact absurd hraised (hunraised e hpart)
  | nothing hexecute hunraised hcounted hkept => exact absurd hraised (hunraised e hpart)
  | purged n m hexecute hunraised hcounted hpurged => exact absurd hraised (hunraised e hpart)

/-- A turn in which nothing raised takes all that the delete found. -/
theorem TurnIn.complete (h : TurnIn true cut t trace o) (hraised : ¬RaisedFor trace t) :
    Counted trace t cut 0 ∨
      ∃ n, Deleted trace t cut n fun db => ∀ r, r ∈ db.rows t → Eligible db t cut r →
        Lost trace t r := by
  obtain ⟨part, hspec, hpart, hlost⟩ := h.part
  have hsub : ∀ e ∈ part, e ∈ trace := fun e he => ((hpart e).mp he).1
  have hpart : ∀ e ∈ part, ¬e.Raised := fun e he herror =>
    hraised ⟨e, hsub e he, ((hpart e).mp he).2, herror⟩
  cases hspec with
  | raised e herror hcommit hkept =>
    obtain ⟨e, he, herror⟩ := herror
    exact absurd herror (hpart e he)
  | unanswered e m _ hcommit hpurged =>
    obtain ⟨e, he, -, herror, -⟩ := hcommit
    exact absurd herror (hpart e he)
  | dryRun n hdry hunraised hkept => cases hdry
  | nothing _ hunraised hcounted hkept => exact .inl (hcounted.mono hsub)
  | purged n m _ hunraised hcounted hpurged =>
    refine .inr ⟨m, hpurged.deleted.mono hsub fun db hdb r hr heligible => ?_⟩
    rw [hlost]
    exact (hdb.2 r).mpr ⟨hr, heligible⟩

/-- A turn whose result is a success takes as many rows as were counted. -/
theorem TurnIn.ncard (h : TurnIn true cut t trace o) (hok : (resultOf o).isOk = true) :
    ∃ n, Counted trace t cut n ∧ {r | Lost trace t r}.ncard = n := by
  obtain ⟨part, hspec, hpart, hlost⟩ := h.part
  have hsub : ∀ e ∈ part, e ∈ trace := fun e he => ((hpart e).mp he).1
  have hset : {r | Lost trace t r} = {r | Lost part t r} := Set.ext hlost
  rw [hset]
  cases hspec with
  | raised e hraised hcommit hkept => cases hok
  | unanswered e m _ hcommit hpurged => cases hok
  | dryRun n hdry hunraised hkept => cases hdry
  | nothing _ hunraised hcounted hkept =>
    refine ⟨0, hcounted.mono hsub, ?_⟩
    simp [hkept t]
  | purged n m _ hunraised hcounted hpurged =>
    -- another number of rows would have been reported as partial
    have hmn : m = n := by
      by_contra hne
      rw [resultOf, if_pos hne] at hok
      cases hok
    exact ⟨n, hcounted.mono hsub, by rw [hpurged.ncard, hmn]⟩

end OneTurn

/-- A run that gets to the loop. -/
theorem exact_of_turns {days : ℤ} {execute : Bool} {o : Except Exc ℕ} {cut : Naive}
    {results : List (Table × Result)} (hcut : IsCutoff days trace cut)
    (hturns : ∀ t ∈ recordTables, ∃ o', TurnIn execute cut t trace o' ∧ (t, resultOf o') ∈ results)
    (hforeign : ∀ t ∉ recordTables, Foreign trace t)
    (hzero : o = .ok 0 → results.all (fun r => r.2.isOk) = true)
    (hkept : ∀ t ∈ recordTables, ∀ r ∈ s.db.rows t, r ∈ u.db.rows t ∨ Lost trace t r) :
    Exact days execute s trace o u := by
  have hrecord : ∀ t, (∃ e ∈ trace, e.event.1.table? = some t) → t ∈ recordTables := by
    intro t ⟨e, he, htable⟩
    by_contra ht
    exact (hforeign t ht).table e he htable
  have hexpired : ∀ t r, Lost trace t r → t ∈ recordTables ∧ execute = true ∧
      ∃ n, Deleted trace t cut n fun db => r ∈ db.rows t ∧ Eligible db t cut r := by
    intro t r hr
    have ht : t ∈ recordTables := by
      by_contra ht
      exact (hforeign t ht).kept r hr
    obtain ⟨o', hin, -⟩ := hturns t ht
    exact ⟨ht, hin.lost hr⟩
  constructor
  case expired =>
    intro t r hr
    obtain ⟨ht, hexecute, n, hdeleted⟩ := hexpired t r hr
    exact ⟨ht, hexecute, cut, n, hcut, hdeleted⟩
  case kept => exact hkept
  case raised =>
    intro t hraised hnot
    have hhad := hraised
    obtain ⟨e, he, htable, -⟩ := hhad
    obtain ⟨o', hin, -⟩ := hturns t (hrecord t ⟨e, he, htable⟩)
    exact hin.spared hraised hnot
  case unanswered =>
    intro t hlost
    have hhad := hlost
    obtain ⟨e, he, hcall, -⟩ := hhad
    obtain ⟨o', hin, -⟩ := hturns t (hrecord t ⟨e, he, congrArg Call.table? hcall⟩)
    obtain ⟨n, hdeleted⟩ := hin.unanswered hlost
    exact ⟨cut, n, hcut, hdeleted⟩
  case independent =>
    intro t _ t' ht' _
    obtain ⟨o', hin, -⟩ := hturns t' ht'
    exact hin.had
  case complete =>
    rintro rfl t ht - hraised
    obtain ⟨o', hin, -⟩ := hturns t ht
    exact ⟨cut, hcut, hin.complete hraised⟩
  case zero =>
    rintro ho rfl t ht
    obtain ⟨o', hin, hmem⟩ := hturns t ht
    obtain ⟨n, hcounted, hncard⟩ := hin.ncard (List.all_eq_true.mp (hzero ho) _ hmem)
    exact ⟨cut, n, hcut, hcounted, hncard⟩
  case dry =>
    rintro rfl t r hr
    obtain ⟨-, hexecute, -⟩ := hexpired t r hr
    cases hexecute

/-- **Retention removes exactly the expired, unheld rows**, in every run of `main` with a positive
number of days: whatever fails, and whatever others write meanwhile. -/
theorem retention_exact (srv : Server) (S : Settings) (args : Args) (days : ℤ)
    (hdays : S.retentionDays? = some days) (hpos : 0 < days) (s u : State srv)
    (trace : List (Step srv)) (o : Except Exc ℕ)
    (h : Runs (world srv) (main S args) s trace o u) :
    Exact days args.execute s trace o u := by
  have hkept : ∀ t ∈ recordTables, ∀ r ∈ s.db.rows t, r ∈ u.db.rows t ∨ Lost trace t r :=
    fun t ht r => kept_or_lost h ht r
  obtain ⟨raw, hraw, hint⟩ := Option.bind_eq_some_iff.mp hdays
  unfold main at h
  split_ifs at h with hboth
  · cases h
    exact exact_of_foreign nofun (fun _ => .nil) hkept
  rw [hraw] at h
  dsimp only at h
  rw [hint] at h
  dsimp only at h
  rw [if_neg (by omega)] at h
  cases hurl : S.audit_maintenance_database_url.filter (· ≠ []) with
  | none =>
    rw [hurl] at h
    obtain ⟨rfl, rfl, -⟩ := h.of_ret
    exact exact_of_foreign (by simp) (fun _ => .nil) hkept
  | some url =>
    rw [hurl] at h
    obtain ⟨ho, hforeign⟩ | ⟨cut, results, hcut, hturns, hforeign, hzero⟩ := runs_clean h
    · exact exact_of_foreign ho hforeign hkept
    · exact exact_of_turns hcut hturns hforeign hzero hkept

/-! One quarantined entry of long ago, and nobody else at work. -/

section Alone


theorem runs_ask {r : sqlSig.Answer c} (h : Answers c s r s') :
    Runs (world srv) (ask c) s [⟨s, ⟨c, r⟩, s'⟩] r s' := .perform h

/-- A turn with nothing to delete. -/
theorem runs_turn_nothing (cut : Naive) (hn : (s.fresh.eligible t cut).length = 0) :
    ∃ trace, Runs (world srv) (turn true cut t) s trace (.ok (.success 0)) s.fresh := by
  obtain ⟨trace, hoperate⟩ : ∃ trace, Runs (world srv) (operate true cut t) s.fresh trace
      (.ok (.success 0)) s.fresh := by
    apply Exists.intro
    apply Runs.bind (runs_ask (.counted s.fresh t cut))
    rw [if_neg (by decide), if_pos hn]
    exact .ret _ _
  have hblock := hoperate.ensuring (runs_ask (.closed s.fresh t))
  exact ⟨_, .bind (Runs.bind (runs_ask (.connected s t)) hblock).attempt (.ret _ _)⟩

/-- A turn with rows to delete. -/
theorem runs_turn_purge (cut : Naive) (hn : (s.fresh.eligible t cut).length ≠ 0) :
    ∃ trace, Runs (world srv) (turn true cut t) s trace
      (.ok (.success (s.fresh.eligible t cut).length)) (s.fresh.deleted t cut).committed.fresh := by
  obtain ⟨trace, hoperate⟩ : ∃ trace, Runs (world srv) (operate true cut t) s.fresh trace
      (.ok (.success (s.fresh.eligible t cut).length)) (s.fresh.deleted t cut).committed := by
    apply Exists.intro
    apply Runs.bind (runs_ask (.counted s.fresh t cut))
    rw [if_neg (by decide), if_neg hn]
    apply Runs.bind (runs_ask (.deleted s.fresh t cut))
    apply Runs.bind (runs_ask (.committed (s.fresh.deleted t cut) t))
    rw [if_neg (not_not.mpr rfl)]
    exact .ret _ _
  have hblock := hoperate.ensuring (runs_ask (.closed _ t))
  exact ⟨_, .bind (Runs.bind (runs_ask (.connected s t)) hblock).attempt (.ret _ _)⟩

/-- A turn whose COMMIT is carried out, and its reply lost. -/
theorem runs_turn_unanswered (cut : Naive) (hn : (s.fresh.eligible t cut).length ≠ 0) :
    ∃ trace, Runs (world srv) (turn true cut t) s trace (.ok (.failed .sqlAlchemyError))
      (s.fresh.deleted t cut).committed.fresh ∧
        ⟨s.fresh.deleted t cut, ⟨.commit t, .error .sqlAlchemyError⟩,
          (s.fresh.deleted t cut).committed⟩ ∈ trace := by
  obtain ⟨trace, hoperate, hmem⟩ : ∃ trace, Runs (world srv) (operate true cut t) s.fresh trace
      (.error .sqlAlchemyError) (s.fresh.deleted t cut).committed ∧
        ⟨s.fresh.deleted t cut, ⟨.commit t, .error .sqlAlchemyError⟩,
          (s.fresh.deleted t cut).committed⟩ ∈ trace := by
    apply Exists.intro
    apply And.intro
    · apply Runs.bind (runs_ask (.counted s.fresh t cut))
      rw [if_neg (by decide), if_neg hn]
      apply Runs.bind (runs_ask (.deleted s.fresh t cut))
      exact .perform_raise .refl (.commitLost _ t _)
    · simp
  have hblock := hoperate.ensuring (runs_ask (.closed _ t))
  refine ⟨_, .bind (Runs.bind (runs_ask (.connected s t)) hblock).attempt (.ret _ _), ?_⟩
  simp [hmem]

theorem runs_turns_nil : Runs (world srv) (turns true cut []) s [] (.ok []) s := .ret [] s

theorem runs_turns_cons {ts : List Table} {result : Result} {results : List (Table × Result)}
    (h : Runs (world srv) (turn true cut t) s trace (.ok result) s')
    (h' : Runs (world srv) (turns true cut ts) s' trace' (.ok results) u) :
    ∃ all, Runs (world srv) (turns true cut (t :: ts)) s all (.ok ((t, result) :: results)) u :=
  ⟨_, .bind h (.bind h' (.ret _ _))⟩

end Alone

namespace Sample

/-- 90 days. -/
def settings : Settings where
  audit_retention_days := some (str "90")
  audit_maintenance_database_url := some (str "mysql://audit_maintenance@db")
  int _ := some 90

/-- 2026-01-01T00:00:00 and 90 days before. -/
def now : Naive := ⟨63902822400000000, by decide⟩

def cut : Naive := ⟨63895046400000000, by decide⟩

/-- A ledger with one quarantined entry. -/
def ledger : State Immutability.Sample.server where
  db :=
    { rows := fun
        | .quarantined_audit_events => [Immutability.Sample.poison]
        | _ => []
      unique := by intro t; cases t <;> simp }
  pending _ := []

end Sample

/-- The entry is deleted, and the script returns 0. -/
theorem retention_exact_alone : ∃ trace u, Exact 90 true Sample.ledger trace (.ok 0) u ∧
    u.db.rows .quarantined_audit_events = [] := by
  obtain ⟨trace₁, h₁⟩ := runs_turn_nothing (s := Sample.ledger) (t := .audit_events)
    Sample.cut (by decide)
  obtain ⟨trace₂, h₂⟩ := runs_turn_purge (s := Sample.ledger.fresh) (t := .quarantined_audit_events)
    Sample.cut (by decide)
  obtain ⟨_, hlast⟩ := runs_turns_cons h₂ runs_turns_nil
  obtain ⟨_, hturns⟩ := runs_turns_cons h₁ hlast
  obtain ⟨trace, hclean⟩ : ∃ trace, Runs (world Immutability.Sample.server)
      (main Sample.settings ⟨true, false⟩) Sample.ledger trace (.ok 0) _ := by
    apply Exists.intro
    apply Runs.bind (runs_ask (.now Sample.ledger Sample.now))
    apply Runs.bind (.ofExcept _ _)
    apply Runs.bind (runs_ask (.createdEngine Sample.ledger _))
    apply Runs.bind hturns
    apply Runs.bind (runs_ask (.wroteStatusFile _ _ _ _))
    exact .ret _ _
  exact ⟨trace, _, retention_exact _ Sample.settings ⟨true, false⟩ 90 rfl (by decide) _ _ _ _ hclean,
    by decide⟩

/-- The COMMIT for the old entry is carried out and its reply is lost: the turn raised, the script
returns 1, and the entry is gone. -/
theorem commit_reply_lost : ∃ trace u,
    Runs (world Immutability.Sample.server) (main Sample.settings ⟨true, false⟩) Sample.ledger
      trace (.ok 1) u ∧
    RaisedFor trace .quarantined_audit_events ∧
    Lost trace .quarantined_audit_events Immutability.Sample.poison ∧
    u.db.rows .quarantined_audit_events = [] := by
  obtain ⟨trace₁, h₁⟩ := runs_turn_nothing (s := Sample.ledger) (t := .audit_events)
    Sample.cut (by decide)
  obtain ⟨trace₂, h₂, hmem⟩ := runs_turn_unanswered (s := Sample.ledger.fresh)
    (t := .quarantined_audit_events) Sample.cut (by decide)
  obtain ⟨trace, hclean, hall⟩ : ∃ trace, Runs (world Immutability.Sample.server)
      (main Sample.settings ⟨true, false⟩) Sample.ledger trace (.ok 1) _ ∧
        ∀ e ∈ trace₂, e ∈ trace := by
    refine ⟨_, Runs.bind (runs_ask (.now Sample.ledger Sample.now)) (Runs.bind (.ofExcept _ _)
      (Runs.bind (runs_ask (.createdEngine Sample.ledger _)) (Runs.bind
        (.bind h₁ (.bind (.bind h₂ (.bind runs_turns_nil (.ret _ _))) (.ret _ _)))
        (Runs.bind (runs_ask (.wroteStatusFile _ _ _ _)) (.ret _ _))))), fun e he => ?_⟩
    simp [he]
  have hgone : (Sample.ledger.fresh.fresh.deleted .quarantined_audit_events
      Sample.cut).committed.db.rows .quarantined_audit_events = [] := by decide
  refine ⟨trace, _, hclean, ⟨_, hall _ hmem, rfl, rfl⟩, ⟨_, hall _ hmem, ?_, ?_⟩, hgone⟩
  · exact List.mem_singleton_self _
  · exact List.eq_nil_iff_forall_not_mem.mp hgone _

end Retention

end SecurityAudit
