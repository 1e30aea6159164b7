import SecurityAudit.Db.Guarded
import SecurityAudit.Db.Models

/-!
# The database rules of the ledger

The grants of `scripts/provision_audit_db_users.py` and the triggers of migration
`0005_retention_immutability`, over the two record tables and the table of legal holds. The
admin account has every privilege. Grants to read are listed but ask for nothing here: a
statement is never refused for what it reads, so there are only more sequences of statements.

`USER()` is the name and host of the connecting account, also inside a trigger. Text is compared
as the collation of the server compares it, by weight.
-/

namespace SecurityAudit

open Sql (Event Change)

namespace Immutability

/-! ## The tables -/

/-- A row of `audit_events`, with the column the server fills in. -/
structure AuditEventRecord extends AuditRow where
  created_at : Naive

/-- A row of `quarantined_audit_events`, with the column the server fills in. -/
structure QuarantinedAuditEvent extends QuarantineRow where
  quarantined_at : Naive

/-- A row of `audit_legal_holds`. -/
structure AuditLegalHold where
  record_table : Str
  record_key : Str
  held_at : Naive
  held_by : Option Str
  reason : Option Str

inductive Table where
  | audit_events
  | quarantined_audit_events
  | audit_legal_holds
deriving DecidableEq

namespace Table

def name : Table → Str
  | audit_events => str "audit_events"
  | quarantined_audit_events => str "quarantined_audit_events"
  | audit_legal_holds => str "audit_legal_holds"

abbrev Row : Table → Type
  | audit_events => AuditEventRecord
  | quarantined_audit_events => QuarantinedAuditEvent
  | audit_legal_holds => AuditLegalHold

/-- The columns of the primary key. -/
def key : (t : Table) → t.Row → List Str
  | audit_events, r => [r.event_id]
  | quarantined_audit_events, r => [r.stream_message_id]
  | audit_legal_holds, r => [r.record_table, r.record_key]

/-- The value by which a hold row names a record. -/
def recordKey : (t : Table) → t.Row → Str
  | audit_events, r => r.event_id
  | quarantined_audit_events, r => r.stream_message_id
  | audit_legal_holds, r => r.record_key

end Table

/-- `_TABLES`: the tables that hold records. -/
def recordTables : List Table := [.audit_events, .quarantined_audit_events]

/-! ## The accounts -/

inductive Account where
  | admin
  | audit_writer
  | audit_reader
  | audit_maintenance
deriving DecidableEq

/-- A connection: the account and the host it connects from. -/
structure Connection where
  account : Account
  host : Str

/-- `_MAINTENANCE_USER`. -/
def maintenanceUser : Str := str "audit_maintenance"

/-- `SUBSTRING_INDEX(s, '@', 1)`. -/
def substringIndexAt (s : Str) : Str := s.takeWhile fun c => c ≠ cp '@'

/-- The server: the name of its admin account and the weights its collation compares text by.
The admin account is not the maintenance account. -/
structure Server where
  adminName : Str
  weight : Str → Str
  adminName_ne : weight (substringIndexAt adminName) ≠ weight maintenanceUser

/-- A privilege as `GRANT` names it. -/
inductive Privilege where
  | select
  | on (e : Event)
deriving DecidableEq

open Privilege in
/-- The grants of `main`. -/
def grants : Account → List (Table × List Privilege)
  | .audit_writer => recordTables.map fun t => (t, [select, on .insert])
  | .audit_reader => recordTables.map fun t => (t, [select])
  | .audit_maintenance =>
    [(.audit_events, [select, on .delete]),
      (.quarantined_audit_events, [select, on .delete]),
      (.audit_legal_holds, [select, on .insert, on .delete])]
  | .admin => [.audit_events, .quarantined_audit_events, .audit_legal_holds].map fun t =>
    (t, [select, on .insert, on .update, on .delete])

/-- Whether the account may do `e` on the table. -/
def granted (a : Account) (t : Table) (e : Event) : Bool :=
  (grants a).any fun g => g.1 = t && g.2.contains (.on e)

/-! ## The triggers -/

variable (srv : Server)

/-- The schema, with keys compared by weight. -/
abbrev schema : Sql.Schema where
  Table := Table
  Row := Table.Row
  Key := List Str
  key t r := (t.key r).map srv.weight

abbrev Db : Type := Sql.Db (schema srv)

abbrev Statement : Type := Sql.Statement (schema srv)

abbrev Trigger (t : Table) : Type := Sql.Trigger (schema srv) Connection t

variable {srv} in
/-- The rows of `audit_legal_holds`. -/
def holds (db : Db srv) : List AuditLegalHold := db.rows Table.audit_legal_holds

/-- A hold row matches the record of table `t` with key `k`. -/
def Held (db : Db srv) (t : Table) (k : Str) : Prop :=
  ∃ h ∈ holds db, srv.weight h.record_table = srv.weight t.name ∧
    srv.weight h.record_key = srv.weight k

instance (db : Db srv) (t : Table) (k : Str) : Decidable (Held srv db t k) := by
  unfold Held
  infer_instance

/-- The name of an account. -/
def userName : Account → Str
  | .admin => srv.adminName
  | .audit_writer => str "audit_writer"
  | .audit_reader => str "audit_reader"
  | .audit_maintenance => maintenanceUser

/-- `USER()`. -/
def user (c : Connection) : Str := userName srv c.account ++ cp '@' :: c.host

/-- A trigger that rejects every `UPDATE`. -/
def noUpdate (t : Table) (message : String) : Trigger srv t where
  event := .update
  body _ _ _ := .error (.signal (str message))

/-- A trigger that rejects a `DELETE` by anyone but the maintenance account, and of a row under
legal hold. -/
def noDelete (t : Table) (key : t.Row → Str) (identity hold : String) : Trigger srv t where
  event := .delete
  body c db
    | .delete old =>
      if srv.weight (substringIndexAt (user srv c)) ≠ srv.weight maintenanceUser then
        .error (.signal (str identity))
      else if Held srv db t (key old) then .error (.signal (str hold))
      else .ok ()
    | _ => .ok ()

def trg_audit_events_no_update : Trigger srv .audit_events :=
  noUpdate srv _ "audit_events is append-only: UPDATE denied by trigger"

def trg_audit_events_no_delete : Trigger srv .audit_events :=
  noDelete srv .audit_events (fun r => r.event_id)
    "audit_events delete requires the audit_maintenance identity"
    "audit_events row is under legal hold, delete denied"

def trg_quarantined_audit_events_no_update : Trigger srv .quarantined_audit_events :=
  noUpdate srv _ "quarantined_audit_events is append-only: UPDATE denied by trigger"

def trg_quarantined_audit_events_no_delete : Trigger srv .quarantined_audit_events :=
  noDelete srv .quarantined_audit_events (fun r => r.stream_message_id)
    "quarantined_audit_events delete requires the audit_maintenance identity"
    "quarantined_audit_events row is under legal hold, delete denied"

def trg_audit_legal_holds_no_update : Trigger srv .audit_legal_holds :=
  noUpdate srv _ ("audit_legal_holds is append-only: UPDATE denied by trigger -- " ++
    "delete and re-insert instead")

/-- The triggers `upgrade` creates. -/
def triggers : (t : Table) → List (Trigger srv t)
  | .audit_events => [trg_audit_events_no_update srv, trg_audit_events_no_delete srv]
  | .quarantined_audit_events =>
    [trg_quarantined_audit_events_no_update srv, trg_quarantined_audit_events_no_delete srv]
  | .audit_legal_holds => [trg_audit_legal_holds_no_update srv]

/-- The rules of the database. -/
def rules : Sql.Guard (schema srv) Connection := ⟨fun c => granted c.account, triggers srv⟩

/-! ## What the rules let through -/

variable {srv} {c : Connection} {db db' : Db srv}

/-- The host does not matter to `SUBSTRING_INDEX(USER(), '@', 1)`. -/
theorem substringIndexAt_append (s host : Str) :
    substringIndexAt (s ++ cp '@' :: host) = substringIndexAt s := by
  unfold substringIndexAt
  induction s with
  | nil => simp
  | cons x s ih =>
    by_cases hx : x = cp '@'
    · simp [hx]
    · simp only [List.cons_append, List.takeWhile_cons, hx, ne_eq, not_false_eq_true, decide_true,
        if_true, ih]

/-- Only the maintenance account and the admin account are granted a deletion of a record. -/
theorem granted_delete {a : Account} {t : Table} (ht : t ∈ recordTables)
    (hg : granted a t .delete = true) : a = .audit_maintenance ∨ a = .admin := by
  revert ht hg
  cases a <;> cases t <;> decide

/-- Only they are granted anything on the holds. -/
theorem granted_holds {a : Account} {e : Event} (hg : granted a .audit_legal_holds e = true) :
    a = .audit_maintenance ∨ a = .admin := by
  revert hg
  cases a <;> cases e <;> decide

/-- The triggers tell the admin account from the maintenance account. -/
theorem account_ne_admin
    (hw : srv.weight (substringIndexAt (user srv c)) = srv.weight maintenanceUser) :
    c.account ≠ .admin := by
  intro hadmin
  rw [user, substringIndexAt_append, hadmin] at hw
  exact srv.adminName_ne hw

/-- No row of any table is ever updated. -/
theorem not_update (t : Table) : ¬(rules srv).Move c t .update db db' := by
  intro h
  cases h with
  | update old new hg fired free =>
    cases t <;> cases fired

/-- A deletion that `noDelete` lets through. -/
theorem noDelete_ok {t : Table} {key : t.Row → Str} {identity hold : String} {old : t.Row}
    (h : (noDelete srv t key identity hold).body c db (.delete old) = .ok ()) :
    srv.weight (substringIndexAt (user srv c)) = srv.weight maintenanceUser ∧
      ¬Held srv db t (key old) := by
  simp only [noDelete] at h
  split_ifs at h with hw hheld
  exact ⟨not_not.mp hw, hheld⟩

/-- The triggers of a record table that a deletion has passed. -/
theorem fire_delete {t : Table} (ht : t ∈ recordTables) {old : t.Row}
    (h : (rules srv).fire c db t (.delete old) = .ok ()) :
    srv.weight (substringIndexAt (user srv c)) = srv.weight maintenanceUser ∧
      ¬Held srv db t (t.recordKey old) := by
  cases t with
  | audit_events =>
    obtain ⟨⟨⟩, h, -⟩ := bind_eq_ok.mp h
    exact noDelete_ok h
  | quarantined_audit_events =>
    obtain ⟨⟨⟩, h, -⟩ := bind_eq_ok.mp h
    exact noDelete_ok h
  | audit_legal_holds => simp [recordTables] at ht

/-- What one statement may have done to the database. -/
structure Lawful (c : Connection) (st : Statement srv) (db db' : Db srv) : Prop where
  /-- a row that keeps its key keeps every column, in each of the tables -/
  unchanged : ∀ (t : Table), ∀ r ∈ db.rows t, ∀ r' ∈ db'.rows t,
    (schema srv).key t r' = (schema srv).key t r → r' = r
  /-- a record goes by a `DELETE` of the maintenance account, and was not held -/
  record_gone : ∀ t ∈ recordTables, ∀ r ∈ db.rows t, r ∉ db'.rows t →
    c.account = .audit_maintenance ∧ (∃ cond, st = .delete t cond) ∧
      ¬Held srv db t (t.recordKey r)
  /-- a hold is released by a `DELETE` of the maintenance or the admin account -/
  hold_gone : ∀ h ∈ holds db, h ∉ holds db' →
    (c.account = .audit_maintenance ∨ c.account = .admin) ∧
      ∃ cond, st = .delete Table.audit_legal_holds cond
  /-- a hold is declared by an `INSERT` of one of them -/
  hold_added : ∀ h ∈ holds db', h ∉ holds db →
    (c.account = .audit_maintenance ∨ c.account = .admin) ∧
      ∃ rows onDuplicate, st = .insert Table.audit_legal_holds rows onDuplicate

/-- A statement that changes nothing is lawful. -/
theorem Lawful.refl (st : Statement srv) : Lawful c st db db where
  unchanged _ _ hr _ hr' h := Sql.Db.eq_of_key (S := schema srv) hr' hr h
  record_gone _ _ _ hr hr' := absurd hr hr'
  hold_gone _ hh hh' := absurd hh hh'
  hold_added _ hh hh' := absurd hh hh'

/-- Being held depends on the hold rows and on the weight of the key. -/
theorem Held.congr {t : Table} {k k' : Str} (hdb : holds db = holds db')
    (hk : srv.weight k = srv.weight k') (h : Held srv db t k) : Held srv db' t k' := by
  obtain ⟨hold, hmem, htable, hkey⟩ := h
  exact ⟨hold, hdb ▸ hmem, htable, hkey.trans hk⟩

/-- Two records of one key are named alike by a hold. -/
theorem weight_recordKey {t : Table} (ht : t ∈ recordTables) {r r' : t.Row}
    (h : (schema srv).key t r = (schema srv).key t r') :
    srv.weight (t.recordKey r) = srv.weight (t.recordKey r') := by
  cases t with
  | audit_events => exact (List.cons.inj h).1
  | quarantined_audit_events => exact (List.cons.inj h).1
  | audit_legal_holds => simp [recordTables] at ht

/-- The moves of a statement are lawful. -/
theorem lawful_of_moves {st : Statement srv}
    (hm : (rules srv).Moves c st.table st.events db db') : Lawful c st db db' where
  unchanged _ _ hr _ hr' h := Sql.Guard.unchanged_of_moves (fun _ _ _ => not_update _) hm hr hr' h
  record_gone t ht r hr hr' := by
    obtain ⟨hdel, hgranted, d, old, hothers, hkey, hfired⟩ :=
      Sql.Guard.gone_of_moves (fun _ _ _ => not_update _) hm hr hr'
    obtain ⟨hw, hheld⟩ := fire_delete ht hfired
    refine ⟨(granted_delete ht hgranted).resolve_right (account_ne_admin hw), hdel,
      fun h => hheld ?_⟩
    -- the statement is about a record table, so the holds are those it started from
    have hne : Table.audit_legal_holds ≠ t := by
      rintro rfl
      simp [recordTables] at ht
    exact h.congr (hothers _ hne).symm (weight_recordKey ht hkey.symm)
  hold_gone h hh hh' := by
    obtain ⟨hdel, hgranted, -⟩ := Sql.Guard.gone_of_moves (fun _ _ _ => not_update _) hm hh hh'
    exact ⟨granted_holds hgranted, hdel⟩
  hold_added h hh' hh := by
    obtain ⟨hins, hgranted⟩ := Sql.Guard.added_of_moves (fun _ _ _ => not_update _) hm hh hh'
    exact ⟨granted_holds hgranted, hins⟩

/-! ## Sequences of statements -/

/-- **Every statement of every sequence is lawful**, and so a record that was there at one time
and is not at a later one was deleted in between, by the maintenance account and while no hold
matched it; what has its key in the meantime is the record itself. -/
theorem ledger_immutability (srv : Server) (db : Db srv) (log : List (Connection × Statement srv)) :
    (∀ (i : ℕ) (hi : i < log.length), Lawful log[i].1 log[i].2
      ((rules srv).stateAt db log i) ((rules srv).stateAt db log (i + 1))) ∧
    ∀ (i j : ℕ), i ≤ j → j ≤ log.length → ∀ t ∈ recordTables,
      ∀ r ∈ ((rules srv).stateAt db log i).rows t,
        (r ∈ ((rules srv).stateAt db log j).rows t ∧
          ∀ r' ∈ ((rules srv).stateAt db log j).rows t,
            (schema srv).key t r' = (schema srv).key t r → r' = r) ∨
        ∃ k, ∃ hk : k < log.length, i ≤ k ∧ k < j ∧ log[k].1.account = .audit_maintenance ∧
          (∃ cond, log[k].2 = .delete t cond) ∧
          ¬Held srv ((rules srv).stateAt db log k) t (t.recordKey r) := by
  have hlawful : ∀ (i : ℕ) (hi : i < log.length), Lawful log[i].1 log[i].2
      ((rules srv).stateAt db log i) ((rules srv).stateAt db log (i + 1)) := by
    intro i hi
    rw [Sql.Guard.stateAt_succ db log hi]
    exact Sql.Guard.step_of_moves (P := Lawful log[i].1 log[i].2) (fun _ => .refl _)
      fun _ => lawful_of_moves
  refine ⟨hlawful, fun i j hij hj t ht r hr => ?_⟩
  induction j, hij using Nat.le_induction with
  | base => exact .inl ⟨hr, fun r' hr' h => Sql.Db.eq_of_key hr' hr h⟩
  | succ j hij ih =>
    rcases ih (by omega) with ⟨hmem, -⟩ | ⟨k, hk, hik, hkj, hrest⟩
    · by_cases hkept : r ∈ ((rules srv).stateAt db log (j + 1)).rows t
      · exact .inl ⟨hkept, fun r' hr' h => Sql.Db.eq_of_key hr' hkept h⟩
      · exact .inr ⟨j, by omega, hij, by omega, (hlawful j (by omega)).record_gone t ht r hmem hkept⟩
    · exact .inr ⟨k, hk, hik, by omega, hrest⟩

/-! A record is written and held; then everybody who may try deletes it, until the hold is
released and the maintenance account does. -/

namespace Sample

def server : Server := ⟨str "root", id, by decide⟩

def poison : QuarantinedAuditEvent where
  stream_message_id := str "1-0"
  raw_data := none
  raw_signature := none
  service := none
  failure_category := str "malformed"
  failure_detail := none
  delivery_attempts := 5
  record_integrity_hash := none
  integrity_key_id := none
  quarantined_at := ⟨0, by decide⟩

def hold : AuditLegalHold := ⟨str "quarantined_audit_events", str "1-0", ⟨0, by decide⟩, none, none⟩

def log : List (Connection × Statement server) :=
  [(⟨.audit_writer, []⟩, .insert Table.quarantined_audit_events [poison] .fail),
    (⟨.audit_maintenance, []⟩, .insert Table.audit_legal_holds [hold] .fail),
    (⟨.audit_maintenance, []⟩, .delete Table.quarantined_audit_events fun _ _ => true),
    (⟨.admin, []⟩, .delete Table.audit_legal_holds fun _ _ => true),
    (⟨.admin, []⟩, .delete Table.quarantined_audit_events fun _ _ => true),
    (⟨.audit_maintenance, []⟩, .delete Table.quarantined_audit_events fun _ _ => true)]

example : (List.range 7).map (fun i =>
    (((rules server).stateAt ⟨fun _ => [], by simp⟩ log i).rows
      Table.quarantined_audit_events).length) = [0, 1, 1, 1, 1, 1, 0] := by
  decide

end Sample

end Immutability

end SecurityAudit
