import SecurityAudit.Scripts.Provision

/-!
# The guard of a database that is set up

A server on which the ledger is set up by two kinds of commands, in any order and any number of
times: `alembic upgrade` in one of its databases, and `scripts/provision_audit_db_users.py`. Any of
them may stop anywhere. The guard of a database (`State.guard`) is what its accounts are granted
and the triggers that its tables have; the rules of the ledger (`Immutability.rules`) are the guard
that the commands are meant to end with.
-/

namespace SecurityAudit

open Sql (Accounts)

namespace Provision

open Immutability (Connection Privilege Server Table Trigger granted grants rules schema
  userName)

variable {D : Type} [DecidableEq D]

/-- The script is run in one of the environments `E`, or `alembic upgrade` in one of the
databases. -/
inductive Setup (databaseOf : Str → Option D) (E : Env → Prop) : State D → State D → Prop where
  | provision {s t : State D} {env : Env} {trace : List (Entry (sig D) (State D))}
      {o : Except Exc ℤ} (henv : E env) (h : Runs (world databaseOf) (main env) s trace o t) :
      Setup databaseOf E s t
  | upgrade {s : State D} {d : D} {t : Migrations.State}
      (h : Migrations.Upgraded (str "mysql") (s.database d) t) :
      Setup databaseOf E s { s with database := Function.update s.database d t }

section

variable (srv : Server)

/-- No account has one of the three names. -/
structure Unprovisioned (s : State D) : Prop where
  password : ∀ a ∈ provisioned, ∀ host, s.accounts.password (userName srv a.1, host) = none
  privileges : ∀ a ∈ provisioned, ∀ host d t,
    s.accounts.privileges (userName srv a.1, host) d t = []

/-- The triggers with these names that are triggers of the table. -/
def triggersOn (t : Table) (names : List Migrations.TriggerName) : List (Trigger srv t) :=
  (names.map (Migrations.TriggerName.body srv)).filterMap fun b =>
    if h : b.1 = t then some (h ▸ b.2) else none

/-- The guard of the database `d`: the admin account may do everything, the others what they are
granted as an account of any host. -/
def State.guard (d : D) (s : State D) : Sql.Guard (schema srv) Connection where
  granted c t e := c.account = .admin ||
    (s.accounts.privileges (userName srv c.account, str "%") d t).contains (.on e)
  triggers t := triggersOn srv t (((s.database d).catalog.layout? t).elim [] fun l => l.triggers)

end

variable {srv : Server} {databaseOf : Str → Option D} {E : Env → Prop} {d : D} {s t : State D}

/-! ## Along the commands -/

theorem Setup.grows (h : Setup databaseOf E s t) : s.accounts.Grows t.accounts := by
  cases h with
  | provision henv hrun => exact (runs_later hrun).accounts
  | upgrade hupgraded => exact .refl _

theorem Setup.obeys (h : Setup databaseOf E s t) (hs : Accounts.Obeys (policy srv E) s.accounts) :
    Accounts.Obeys (policy srv E) t.accounts := by
  cases h with
  | provision henv hrun => exact runs_obeys henv hrun hs
  | upgrade hupgraded => exact hs

/-- What a command does to one database is what upgrades of it do. -/
theorem Setup.upgraded (h : Setup databaseOf E s t) (d : D) :
    Relation.ReflTransGen (Migrations.Upgraded (str "mysql")) (s.database d) (t.database d) := by
  cases h with
  | provision henv hrun => exact .single (.others ((runs_later hrun).database d))
  | @upgrade d' u hupgraded =>
    show Relation.ReflTransGen _ _ (Function.update s.database d' u d)
    by_cases hd : d = d'
    · subst hd
      rw [Function.update_self]
      exact .single hupgraded
    · rw [Function.update_of_ne hd]

theorem grows_of_reach (h : Relation.ReflTransGen (Setup databaseOf E) s t) :
    s.accounts.Grows t.accounts := by
  induction h with
  | refl => exact .refl _
  | tail _ hstep ih => exact ih.trans hstep.grows

theorem obeys_of_reach (h : Relation.ReflTransGen (Setup databaseOf E) s t)
    (hs : Accounts.Obeys (policy srv E) s.accounts) : Accounts.Obeys (policy srv E) t.accounts := by
  induction h with
  | refl => exact hs
  | tail _ hstep ih => exact hstep.obeys ih

theorem upgraded_of_reach (h : Relation.ReflTransGen (Setup databaseOf E) s t) (d : D) :
    Relation.ReflTransGen (Migrations.Upgraded (str "mysql")) (s.database d) (t.database d) := by
  induction h with
  | refl => exact .refl
  | tail _ hstep ih => exact ih.trans (hstep.upgraded d)

omit [DecidableEq D] in
theorem Unprovisioned.obeys (h : Unprovisioned srv s) (E : Env → Prop) :
    Accounts.Obeys (policy srv E) s.accounts := by
  refine ⟨fun u pw hpw a ha hname => ?_, fun u d' tbl p hp a ha hname => ?_⟩
  · have hnone := h.password a ha u.2
    rw [← hname, hpw] at hnone
    cases hnone
  · have hnothing := h.privileges a ha u.2 d' tbl
    rw [← hname] at hnothing
    rw [hnothing] at hp
    cases hp

theorem setup_of_upgraded (databaseOf : Str → Option D) (E : Env → Prop) {m : Migrations.State}
    (h : Relation.ReflTransGen (Migrations.Upgraded (str "mysql")) (s.database d) m) :
    Relation.ReflTransGen (Setup databaseOf E) s
      { s with database := Function.update s.database d m } := by
  induction h with
  | refl =>
    rw [Function.update_eq_self]
  | @tail m n _ hstep ih =>
    refine ih.tail ?_
    rw [← Function.update_self d m s.database] at hstep
    have hstep' : Setup databaseOf E { s with database := Function.update s.database d m } _ :=
      .upgrade hstep
    rwa [Function.update_idem] at hstep'

/-! ## The guard -/

theorem mem_provisioned {a : Immutability.Account} (h : a ≠ .admin) :
    ∃ name, (a, name) ∈ provisioned := by
  cases a with
  | admin => exact absurd rfl h
  | audit_writer => exact ⟨_, List.mem_cons_self⟩
  | audit_reader => exact ⟨_, List.mem_cons_of_mem _ List.mem_cons_self⟩
  | audit_maintenance =>
    exact ⟨_, List.mem_cons_of_mem _ (List.mem_cons_of_mem _ List.mem_cons_self)⟩

theorem granted_iff {a : Immutability.Account} {tbl : Table} {e : Sql.Event} :
    granted a tbl e = true ↔ ∃ g ∈ grants a, g.1 = tbl ∧ Privilege.on e ∈ g.2 := by
  simp [granted]

theorem granted_admin (tbl : Table) (e : Sql.Event) : granted .admin tbl e = true := by
  cases tbl <;> cases e <;> decide

omit [DecidableEq D] in
/-- The guard grants nothing that the rules do not grant. -/
theorem granted_of_obeys (h : Accounts.Obeys (policy srv E) s.accounts) {c : Connection}
    {tbl : Table} {e : Sql.Event} (hgranted : (s.guard srv d).granted c tbl e = true) :
    granted c.account tbl e = true := by
  by_cases hadmin : c.account = .admin
  · rw [hadmin]
    exact granted_admin tbl e
  · obtain ⟨name, ha⟩ := mem_provisioned hadmin
    have hmem : Privilege.on e ∈ s.accounts.privileges (userName srv c.account, str "%") d tbl := by
      simpa [State.guard, hadmin] using hgranted
    obtain ⟨-, hgrants⟩ := h.privilege _ d tbl _ hmem _ ha rfl
    exact granted_iff.mpr hgrants

omit [DecidableEq D] in
/-- It grants everything to accounts that have been granted everything. -/
theorem granted_of_covers
    (h : ∀ a ∈ provisioned, s.accounts.Covers (userName srv a.1, str "%") d (grants a.1))
    {c : Connection} {tbl : Table} {e : Sql.Event} (hgranted : granted c.account tbl e = true) :
    (s.guard srv d).granted c tbl e = true := by
  by_cases hadmin : c.account = .admin
  · simp [State.guard, hadmin]
  · obtain ⟨name, ha⟩ := mem_provisioned hadmin
    obtain ⟨g, hg, rfl, he⟩ := granted_iff.mp hgranted
    have hmem := h _ ha g hg _ he
    simpa [State.guard, hadmin] using hmem

theorem triggersOn_of_map {tbl : Table} {names : List Migrations.TriggerName}
    (h : names.map (Migrations.TriggerName.body srv) =
      (Immutability.triggers srv tbl).map (Sigma.mk tbl)) :
    triggersOn srv tbl names = Immutability.triggers srv tbl := by
  unfold triggersOn
  rw [h, List.filterMap_map]
  have hsome : ((fun b : (t : Table) × Trigger srv t =>
      if h : b.1 = tbl then some (h ▸ b.2) else none) ∘ Sigma.mk tbl) = some := by
    funext b
    simp
  rw [hsome, List.filterMap_some]

/-- **A database that is set up has the guard of the rules.** On a server without the three
accounts, whatever commands have been run and wherever they stopped, the guard grants no more than
the rules. Once a run of the script on the database has returned it grants what they grant, and
with the last revision it is the guard of the rules, whatever commands are run after that. -/
theorem guard_of_setup (srv : Server) (databaseOf : Str → Option D) (E : Env → Prop) (d : D)
    (s₀ s : State D) (hfresh : Unprovisioned srv s₀) (hempty : s₀.database d = .empty)
    (h : Relation.ReflTransGen (Setup databaseOf E) s₀ s) :
    (∀ c tbl e, (s.guard srv d).granted c tbl e = true → (rules srv).granted c tbl e = true) ∧
      ∀ env trace r t, E env → databaseOf (adminUrl env) = some d →
        Runs (world databaseOf) (main env) s trace (.ok r) t →
          ∀ u, Relation.ReflTransGen (Setup databaseOf E) t u →
            (u.guard srv d).granted = (rules srv).granted ∧
              ((u.database d).revision = some Migrations.head → u.guard srv d = rules srv) := by
  have hobeys : Accounts.Obeys (policy srv E) s.accounts := obeys_of_reach h (hfresh.obeys E)
  refine ⟨fun c tbl e hgranted => granted_of_obeys hobeys hgranted, ?_⟩
  intro env trace r t henv hd hrun u hu
  have hgranted : (u.guard srv d).granted = (rules srv).granted := by
    obtain ⟨d', hd', hdone⟩ := runs_main srv hrun
    rw [hd] at hd'
    cases hd'
    have hcovers : ∀ a ∈ provisioned,
        u.accounts.Covers (userName srv a.1, str "%") d (grants a.1) :=
      fun a ha => (hdone a ha).1.covers.grows (grows_of_reach hu)
    have hobeys' := obeys_of_reach hu (runs_obeys henv hrun hobeys)
    funext c tbl e
    rw [Bool.eq_iff_iff]
    exact ⟨granted_of_obeys hobeys', granted_of_covers hcovers⟩
  refine ⟨hgranted, fun hhead => ?_⟩
  have htriggers : (u.guard srv d).triggers = (rules srv).triggers := by
    -- the database has seen upgrades from the start
    have hreach : Relation.ReflTransGen (Migrations.Upgraded (str "mysql")) .empty
        (u.database d) := by
      rw [← hempty]
      exact upgraded_of_reach (h.trans ((Relation.ReflTransGen.single (.provision henv hrun)).trans
        hu)) d
    obtain ⟨done, hpartly⟩ := ((Migrations.partly_empty (str "mysql")).reach hreach).partly
    funext tbl
    obtain ⟨l, hl, -, hnames⟩ := hpartly.asModelled srv hhead tbl
    show triggersOn srv tbl (((u.database d).catalog.layout? tbl).elim [] fun l => l.triggers) = _
    rw [hl]
    exact triggersOn_of_map (hnames rfl)
  exact congrArg₂ Sql.Guard.mk hgranted htriggers

/-- **Passwords are not defaults and do not change.** An account of the script has a password that
some run was given for this account, and that is not empty; it keeps it whatever is run after that,
also a run that is given another one and returns. Where a password is missing, nothing is asked of
the server, and the run does not return. -/
theorem password_of_setup (srv : Server) (databaseOf : Str → Option D) (E : Env → Prop)
    (s₀ s : State D) (hfresh : Unprovisioned srv s₀)
    (h : Relation.ReflTransGen (Setup databaseOf E) s₀ s) (a : Immutability.Account × Str)
    (ha : a ∈ provisioned) :
    (∀ host pw, s.accounts.password (userName srv a.1, host) = some pw →
      host = str "%" ∧ pw ≠ [] ∧ (∃ env, E env ∧ env a.2 = some pw) ∧
        ∀ t, Relation.ReflTransGen (Setup databaseOf E) s t →
          t.accounts.password (userName srv a.1, host) = some pw) ∧
      ∀ env trace o t, Runs (world databaseOf) (main env) s trace o t →
        ((∃ r, o = .ok r) → (∃ pw, pw ≠ [] ∧ env a.2 = some pw) ∧
          (t.accounts.password (userName srv a.1, str "%")).isSome) ∧
        ((∀ pw, pw ≠ [] → env a.2 ≠ some pw) →
          ∀ e ∈ trace, ∃ stream text, e.event.1 = .print stream text) := by
  have hobeys : Accounts.Obeys (policy srv E) s.accounts := obeys_of_reach h (hfresh.obeys E)
  refine ⟨fun host pw hpw => ?_, fun env trace o t hrun => ⟨?_, fun hmissing => ?_⟩⟩
  · obtain ⟨hhost, hne, henv⟩ := hobeys.password _ pw hpw a ha rfl
    exact ⟨hhost, hne, henv, fun t ht => (grows_of_reach ht).password _ pw hpw⟩
  · rintro ⟨r, rfl⟩
    obtain ⟨d', -, hdone⟩ := runs_main srv hrun
    exact ⟨(hdone a ha).2, (hdone a ha).1.password⟩
  · exact hrun.all (all_main_refused ha hmissing)

namespace Sample

/-- The answers of a server with one database, on which nothing fails. -/
def answer (c : Call Unit) (s : State Unit) : (sig Unit).Answer c × State Unit :=
  match c with
  | .connect _ => (.ok (), s)
  | .execute q args => ((q.run args s).map fun s' => (.ok (), s')).getD (.error .error, s)
  | .close => (.ok (), s)
  | .print _ _ => (.ok (), s)

theorem answers (c : Call Unit) (s : State Unit) :
    Answers (fun _ => some ()) c s (answer c s).1 (answer c s).2 := by
  cases c with
  | connect url => exact .ok (.connect rfl)
  | execute q args =>
    cases hrun : q.run args s with
    | none =>
      have hanswer : answer (.execute q args) s = (.error .error, s) := by simp [answer, hrun]
      rw [hanswer]
      exact .failed _ s
    | some s' =>
      have hanswer : answer (.execute q args) s = (.ok (), s') := by simp [answer, hrun]
      rw [hanswer]
      exact .ok (.execute hrun)
  | close => exact .ok .close
  | print stream text => exact .ok .print

/-- A server without accounts and tables. -/
def bare : State Unit := ⟨⟨fun _ => none, fun _ _ _ => []⟩, fun _ => .empty⟩

theorem unprovisioned_bare (srv : Server) : Unprovisioned srv bare :=
  ⟨fun _ _ _ => rfl, fun _ _ _ _ _ => rfl⟩

/-- The database after the first upgrades. -/
def upgraded (n : ℕ) : Migrations.State :=
  (Migrations.versions.take n).foldl (fun s m => s.turn (str "mysql") Migrations.Sample.now m) .empty

/-- An environment with the password of the writer. -/
def environ (writer_pw : String) : Env := fun name =>
  if name = str "AUDIT_WRITER_DB_PASSWORD" then some (str writer_pw)
  else if name = str "AUDIT_READER_DB_PASSWORD" then some (str "reader")
  else if name = str "AUDIT_MAINTENANCE_DB_PASSWORD" then some (str "maintenance")
  else none

end Sample

open Migrations in
theorem upgraded_last :
    Relation.ReflTransGen (Upgraded (str "mysql")) .empty (Provision.Sample.upgraded 6) := by
  have hturn : ∀ n : ℕ, ∀ m : Migration, ∀ ms : List Migration,
      pending (Provision.Sample.upgraded n).revision = m :: ms →
        (Sql.applyAll (script (m.upgrade (str "mysql")))
          (Provision.Sample.upgraded n).catalog).isSome = true →
            Upgraded (str "mysql") (Provision.Sample.upgraded n)
              ((Provision.Sample.upgraded n).turn (str "mysql") Migrations.Sample.now m) :=
    fun n m ms => upgraded_turn (str "mysql") Migrations.Sample.now
  have h₁ := hturn 0 versions[0] _ rfl (by decide +kernel)
  have h₂ := hturn 1 versions[1] _ rfl (by decide +kernel)
  have h₃ := hturn 2 versions[2] _ rfl (by decide +kernel)
  have h₄ := hturn 3 versions[3] _ rfl (by decide +kernel)
  have h₅ := hturn 4 versions[4] _ rfl (by decide +kernel)
  have h₆ := hturn 5 versions[5] _ rfl (by decide +kernel)
  exact (((((Relation.ReflTransGen.single h₁).tail h₂).tail h₃).tail h₄).tail h₅).tail h₆

namespace Sample

/-- The server with the database of the last revision. -/
def ready : State Unit :=
  { bare with database := Function.update bare.database () (upgraded 6) }

theorem setup_ready (E : Env → Prop) :
    Relation.ReflTransGen (Setup (fun _ => some ()) E) bare ready :=
  setup_of_upgraded (s := bare) (d := ()) (fun _ => some ()) E upgraded_last

end Sample

theorem runs_sample (s : State Unit) (env : Env)
    (h : ((main env).serve Sample.answer s).1.toOption = some 0) :
    ∃ trace, Runs (world fun _ => some ()) (main env) s trace (.ok 0)
      ((main env).serve Sample.answer s).2 := by
  obtain ⟨trace, hrun⟩ := Runs.of_serve (W := world fun _ => some ()) Sample.answers (main env) s
  cases hanswer : ((main env).serve Sample.answer s).1 with
  | error e =>
    rw [hanswer] at h
    cases h
  | ok r =>
    rw [hanswer] at h hrun
    cases h
    exact ⟨trace, hrun⟩

/-- The upgrades, and then the script. -/
theorem guard_of_setup_alone : ∃ u,
    Relation.ReflTransGen (Setup (fun _ => some ()) fun _ => True) Sample.bare u ∧
      u.guard Immutability.Sample.server () = rules Immutability.Sample.server := by
  obtain ⟨trace, hrun⟩ := runs_sample Sample.ready (Sample.environ "writer")
    (by decide +kernel)
  have hguard := (guard_of_setup Immutability.Sample.server (fun _ => some ()) (fun _ => True) ()
    Sample.bare Sample.ready (Sample.unprovisioned_bare _) rfl (Sample.setup_ready _)).2
      _ _ _ _ trivial rfl hrun _ .refl
  refine ⟨_, (Sample.setup_ready _).tail (.provision trivial hrun), hguard.2 ?_⟩
  decide +kernel

/-- The script is run again with another password, and returns: the password is the first one. -/
theorem password_of_setup_again : ∃ s t trace,
    Relation.ReflTransGen (Setup (fun _ => some ()) fun _ => True) Sample.bare s ∧
      Runs (world fun _ => some ()) (main (Sample.environ "second")) s trace (.ok 0) t ∧
        t.accounts.password (str "audit_writer", str "%") = some (str "first") := by
  obtain ⟨_, hfirst⟩ := runs_sample Sample.ready (Sample.environ "first")
    (by decide +kernel)
  obtain ⟨trace, hsecond⟩ := runs_sample
    ((main (Sample.environ "first")).serve Sample.answer Sample.ready).2 (Sample.environ "second")
    (by decide +kernel)
  have hreach := (Sample.setup_ready fun _ => True).tail (.provision trivial hfirst)
  obtain ⟨hpassword, -⟩ := password_of_setup Immutability.Sample.server (fun _ => some ())
    (fun _ => True) Sample.bare _ (Sample.unprovisioned_bare _) hreach
    (.audit_writer, str "AUDIT_WRITER_DB_PASSWORD") List.mem_cons_self
  have hkept := (hpassword (str "%") (str "first") (by decide +kernel)).2.2.2 _
    (.single (.provision trivial hsecond))
  exact ⟨_, _, trace, hreach, hsecond, hkept⟩

end Provision

end SecurityAudit
