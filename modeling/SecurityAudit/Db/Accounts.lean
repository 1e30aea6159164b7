import Mathlib.Logic.Function.Basic
import SecurityAudit.Text.Str

/-!
# Accounts and grants

The accounts of a server, and what each is granted on the tables of each database. `CREATE USER IF
NOT EXISTS` leaves an account that exists as it is, and `GRANT` only adds, so that accounts grow
(`Accounts.Grows`): whatever a sequence of such statements is meant to set up, a second one does
not take back. What they never go beyond is a `Policy`.
-/

namespace SecurityAudit

namespace Sql

/-- The accounts of a server: their passwords, and what they are granted. -/
structure Accounts (U D T P : Type) where
  /-- no password is no account -/
  password : U → Option Str
  privileges : U → D → T → List P

/-- The passwords and the privileges that accounts may have. -/
structure Policy (U T P : Type) where
  password : U → Str → Prop
  privilege : U → T → P → Prop

variable {U D T P : Type} [DecidableEq U] [DecidableEq D] [DecidableEq T]

namespace Accounts

/-- `CREATE USER IF NOT EXISTS`. -/
def createUser (a : Accounts U D T P) (u : U) (password : Str) : Accounts U D T P :=
  if (a.password u).isSome then a
  else { a with password := Function.update a.password u (some password) }

/-- `GRANT`, which only an account that exists is given. -/
def grant (a : Accounts U D T P) (u : U) (d : D) (t : T) (ps : List P) :
    Option (Accounts U D T P) :=
  if (a.password u).isSome then
    some { a with privileges := fun u' d' t' =>
      if u' = u ∧ d' = d ∧ t' = t then a.privileges u d t ++ ps else a.privileges u' d' t' }
  else none

/-- `b` has the accounts of `a` with their passwords, and what they are granted in `a`. -/
structure Grows (a b : Accounts U D T P) : Prop where
  password : ∀ u pw, a.password u = some pw → b.password u = some pw
  privileges : ∀ u d t, ∀ p ∈ a.privileges u d t, p ∈ b.privileges u d t

/-- No account has what the policy does not allow. -/
structure Obeys (π : Policy U T P) (a : Accounts U D T P) : Prop where
  password : ∀ u pw, a.password u = some pw → π.password u pw
  privilege : ∀ u d t, ∀ p ∈ a.privileges u d t, π.privilege u t p

/-- The account is granted the privileges of `grants`. -/
def Covers (a : Accounts U D T P) (u : U) (d : D) (grants : List (T × List P)) : Prop :=
  ∀ g ∈ grants, ∀ p ∈ g.2, p ∈ a.privileges u d g.1

variable {a b c : Accounts U D T P} {u : U} {d : D} {t : T} {ps : List P}

omit [DecidableEq U] [DecidableEq D] [DecidableEq T] in
theorem Grows.refl (a : Accounts U D T P) : Grows a a := ⟨fun _ _ h => h, fun _ _ _ _ h => h⟩

omit [DecidableEq U] [DecidableEq D] [DecidableEq T] in
theorem Grows.trans (h : Grows a b) (h' : Grows b c) : Grows a c :=
  ⟨fun u pw hpw => h'.password u pw (h.password u pw hpw),
    fun u d t p hp => h'.privileges u d t p (h.privileges u d t p hp)⟩

omit [DecidableEq U] [DecidableEq D] [DecidableEq T] in
theorem Covers.grows {grants : List (T × List P)} (h : a.Covers u d grants) (hgrows : Grows a b) :
    b.Covers u d grants :=
  fun g hg p hp => hgrows.privileges u d g.1 p (h g hg p hp)

omit [DecidableEq D] [DecidableEq T] in
theorem grows_createUser (a : Accounts U D T P) (u : U) (password : Str) :
    Grows a (a.createUser u password) := by
  unfold createUser
  split_ifs with hsome
  · exact .refl a
  · refine ⟨fun u' pw hpw => ?_, fun _ _ _ _ h => h⟩
    -- the account that is created is not one of those that exist
    have hne : u' ≠ u := by
      rintro rfl
      exact hsome (hpw ▸ rfl)
    show Function.update a.password u (some password) u' = some pw
    rw [Function.update_of_ne hne, hpw]

omit [DecidableEq D] [DecidableEq T] in
theorem isSome_createUser (a : Accounts U D T P) (u : U) (password : Str) :
    ((a.createUser u password).password u).isSome := by
  unfold createUser
  split_ifs with hsome
  · exact hsome
  · show (Function.update a.password u (some password) u).isSome
    rw [Function.update_self]
    rfl

theorem grows_grant (h : a.grant u d t ps = some b) : Grows a b := by
  unfold grant at h
  split_ifs at h with hsome
  cases h
  refine ⟨fun _ _ h => h, fun u' d' t' p hp => ?_⟩
  show p ∈ if u' = u ∧ d' = d ∧ t' = t then _ else _
  split_ifs with heq
  · obtain ⟨rfl, rfl, rfl⟩ := heq
    exact List.mem_append_left ps hp
  · exact hp

theorem covers_grant (h : a.grant u d t ps = some b) : b.Covers u d [(t, ps)] := by
  unfold grant at h
  split_ifs at h with hsome
  cases h
  intro g hg p hp
  rw [List.mem_singleton.mp hg] at hp ⊢
  show p ∈ if u = u ∧ d = d ∧ t = t then a.privileges u d t ++ ps else _
  rw [if_pos ⟨rfl, rfl, rfl⟩]
  exact List.mem_append_right _ hp

variable {π : Policy U T P}

omit [DecidableEq D] [DecidableEq T] in
theorem Obeys.createUser {pw : Str} (h : Obeys π a) (hpw : π.password u pw) :
    Obeys π (a.createUser u pw) := by
  unfold Accounts.createUser
  split_ifs with hsome
  · exact h
  · refine ⟨fun u' pw' hpw' => ?_, h.privilege⟩
    replace hpw' : Function.update a.password u (some pw) u' = some pw' := hpw'
    by_cases heq : u' = u
    · rw [heq, Function.update_self] at hpw'
      rw [heq, ← Option.some.inj hpw']
      exact hpw
    · rw [Function.update_of_ne heq] at hpw'
      exact h.password u' pw' hpw'

theorem Obeys.grant (h : Obeys π a) (hgrant : a.grant u d t ps = some b)
    (hps : ∀ p ∈ ps, π.privilege u t p) : Obeys π b := by
  unfold Accounts.grant at hgrant
  split_ifs at hgrant with hsome
  cases hgrant
  refine ⟨h.password, fun u' d' t' p hp => ?_⟩
  replace hp : p ∈ if u' = u ∧ d' = d ∧ t' = t then a.privileges u d t ++ ps
    else a.privileges u' d' t' := hp
  split_ifs at hp with heq
  · obtain ⟨rfl, rfl, rfl⟩ := heq
    exact (List.mem_append.mp hp).elim (h.privilege u' d' t' p) (hps p)
  · exact h.privilege u' d' t' p hp

end Accounts

end Sql

end SecurityAudit
