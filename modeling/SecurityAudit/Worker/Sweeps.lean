import SecurityAudit.Worker.Reclaim

/-!
# Successive sweeps

A sweep looks at the first `PEL_SWEEP_BATCH` stale rows in id order. A row it claims is fresh
again and makes room in the next window, and so does a poison row that is quarantined and
acknowledged. A poison row whose quarantine write fails stays where it is: `XRANGE` does not
touch its idle time. Where that does not happen, every row that is stale at the start is handed
on within as many sweeps as there are windows to look through.
-/

namespace SecurityAudit

/-! ## Windows of a list -/

section Windows

variable {α : Type} {l w : List α}

/-- An element that the window misses sits behind a full one. -/
theorem length_take_of_notMem {n : ℕ} {a : α} (h : a ∈ l) (hn : a ∉ l.take n) :
    (l.take n).length = n := by
  rw [List.length_take]
  by_contra hne
  have hle : l.length ≤ n := by omega
  rw [List.take_of_length_le hle] at hn
  exact hn h

/-- What is left when a window is taken away. -/
theorem length_filter_add_le {P : α → Bool} (hw : w.Sublist l) (hP : ∀ a ∈ w, P a = false) :
    (l.filter P).length + w.length ≤ l.length := by
  have hself : w.filter (fun a => !P a) = w :=
    List.filter_eq_self.mpr fun a ha => by rw [hP a ha]; rfl
  have hle : w.length ≤ (l.filter fun a => !P a).length := by
    rw [← hself]
    exact (hw.filter _).length_le
  have hsum := List.length_eq_length_filter_add (l := l) P
  omega

end Windows

namespace Group

variable {g : Group} {stream : List Message} {now T : ℕ} {minIdle : ℤ} {consumer : Str}
  {acc : Group × List Message} {id id' : StreamId} {ids : List StreamId}

/-! ## What `XCLAIM` leaves stale -/

theorem idle_mono {p : Pending} (h : now ≤ T) (hidle : idle now minIdle p = true) :
    idle T minIdle p = true := by
  rw [idle, decide_eq_true_eq] at hidle ⊢
  omega

/-- A row that was just handed out is not stale at `T`. -/
theorem not_idle_of_now {p : Pending} (hT : (T : ℤ) < now + minIdle) (hp : p.deliveredAt = now) :
    ¬idle T minIdle p = true := by
  rw [idle, decide_eq_true_eq, hp]
  omega

theorem stale_reassign_sublist (hT : (T : ℤ) < now + minIdle) (consumer : Str) (id : StreamId) :
    ((g.reassign now consumer id).pel.filter (idle T minIdle)).Sublist
      (g.pel.filter (idle T minIdle)) := by
  unfold reassign
  dsimp only
  induction g.pel with
  | nil => exact List.Sublist.refl _
  | cons p pel ih =>
    rw [List.map_cons]
    by_cases hp : p.id = id
    · rw [if_pos hp, List.filter_cons_of_neg (not_idle_of_now hT rfl)]
      exact ih.trans ((List.sublist_cons_self p pel).filter _)
    · rw [if_neg hp]
      by_cases hidle : idle T minIdle p = true
      · rw [List.filter_cons_of_pos hidle, List.filter_cons_of_pos hidle]
        exact ih.cons_cons p
      · rw [List.filter_cons_of_neg hidle, List.filter_cons_of_neg hidle]
        exact ih

theorem stale_claimOne_sublist (hT : (T : ℤ) < now + minIdle) :
    ((claimOne stream now minIdle consumer acc id').1.pel.filter (idle T minIdle)).Sublist
      (acc.1.pel.filter (idle T minIdle)) := by
  obtain ⟨-, h⟩ | ⟨-, h⟩ | ⟨-, m, -, -, h⟩ :=
    claimOne_cases stream now minIdle consumer acc id' <;> rw [h]
  · exact List.filter_sublist.filter _
  · exact stale_reassign_sublist hT consumer id'

theorem stale_foldl_sublist (hT : (T : ℤ) < now + minIdle) :
    ((ids.foldl (claimOne stream now minIdle consumer) acc).1.pel.filter (idle T minIdle)).Sublist
      (acc.1.pel.filter (idle T minIdle)) := by
  induction ids generalizing acc with
  | nil => exact List.Sublist.refl _
  | cons id' ids ih => exact ih.trans (stale_claimOne_sublist hT)

/-- `XCLAIM` makes nothing stale. -/
theorem stale_claim_sublist (g : Group) (stream : List Message) (hT : (T : ℤ) < now + minIdle)
    (consumer : Str) (ids : List StreamId) :
    ((g.claim stream now minIdle consumer ids).1.pel.filter (idle T minIdle)).Sublist
      (g.pel.filter (idle T minIdle)) :=
  stale_foldl_sublist hT

/-- It leaves the rows of other ids as they are. -/
theorem mem_claim_of_notMem {p : Pending} (h : p.id ∉ ids) :
    p ∈ (g.claim stream now minIdle consumer ids).1.pel ↔ p ∈ g.pel := by
  suffices H : ∀ acc : Group × List Message,
      p ∈ (ids.foldl (claimOne stream now minIdle consumer) acc).1.pel ↔ p ∈ acc.1.pel from
    H (g, [])
  induction ids with
  | nil => exact fun acc => Iff.rfl
  | cons id' ids ih =>
    intro acc
    rw [List.mem_cons, not_or] at h
    exact (ih h.2 _).trans (mem_claimOne_of_ne h.1)

/-- After one step on it, an id that was overdue has no stale row. -/
theorem not_stale_claimOne (hT : (T : ℤ) < now + minIdle) (hdue : acc.1.Overdue now minIdle id) :
    ∀ p ∈ (claimOne stream now minIdle consumer acc id).1.pel.filter (idle T minIdle),
      p.id ≠ id := by
  intro p hp
  rw [List.mem_filter] at hp
  obtain ⟨⟨-, hnot⟩, -⟩ | ⟨-, h⟩ | ⟨-, m, -, -, h⟩ :=
    claimOne_cases stream now minIdle consumer acc id
  · exact absurd hdue hnot
  · rw [h] at hp
    simpa using (List.mem_filter.mp hp.1).2
  · rw [h] at hp
    obtain ⟨q, -, rfl⟩ := List.mem_map.mp hp.1
    by_cases hq : q.id = id
    · rw [if_pos hq] at hp
      exact absurd hp.2 (not_idle_of_now hT rfl)
    · rw [if_neg hq]
      exact hq

/-- **What `XCLAIM` does for an overdue id.** It has no stale row afterwards, and if its entry
is still there, it is claimed. -/
theorem claim_overdue (stream : List Message) (consumer : Str) (hT : (T : ℤ) < now + minIdle)
    (hid : id ∈ ids) (hdue : g.Overdue now minIdle id) :
    (∀ p ∈ (g.claim stream now minIdle consumer ids).1.pel.filter (idle T minIdle), p.id ≠ id) ∧
      (HasBody stream id → id ∈ (g.claim stream now minIdle consumer ids).2.map Message.id) := by
  -- claimed entries stay claimed
  have hgrows : ∀ (ids : List StreamId) (acc : Group × List Message), id ∈ acc.2.map Message.id →
      id ∈ (ids.foldl (claimOne stream now minIdle consumer) acc).2.map Message.id := by
    intro ids
    induction ids with
    | nil => exact fun acc h => h
    | cons id' ids ih =>
      intro acc h
      apply ih
      obtain ⟨-, heq⟩ | ⟨-, heq⟩ | ⟨-, m, -, -, heq⟩ :=
        claimOne_cases stream now minIdle consumer acc id' <;> rw [heq]
      · exact h
      · exact h
      · rw [List.map_append, List.mem_append]
        exact .inl h
  suffices H : ∀ acc : Group × List Message, acc.1.Overdue now minIdle id →
      (∀ p ∈ (ids.foldl (claimOne stream now minIdle consumer) acc).1.pel.filter (idle T minIdle),
        p.id ≠ id) ∧ (HasBody stream id →
          id ∈ (ids.foldl (claimOne stream now minIdle consumer) acc).2.map Message.id) from
    H (g, []) hdue
  induction ids with
  | nil => cases hid
  | cons id' ids ih =>
    intro acc hacc
    by_cases hne : id = id'
    · subst hne
      constructor
      · exact fun p hp =>
          not_stale_claimOne hT hacc p ((stale_foldl_sublist hT).subset hp)
      · intro hbody
        refine hgrows ids (claimOne stream now minIdle consumer acc id) ?_
        obtain ⟨⟨-, hnot⟩, -⟩ | ⟨hgone, -⟩ | ⟨-, m, -, hmid, heq⟩ :=
          claimOne_cases stream now minIdle consumer acc id
        · exact absurd hacc hnot
        · exact absurd hbody hgone
        · rw [heq, List.map_append, List.mem_append, List.map_singleton, List.mem_singleton]
          exact .inr hmid.symm
    · have hid : id ∈ ids := (List.mem_cons.mp hid).resolve_left hne
      exact ih hid _ ((overdue_claimOne_of_ne hne).mpr hacc)

/-- Only ids that were named are claimed. -/
theorem id_of_mem_claim {m : Message} (h : m ∈ (g.claim stream now minIdle consumer ids).2) :
    m.id ∈ ids := by
  suffices H : ∀ acc : Group × List Message,
      m ∈ (ids.foldl (claimOne stream now minIdle consumer) acc).2 → m ∈ acc.2 ∨ m.id ∈ ids by
    exact (H (g, []) h).resolve_left (by simp)
  clear h
  induction ids with
  | nil => exact fun acc h => .inl h
  | cons id' ids ih =>
    intro acc h
    rcases ih _ h with h | h
    · obtain ⟨-, heq⟩ | ⟨-, heq⟩ | ⟨-, m', -, hmid, heq⟩ :=
        claimOne_cases stream now minIdle consumer acc id' <;> rw [heq] at h
      · exact .inl h
      · exact .inl h
      · rcases List.mem_append.mp h with h | h
        · exact .inl h
        · right
          rw [List.mem_singleton.mp h, hmid]
          exact List.mem_cons_self
    · exact .inr (List.mem_cons_of_mem _ h)

end Group

/-! ## What a call leaves stale -/

/-- The pending rows that are stale at the time `T`, whatever the time is. -/
def Shared.staleAt (s : Shared) (cfg : AuditConfig) (T : ℕ) : List Pending :=
  match s.group with
  | none => []
  | some g => g.pel.filter (Group.idle T cfg.pelMinIdleMs)

/-- The call may give or take the row of `id`, or add rows. -/
def Call.Touches (id : StreamId) : Call → Prop
  | .xgroupCreate | .xreadgroup _ => True
  | .xclaim _ ids => id ∈ ids
  | .xack id' _ => id' = id
  | _ => False

section Effects

variable {env : Env} {c : Call} {s s' t : Shared} {T : ℕ} {p : Pending} {trace : List WorkerStep}

theorem staleAt_some {cfg : AuditConfig} {g : Group} (h : s.group = some g) :
    s.staleAt cfg T = g.pel.filter (Group.idle T cfg.pelMinIdleMs) := by
  unfold Shared.staleAt
  rw [h]

theorem staleAt_none {cfg : AuditConfig} (h : s.group = none) : s.staleAt cfg T = [] := by
  unfold Shared.staleAt
  rw [h]

theorem staleAt_congr {cfg : AuditConfig} (h : s'.group = s.group) :
    s'.staleAt cfg T = s.staleAt cfg T := by
  unfold Shared.staleAt
  rw [h]

/-- What a call can do to the clock and the group. -/
theorem Executes.effect {v : c.Reply} (h : Executes env c s v s') :
    s'.now = s.now ∧ (s'.group = s.group ∨ (c = .xgroupCreate ∧ s'.group = some .fresh) ∨
      (∃ consumer, c = .xreadgroup consumer) ∨
      (∃ consumer ids g, c = .xclaim consumer ids ∧ s.group = some g ∧
        s'.group = some (g.claim s.stream s.now env.cfg.pelMinIdleMs consumer ids).1) ∨
      ∃ id reason, c = .xack id reason ∧ s'.group = s.group.map fun g => g.ack id) := by
  cases h with
  | xgroupCreate free => exact ⟨rfl, .inr (.inl ⟨rfl, rfl⟩)⟩
  | xreadgroup hg => exact ⟨rfl, .inr (.inr (.inl ⟨_, rfl⟩))⟩
  | xclaim hg => exact ⟨rfl, .inr (.inr (.inr (.inl ⟨_, _, _, rfl, hg, rfl⟩)))⟩
  | xack => exact ⟨rfl, .inr (.inr (.inr (.inr ⟨_, _, rfl, rfl⟩)))⟩
  | _ => exact ⟨rfl, .inl rfl⟩

/-- An answered call was carried out or changed nothing. -/
theorem Answers.executed {r : workerSig.Answer c} (h : Answers env c s r s') :
    s' = s ∨ ∃ v, Executes env c s v s' := by
  cases h with
  | done h => exact .inr ⟨_, h⟩
  | lost h _ => exact .inr ⟨_, h⟩
  | refused _ => exact .inl rfl

theorem Answers.now_eq {r : workerSig.Answer c} (h : Answers env c s r s') : s'.now = s.now := by
  obtain rfl | ⟨v, hexec⟩ := h.executed
  · rfl
  · exact hexec.effect.1

/-- Nothing but a group read makes a row stale that was not. -/
theorem stale_of_answer {r : workerSig.Answer c} (h : Answers env c s r s')
    (hc : ∀ consumer, c ≠ .xreadgroup consumer) (hT : (T : ℤ) < s.now + env.cfg.pelMinIdleMs) :
    (s'.staleAt env.cfg T).Sublist (s.staleAt env.cfg T) := by
  obtain rfl | ⟨v, hexec⟩ := h.executed
  · exact List.Sublist.refl _
  obtain ⟨-, hsame | ⟨-, hfresh⟩ | ⟨consumer, hread⟩ | ⟨consumer, ids, g, -, hg, hg'⟩ |
    ⟨id, reason, -, hack⟩⟩ := hexec.effect
  · rw [staleAt_congr hsame]
  · rw [staleAt_some hfresh]
    exact List.nil_sublist _
  · exact absurd hread (hc consumer)
  · rw [staleAt_some hg, staleAt_some hg']
    exact Group.stale_claim_sublist g s.stream hT consumer ids
  · cases hg : s.group with
    | none =>
      rw [hg] at hack
      rw [staleAt_none hack]
      exact List.nil_sublist _
    | some g =>
      rw [hg] at hack
      rw [staleAt_some hack, staleAt_some hg]
      exact List.filter_sublist.filter _

/-- A call that does not touch a row leaves it where it is. -/
theorem row_of_answer {r : workerSig.Answer c} (h : Answers env c s r s')
    (hc : ¬c.Touches p.id) (hp : s.group ≠ none → p ∈ s.staleAt env.cfg T)
    (hg' : s'.group ≠ none) : p ∈ s'.staleAt env.cfg T := by
  obtain rfl | ⟨v, hexec⟩ := h.executed
  · exact hp hg'
  obtain ⟨-, hsame | ⟨rfl, -⟩ | ⟨consumer, rfl⟩ | ⟨consumer, ids, g, rfl, hg, hclaim⟩ |
    ⟨id, reason, rfl, hack⟩⟩ := hexec.effect
  · rw [staleAt_congr hsame]
    exact hp (by rwa [hsame] at hg')
  · exact absurd trivial hc
  · exact absurd trivial hc
  · have hmem := hp (by rw [hg]; simp)
    rw [staleAt_some hg, List.mem_filter] at hmem
    rw [staleAt_some hclaim, List.mem_filter]
    exact ⟨(Group.mem_claim_of_notMem hc).mpr hmem.1, hmem.2⟩
  · cases hg : s.group with
    | none =>
      rw [hg] at hack
      exact absurd hack hg'
    | some g =>
      rw [hg] at hack
      have hmem := hp (by rw [hg]; simp)
      rw [staleAt_some hg, List.mem_filter] at hmem
      rw [staleAt_some hack, List.mem_filter]
      have hne : p.id ≠ id := fun heq => hc heq.symm
      exact ⟨List.mem_filter.mpr ⟨hmem.1, by simpa using hne⟩, hmem.2⟩

/-- An acknowledged id has no row. -/
theorem not_stale_of_ack {id : StreamId} {reason : AckReason}
    (h : Executes env (.xack id reason) s () s') : ∀ q ∈ s'.staleAt env.cfg T, q.id ≠ id := by
  cases h with
  | xack =>
    cases hg : s.group with
    | none =>
      rw [staleAt_none (by simp)]
      simp
    | some g =>
      intro q hq
      rw [@staleAt_some _ _ _ (g.ack id) (by simp), List.mem_filter] at hq
      simpa using (List.mem_filter.mp hq.1).2

/-! ## What drift leaves stale -/

/-- Time does not go back, and the group stays as it is or is lost. -/
theorem Drift.effect (h : Drift s s') :
    s.now ≤ s'.now ∧ (s'.group = s.group ∨ s'.group = none) := by
  cases h with
  | tick ms => exact ⟨Nat.le_add_right _ _, .inl rfl⟩
  | xadd _ _ => exact ⟨le_refl _, .inl rfl⟩
  | trim _ => exact ⟨le_refl _, .inl rfl⟩
  | groupLost => exact ⟨le_refl _, .inr rfl⟩

theorem stale_of_drift (h : Drift s s') :
    (s'.staleAt env.cfg T).Sublist (s.staleAt env.cfg T) := by
  rcases h.effect.2 with hsame | hnone
  · rw [staleAt_congr hsame]
  · rw [staleAt_none hnone]
    exact List.nil_sublist _

theorem row_of_drift (h : Drift s s') (hp : s.group ≠ none → p ∈ s.staleAt env.cfg T)
    (hg' : s'.group ≠ none) : p ∈ s'.staleAt env.cfg T := by
  rcases h.effect.2 with hsame | hnone
  · rw [staleAt_congr hsame]
    exact hp (by rwa [hsame] at hg')
  · exact absurd hnone hg'

/-- The group that is there after a while was there all the time. -/
theorem group_of_drifts (h : Relation.ReflTransGen Drift s t) (ht : t.group ≠ none) :
    s.group = t.group := by
  induction h with
  | refl => rfl
  | tail _ hstep ih =>
    rcases hstep.effect.2 with hsame | hnone
    · rw [hsame] at ht ⊢
      exact ih ht
    · exact absurd hnone ht

/-! ## What a run leaves stale -/

variable {α : Type} {q : Worker α} {o : Except Exc α}

theorem now_le_of_drifts (h : Relation.ReflTransGen Drift s t) : s.now ≤ t.now := by
  induction h with
  | refl => exact le_refl _
  | tail _ hstep ih => exact ih.trans hstep.effect.1

theorem now_le_of_runs (h : Runs (world env) q s trace o t) : s.now ≤ t.now := by
  have hall : q.All fun _ : Call => True := Prog.all_of_forall (fun _ => trivial) q
  refine h.keeps (I := fun u => s.now ≤ u.now) hall (fun u u' hd hle => ?_)
    (fun c u r u' _ ha hle => ?_) (le_refl s.now)
  · exact hle.trans (Drift.effect hd).1
  · exact hle.trans (Answers.now_eq ha).ge

/-- No call is made before the run starts. -/
theorem start_le_of_mem {e : WorkerStep} (h : Runs (world env) q s trace o t) (he : e ∈ trace) :
    s.now ≤ e.before.now := by
  have hall : q.All fun _ : Call => True := Prog.all_of_forall (fun _ => trivial) q
  refine h.keeps_until (I := fun u => s.now ≤ u.now) hall (fun u u' hd hle => ?_)
    (fun c u r u' _ ha hle => ?_) (le_refl s.now) e he
  · exact hle.trans (Drift.effect hd).1
  · exact hle.trans (Answers.now_eq ha).ge

theorem row_of_drifts (h : Relation.ReflTransGen Drift s t)
    (hp : s.group ≠ none → p ∈ s.staleAt env.cfg T) (ht : t.group ≠ none) :
    p ∈ t.staleAt env.cfg T := by
  induction h with
  | refl => exact hp ht
  | tail _ hstep ih => exact row_of_drift hstep ih ht

/-- A run without a group read makes nothing stale that was not. -/
theorem stale_of_runs (h : Runs (world env) q s trace o t)
    (hq : q.All fun c : Call => ∀ consumer, c ≠ .xreadgroup consumer)
    (hT : (T : ℤ) < s.now + env.cfg.pelMinIdleMs) :
    (t.staleAt env.cfg T).Sublist (s.staleAt env.cfg T) := by
  refine (h.keeps (I := fun u => s.now ≤ u.now ∧
    (u.staleAt env.cfg T).Sublist (s.staleAt env.cfg T)) hq (fun u u' hd hu => ?_)
    (fun c u r u' hc ha hu => ?_) ⟨le_refl _, List.Sublist.refl _⟩).2
  · exact ⟨hu.1.trans (Drift.effect hd).1, (stale_of_drift hd).trans hu.2⟩
  · have hwithin : (T : ℤ) < u.now + env.cfg.pelMinIdleMs := by
      have := hu.1
      omega
    exact ⟨hu.1.trans (Answers.now_eq ha).ge, (stale_of_answer ha hc hwithin).trans hu.2⟩

/-- A run that does not touch a row leaves it where it is. -/
theorem row_of_runs (h : Runs (world env) q s trace o t)
    (hq : q.All fun c : Call => ¬c.Touches p.id) (hp : s.group ≠ none → p ∈ s.staleAt env.cfg T)
    (ht : t.group ≠ none) : p ∈ t.staleAt env.cfg T :=
  h.keeps (I := fun u => u.group ≠ none → p ∈ u.staleAt env.cfg T) hq
    (fun _ _ hd hu => row_of_drift hd hu) (fun _ _ _ _ hc ha hu => row_of_answer ha hc hu) hp ht

end Effects

/-! ## One sweep -/

/-- A sweep that returned. -/
structure Sweep where
  consumer : Str
  before : Shared
  trace : List WorkerStep
  after : Shared

namespace Sweep

/-- `claim_stale` found `claimed` and `poison`, and both loops ran to their end. -/
def Found (env : Env) (r : Sweep) (claimed : List Message)
    (poison : List StreamReader.PoisonEntry) : Prop :=
  ∃ claiming quarantining handling u v, r.trace = claiming ++ (quarantining ++ handling) ∧
    Runs (world env) (StreamReader.claimStale env.cfg r.consumer) r.before claiming
      (.ok (claimed, poison)) u ∧
    Runs (world env) (Prog.forEach (fun entry => do
      let _ ← quarantineAndAck env entry
      return ()) poison) u quarantining (.ok ()) v ∧
    Runs (world env) (handleAll env claimed) v handling (.ok ()) r.after

/-- The sweep passed `id` to `handle_message` or to `quarantine_and_ack`. -/
def Hands (env : Env) (r : Sweep) (id : StreamId) : Prop :=
  ∃ claimed poison, r.Found env claimed poison ∧
    (id ∈ claimed.map Message.id ∨ id ∈ poison.map StreamReader.PoisonEntry.message_id)

/-- No call of `claim_stale` raised. -/
def Answered (r : Sweep) : Prop := ∀ e ∈ r.trace, e.event.1.Reclaims → ¬e.Raised

/-- Each poison row that `XPENDING` listed was quarantined and then acknowledged. -/
def Settled (cfg : AuditConfig) (r : Sweep) : Prop :=
  ∀ e ∈ r.trace, ∀ infos : List PendingInfo, e.event = ⟨.xpendingRange, .ok infos⟩ →
    ∀ i ∈ poisonOf cfg infos, ∃ a ∈ r.trace, a.event = ⟨.xack i.message_id .quarantined, .ok ()⟩

/-- Each id that an `XCLAIM` named had its entry in the stream. -/
def Backed (r : Sweep) : Prop :=
  ∀ e ∈ r.trace, ∀ consumer ids, e.event.1 = .xclaim consumer ids →
    ∀ id ∈ ids, Group.HasBody e.before.stream id

end Sweep

section OneSweep

variable {env : Env} {r : Sweep} {last last' : LastAttempt} {s u : Shared} {T : ℕ}
  {claiming : List WorkerStep} {claimed : List Message} {poison : List StreamReader.PoisonEntry}

/-- `claim_stale` raises only what one of its calls raised. -/
theorem transparent_claimStale (consumer : Str) :
    Transparent (world env) (StreamReader.claimStale env.cfg consumer) := by
  have hfetch : ∀ rows, Transparent (world env) (StreamReader.fetchPoison rows) := by
    intro rows
    induction rows with
    | nil => exact .ret _
    | cons row rows ih => exact .bind (.perform _) fun _ => ih.bind fun _ => .ret _
  refine .bind (.perform _) fun stale => ?_
  split_ifs
  · exact .ret _
  · refine (hfetch _).bind fun entries => ?_
    split_ifs
    · exact .ret _
    · exact .bind (.perform _) fun _ => .ret _

/-- The parts of a sweep whose `claim_stale` did not fail. -/
theorem found_of_runs
    (h : Runs (world env) (sweepPending env r.consumer last) r.before r.trace (.ok last') r.after)
    (hanswered : r.Answered) : ∃ claimed poison, r.Found env claimed poison := by
  obtain ⟨o, claiming, rest, u, htrace, hclaim, hrest⟩ := h.of_attempt_bind
  rcases o with e | ⟨claimed, poison⟩
  · obtain ⟨x, hx, hraised⟩ := transparent_claimStale r.consumer hclaim
    have hmem : x ∈ r.trace := by
      rw [htrace]
      exact List.mem_append_left _ hx
    exact absurd hraised (hanswered x hmem (hclaim.all (calls_claimStale env r.consumer) x hx))
  · obtain ⟨_, hnone, -⟩ | ⟨_, quarantining, rest', v, rfl, hquarantine, h₁⟩ := hrest.of_bind
    · cases hnone
    obtain ⟨_, hnone, -⟩ | ⟨_, handling, nothing, w, rfl, hhandle, h₂⟩ := h₁.of_bind
    · cases hnone
    obtain ⟨rfl, -, rfl⟩ := h₂.of_ret
    rw [List.append_nil] at htrace
    exact ⟨claimed, poison, claiming, quarantining, handling, u, v, htrace, hclaim, hquarantine,
      hhandle⟩

/-- The window a sweep looks at. -/
def Group.window (g : Group) (cfg : AuditConfig) (now : ℕ) : List Pending :=
  (g.pel.filter (Group.idle now cfg.pelMinIdleMs)).take cfg.pelSweepBatch

theorem ids_pendingRange (g : Group) (cfg : AuditConfig) (now : ℕ) :
    (g.pendingRange now cfg.pelMinIdleMs cfg.pelSweepBatch).map PendingInfo.message_id =
      (g.window cfg now).map Pending.id := by
  rw [Group.pendingRange, List.map_map]
  rfl

/-- A row of the window is stale, and stays stale until `T`. -/
theorem window_sublist {g : Group} {now : ℕ} (hs : s.group = some g) (hle : now ≤ T) :
    (g.window env.cfg now).Sublist (s.staleAt env.cfg T) := by
  rw [staleAt_some hs]
  have hself : (g.window env.cfg now).filter (Group.idle T env.cfg.pelMinIdleMs) =
      g.window env.cfg now := by
    refine List.filter_eq_self.mpr fun p hp => ?_
    exact Group.idle_mono hle (List.mem_filter.mp (List.mem_of_mem_take hp)).2
  rw [← hself]
  exact ((List.take_sublist _ _).trans List.filter_sublist).filter _

/-- What `claim_stale` did with the rows it listed, and with those that are stale at `T`. -/
structure TookUp (env : Env) (T : ℕ) (s u : Shared) (claiming : List WorkerStep)
    (claimed : List Message) (poison : List StreamReader.PoisonEntry)
    (infos : List PendingInfo) : Prop where
  listed : ∃ e ∈ claiming, e.event = ⟨.xpendingRange, .ok infos⟩
  poison : poison.map StreamReader.PoisonEntry.message_id =
    (poisonOf env.cfg infos).map PendingInfo.message_id
  claimed : ∀ id, id ∈ claimed.map Message.id ↔
    id ∈ (reclaimableOf env.cfg infos).map PendingInfo.message_id
  cleared : ∀ id ∈ (reclaimableOf env.cfg infos).map PendingInfo.message_id,
    ∀ q ∈ u.staleAt env.cfg T, q.id ≠ id
  kept : ∀ p ∈ s.staleAt env.cfg T, p.id ∉ infos.map PendingInfo.message_id → u.group ≠ none →
    p ∈ u.staleAt env.cfg T

/-- The listed rows are still there while the poison entries are fetched. -/
theorem row_of_fetching {s₁ s₂ s₃ : Shared} {infos rows : List PendingInfo}
    {fetches : List WorkerStep} {o : Except Exc (List StreamReader.PoisonEntry)} {p : Pending}
    (drifted : Relation.ReflTransGen Drift s s₁) (listed : Executes env .xpendingRange s₁ infos s₂)
    (fetched : Runs (world env) (StreamReader.fetchPoison rows) s₂ fetches o s₃)
    (hp : s.group ≠ none → p ∈ s.staleAt env.cfg T) (hg : s₃.group ≠ none) :
    p ∈ s₃.staleAt env.cfg T := by
  have hlisted : s₂.group ≠ none → p ∈ s₂.staleAt env.cfg T :=
    row_of_answer (.done listed) (fun h => h) (row_of_drifts drifted hp)
  refine row_of_runs fetched ((calls_fetchPoison rows).mono ?_) hlisted hg
  rintro c ⟨id, rfl⟩
  exact fun h => h

theorem tookUp_of_runs
    (h : Runs (world env) (StreamReader.claimStale env.cfg r.consumer) s claiming
      (.ok (claimed, poison)) u)
    (hbacked : ∀ e ∈ claiming, ∀ consumer ids, e.event.1 = .xclaim consumer ids →
      ∀ id ∈ ids, Group.HasBody e.before.stream id)
    (hle : u.now ≤ T) (hT : (T : ℤ) < s.now + env.cfg.pelMinIdleMs) :
    ∃ g now infos, s.group = some g ∧ s.now ≤ now ∧ now ≤ T ∧
      infos.map PendingInfo.message_id = (g.window env.cfg now).map Pending.id ∧
        TookUp env T s u claiming claimed poison infos := by
  cases reclaimed_of_runs h with
  | @unclaimed s₁ s₂ _ infos fetches _ drifted listed fetched none =>
    have hpoison := ids_of_fetchPoison fetched
    have hnow := now_le_of_runs fetched
    cases hl : listed with
    | @xpendingRange _ g _ hg hinfos =>
    have hgs : s.group = some g := (group_of_drifts drifted (by simp [hg])).trans hg
    refine ⟨g, s₁.now, infos, hgs, now_le_of_drifts drifted, hnow.trans hle, ?_, ⟨_,
      List.mem_cons_self, rfl⟩, hpoison, ?_, ?_, ?_⟩
    · rw [hinfos, ids_pendingRange]
    · simp [none]
    · simp [none]
    · exact fun p hp _ hgu => row_of_fetching drifted listed fetched (fun _ => hp) hgu
  | @claimed s₁ s₂ s₃ s₄ _ infos fetches _ _ drifted listed fetched some drifted' taken =>
    have hpoison := ids_of_fetchPoison fetched
    have hnow := now_le_of_runs fetched
    have hnow' := now_le_of_drifts drifted'
    have hstart := now_le_of_drifts drifted
    have hlist := listed
    cases listed with
    | @xpendingRange _ g _ hg hinfos =>
    have hgs : s.group = .some g := (group_of_drifts drifted (by simp [hg])).trans hg
    have hids : infos.map PendingInfo.message_id = (g.window env.cfg s₁.now).map Pending.id := by
      rw [hinfos, ids_pendingRange]
    have htaken := taken
    cases taken with
    | @xclaim _ g₄ _ _ hg₄ =>
    have hle₁ : s₁.now ≤ T := (hnow.trans hnow').trans hle
    have hT₄ : (T : ℤ) < s₄.now + env.cfg.pelMinIdleMs := by
      have : s.now ≤ s₄.now := (hstart.trans hnow).trans hnow'
      omega
    -- a listed row is still there when the `XCLAIM` is carried out, and stale
    have hdue : ∀ id ∈ infos.map PendingInfo.message_id,
        g₄.Overdue s₄.now env.cfg.pelMinIdleMs id := by
      intro id hid
      rw [hids] at hid
      obtain ⟨q, hq, rfl⟩ := List.mem_map.mp hid
      have hq' : q ∈ s.staleAt env.cfg T := (window_sublist hgs hle₁).subset hq
      have hq₄ : q ∈ s₄.staleAt env.cfg T := row_of_drifts drifted'
        (row_of_fetching drifted hlist fetched fun _ => hq') (by simp [hg₄])
      rw [staleAt_some hg₄] at hq₄
      exact ⟨q, List.mem_of_mem_filter hq₄, rfl, Group.idle_mono (hnow.trans hnow')
        (List.mem_filter.mp (List.mem_of_mem_take hq)).2⟩
    have hover := fun id hid =>
      Group.claim_overdue s₄.stream r.consumer hT₄ hid
        (hdue id ((mem_ids_iff env.cfg).mpr (.inr hid)))
    refine ⟨g, s₁.now, infos, hgs, hstart, hle₁, hids, ⟨_, List.mem_cons_self, rfl⟩, hpoison, ?_,
      ?_, ?_⟩
    · intro id
      constructor
      · intro hid
        obtain ⟨m, hm, rfl⟩ := List.mem_map.mp hid
        exact Group.id_of_mem_claim hm
      · intro hid
        refine (hover id hid).2 (hbacked _ (List.mem_cons_of_mem _ (List.mem_append_right _
          (List.mem_singleton.mpr rfl))) _ _ rfl id hid)
    · intro id hid q hq
      rw [staleAt_some rfl] at hq
      exact (hover id hid).1 q hq
    · intro p hp hid hgu
      refine row_of_answer (.done htaken) (fun hmem => hid ?_) (row_of_drifts drifted'
        (row_of_fetching drifted hlist fetched fun _ => hp)) hgu
      exact (mem_ids_iff env.cfg).mpr (.inr hmem)

/-- What the two loops of a sweep leave of a row they were not given. -/
theorem row_of_loops {v w : Shared} {quarantining handling : List WorkerStep} {p : Pending}
    (hquarantine : Runs (world env) (Prog.forEach (fun entry => do
      let _ ← quarantineAndAck env entry
      return ()) poison) u quarantining (.ok ()) v)
    (hhandle : Runs (world env) (handleAll env claimed) v handling (.ok ()) w)
    (hpoison : p.id ∉ poison.map StreamReader.PoisonEntry.message_id)
    (hclaimed : p.id ∉ claimed.map Message.id)
    (hp : u.group ≠ none → p ∈ u.staleAt env.cfg T) (hg : w.group ≠ none) :
    p ∈ w.staleAt env.cfg T := by
  refine row_of_runs hhandle ((calls_handleAll env claimed).mono ?_) (row_of_runs hquarantine
    ((calls_quarantineAll env poison).mono ?_) hp) hg
  · rintro c ⟨m, hm, hc⟩ htouch
    cases c with
    | xack id reason =>
      obtain rfl : id = m.id := hc
      exact hclaimed (htouch ▸ List.mem_map_of_mem hm)
    | _ => first | exact hc.elim | exact htouch.elim
  · rintro c ⟨entry, hentry, hc⟩ htouch
    cases c with
    | xack id reason =>
      obtain rfl : id = entry.message_id := hc.1
      exact hpoison (htouch ▸ List.mem_map_of_mem hentry)
    | _ => first | exact hc.elim | exact htouch.elim

theorem Call.OfSweep.ne_xreadgroup {c : Call} (h : c.OfSweep) :
    ∀ consumer, c ≠ .xreadgroup consumer := by
  rintro consumer rfl
  obtain h | h | ⟨id, h | h⟩ := h <;> exact h

theorem quiet_handleAll (ms : List Message) :
    (handleAll env ms).All fun c : Call => ∀ consumer, c ≠ .xreadgroup consumer := by
  refine (calls_handleAll env ms).mono ?_
  rintro c ⟨m, -, hc⟩
  exact Call.OfSweep.ne_xreadgroup (.inr (.inr ⟨m.id, .inl hc⟩))

theorem quiet_quarantineAll (poison : List StreamReader.PoisonEntry) :
    (Prog.forEach (fun entry => do
      let _ ← quarantineAndAck env entry
      return ()) poison).All fun c : Call => ∀ consumer, c ≠ .xreadgroup consumer := by
  refine (calls_quarantineAll env poison).mono ?_
  rintro c ⟨entry, -, hc⟩
  exact Call.OfSweep.ne_xreadgroup (.inr (.inr ⟨entry.message_id, .inr hc⟩))

/-- An id that was acknowledged in a sweep has no stale row at its end. -/
theorem not_stale_of_acked {a : WorkerStep} {id : StreamId} {reason : AckReason}
    (h : Runs (world env) (sweepPending env r.consumer last) r.before r.trace (.ok last') r.after)
    (ha : a ∈ r.trace) (hack : a.event = ⟨.xack id reason, .ok ()⟩)
    (hT : (T : ℤ) < r.before.now + env.cfg.pelMinIdleMs) :
    ∀ q ∈ r.after.staleAt env.cfg T, q.id ≠ id := by
  have hsweep := (calls_sweepPending env r.consumer last).mono fun c hc =>
    Call.OfSweep.ne_xreadgroup hc
  have hstart := start_le_of_mem h ha
  have hanswer := h.answered a ha
  obtain ⟨w, event, w'⟩ := a
  subst hack
  have hnow : w'.now = w.now := Answers.now_eq hanswer
  -- the clock has not reached the time at which a claimed row goes stale again
  refine (h.keeps_from (I := fun x => r.before.now ≤ x.now ∧
    ∀ q ∈ x.staleAt env.cfg T, q.id ≠ id) ha hsweep (fun x x' hd hx => ?_)
    (fun c x o x' hc hx' hx => ?_) ⟨hstart.trans hnow.ge, ?_⟩).2
  · exact ⟨hx.1.trans (Drift.effect hd).1, fun q hq => hx.2 q ((stale_of_drift hd).subset hq)⟩
  · have hwithin : (T : ℤ) < x.now + env.cfg.pelMinIdleMs := by
      have := hx.1
      omega
    exact ⟨hx.1.trans (Answers.now_eq hx').ge,
      fun q hq => hx.2 q ((stale_of_answer hx' hc hwithin).subset hq)⟩
  · exact not_stale_of_ack (Answers.executes hanswer)

/-- **One sweep.** The rows of its window are handed on and are not stale afterwards; the other
rows stay as they are, and none is stale that was not before. -/
theorem sweep_turn
    (h : Runs (world env) (sweepPending env r.consumer last) r.before r.trace (.ok last') r.after)
    (hanswered : r.Answered) (hsettled : r.Settled env.cfg) (hbacked : r.Backed)
    (hle : r.after.now ≤ T) (hT : (T : ℤ) < r.before.now + env.cfg.pelMinIdleMs) :
    ∃ g now, r.before.group = some g ∧ r.before.now ≤ now ∧ now ≤ T ∧
      (∀ p ∈ g.window env.cfg now, r.Hands env p.id) ∧
      (r.after.staleAt env.cfg T).Sublist ((r.before.staleAt env.cfg T).filter
        fun p => decide (p.id ∉ (g.window env.cfg now).map Pending.id)) ∧
      ∀ p ∈ r.before.staleAt env.cfg T, p.id ∉ (g.window env.cfg now).map Pending.id →
        r.after.group ≠ none → p ∈ r.after.staleAt env.cfg T := by
  obtain ⟨claimed, poison, hfound⟩ := found_of_runs h hanswered
  obtain ⟨claiming, quarantining, handling, u, v, htrace, hclaim, hquarantine, hhandle⟩ := hfound
  have hru := now_le_of_runs hclaim
  have huv := now_le_of_runs hquarantine
  have hvr := now_le_of_runs hhandle
  have hmem : ∀ e ∈ claiming, e ∈ r.trace := fun e he => by
    rw [htrace]
    exact List.mem_append_left _ he
  obtain ⟨g, now, infos, hg, hstart, hend, hids, htook⟩ := tookUp_of_runs hclaim
    (fun e he => hbacked e (hmem e he)) ((huv.trans hvr).trans hle) hT
  have hsplit : ∀ p : Pending, p.id ∈ (g.window env.cfg now).map Pending.id ↔
      p.id ∈ claimed.map Message.id ∨ p.id ∈ poison.map StreamReader.PoisonEntry.message_id := by
    intro p
    rw [← hids, mem_ids_iff env.cfg, htook.claimed, htook.poison, or_comm]
  have hsweep := (calls_sweepPending env r.consumer last).mono fun c hc =>
    Call.OfSweep.ne_xreadgroup hc
  refine ⟨g, now, hg, hstart, hend, fun p hp => ?_, ?_, fun p hp hid hgr => ?_⟩
  · exact ⟨claimed, poison, ⟨claiming, quarantining, handling, u, v, htrace, hclaim, hquarantine,
      hhandle⟩, (hsplit p).mp (List.mem_map_of_mem hp)⟩
  · -- nothing of the window is stale at the end
    have hgone : ∀ q ∈ r.after.staleAt env.cfg T,
        q.id ∉ (g.window env.cfg now).map Pending.id := by
      intro q hq hid
      rcases (hsplit q).mp hid with hid | hid
      · -- it was claimed, which made its row young
        have hTu : (T : ℤ) < u.now + env.cfg.pelMinIdleMs := by omega
        have hTv : (T : ℤ) < v.now + env.cfg.pelMinIdleMs := by omega
        have hshrink := (stale_of_runs hhandle (quiet_handleAll claimed) hTv).trans
          (stale_of_runs hquarantine (quiet_quarantineAll poison) hTu)
        exact htook.cleared q.id ((htook.claimed q.id).mp hid) q (hshrink.subset hq) rfl
      · -- it was quarantined and acknowledged
        rw [htook.poison] at hid
        obtain ⟨i, hi, hiq⟩ := List.mem_map.mp hid
        obtain ⟨e, he, hlisted⟩ := htook.listed
        obtain ⟨a, ha, hack⟩ := hsettled e (hmem e he) infos hlisted i hi
        rw [hiq] at hack
        exact not_stale_of_acked h ha hack hT q hq rfl
    have hself : (r.after.staleAt env.cfg T).filter
        (fun p => decide (p.id ∉ (g.window env.cfg now).map Pending.id)) =
          r.after.staleAt env.cfg T :=
      List.filter_eq_self.mpr fun q hq => decide_eq_true (hgone q hq)
    rw [← hself]
    exact (stale_of_runs h hsweep hT).filter _
  · have hnot := fun hmem => hid ((hsplit p).mpr hmem)
    rw [← hids] at hid
    exact row_of_loops hquarantine hhandle (fun hmem => hnot (.inr hmem))
      (fun hmem => hnot (.inl hmem)) (htook.kept p hp hid) hgr

end OneSweep

/-! ## Successive sweeps -/

/-- Sweeps that follow one another, each by any worker. -/
inductive Sweeps (env : Env) : List Sweep → Shared → Shared → Prop where
  | none (s : Shared) : Sweeps env [] s s
  | next {r : Sweep} {last last' : LastAttempt} {sweeps : List Sweep} {t : Shared}
      (swept : Runs (world env) (sweepPending env r.consumer last) r.before r.trace (.ok last')
        r.after)
      (later : Sweeps env sweeps r.after t) : Sweeps env (r :: sweeps) r.before t

section Successive

variable {env : Env} {sweeps : List Sweep} {s t : Shared} {T : ℕ} {p : Pending}

theorem Sweeps.now_le (h : Sweeps env sweeps s t) : s.now ≤ t.now := by
  induction h with
  | none s => exact le_refl _
  | next swept _ ih => exact (now_le_of_runs swept).trans ih

/-- With room for all of `l`, each row of it that is stale already gets its turn. While it waits,
every sweep takes a full window of `l` away. -/
theorem handed_of_room (h : Sweeps env sweeps s t) (hanswered : ∀ r ∈ sweeps, r.Answered)
    (hsettled : ∀ r ∈ sweeps, r.Settled env.cfg) (hbacked : ∀ r ∈ sweeps, r.Backed)
    (hle : t.now ≤ T) (hT : (T : ℤ) < s.now + env.cfg.pelMinIdleMs) {l : List Pending}
    (hroom : l.length ≤ sweeps.length * env.cfg.pelSweepBatch)
    (hsub : (s.staleAt env.cfg T).Sublist l) (hl : p ∈ l)
    (hp : s.group ≠ none → p ∈ s.staleAt env.cfg T)
    (hidle : Group.idle s.now env.cfg.pelMinIdleMs p = true) :
    ∃ r ∈ sweeps, r.Hands env p.id := by
  induction h generalizing l with
  | none s =>
    rw [List.length_nil, Nat.zero_mul, Nat.le_zero, List.length_eq_zero_iff] at hroom
    rw [hroom] at hl
    cases hl
  | @next r last last' sweeps t swept later ih =>
    have hnow := now_le_of_runs swept
    obtain ⟨g, now, hg, hstart, hend, hhands, hleft, hkept⟩ := sweep_turn swept
      (hanswered r List.mem_cons_self) (hsettled r List.mem_cons_self)
      (hbacked r List.mem_cons_self) (later.now_le.trans hle) hT
    have hps : p ∈ r.before.staleAt env.cfg T := hp (by rw [hg]; simp)
    by_cases hid : p.id ∈ (g.window env.cfg now).map Pending.id
    · obtain ⟨q, hq, hqp⟩ := List.mem_map.mp hid
      rw [← hqp]
      exact ⟨r, List.mem_cons_self, hhands q hq⟩
    · -- `p` is stale and not in the window, so the window is full
      have hfull : (g.window env.cfg now).length = env.cfg.pelSweepBatch := by
        refine length_take_of_notMem (a := p) ?_ fun hmem => hid (List.mem_map_of_mem hmem)
        rw [staleAt_some hg] at hps
        exact List.mem_filter.mpr ⟨List.mem_of_mem_filter hps, Group.idle_mono hstart hidle⟩
      have hwindow : (g.window env.cfg now).Sublist l := (window_sublist hg hend).trans hsub
      have hrest := length_filter_add_le (P := fun q =>
        decide (q.id ∉ (g.window env.cfg now).map Pending.id)) hwindow fun q hq =>
          decide_eq_false fun hnot => hnot (List.mem_map_of_mem hq)
      rw [hfull] at hrest
      rw [List.length_cons, Nat.succ_mul] at hroom
      obtain ⟨r', hr', hhanded⟩ := ih (fun r hr => hanswered r (List.mem_cons_of_mem _ hr))
        (fun r hr => hsettled r (List.mem_cons_of_mem _ hr))
        (fun r hr => hbacked r (List.mem_cons_of_mem _ hr)) hle (by omega) (by omega)
        (hleft.trans (hsub.filter _)) (List.mem_filter.mpr ⟨hl, decide_eq_true hid⟩)
        (hkept p hps hid) (Group.idle_mono hnow hidle)
      exact ⟨r', List.mem_cons_of_mem _ hr', hhanded⟩

/-- **Every stale entry gets its turn.** `⌈n / b⌉` sweeps within less than the idle time hand on
each of the `n` rows that are stale at the start, if no quarantine write fails, no entry that is
to be claimed has been trimmed, and rows that turn stale on the way fit into the windows too. -/
theorem stale_entries_handed (h : Sweeps env sweeps s t)
    (hcount : sweeps.length = (s.staleAt env.cfg s.now).length ⌈/⌉ env.cfg.pelSweepBatch)
    (hwithin : (t.now : ℤ) - s.now < env.cfg.pelMinIdleMs)
    (hanswered : ∀ r ∈ sweeps, r.Answered)
    (hsettled : ∀ r ∈ sweeps, r.Settled env.cfg) (hbacked : ∀ r ∈ sweeps, r.Backed)
    (hroom : (s.staleAt env.cfg t.now).length ≤
      (s.staleAt env.cfg s.now).length ⌈/⌉ env.cfg.pelSweepBatch * env.cfg.pelSweepBatch) :
    ∀ p ∈ s.staleAt env.cfg s.now, ∃ r ∈ sweeps, r.Hands env p.id := by
  intro p hp
  have hstale : p ∈ s.staleAt env.cfg t.now := by
    cases hg : s.group with
    | none =>
      rw [staleAt_none hg] at hp
      cases hp
    | some g =>
      rw [staleAt_some hg, List.mem_filter] at hp ⊢
      exact ⟨hp.1, Group.idle_mono h.now_le hp.2⟩
  have hidle : Group.idle s.now env.cfg.pelMinIdleMs p = true := by
    cases hg : s.group with
    | none =>
      rw [staleAt_none hg] at hp
      cases hp
    | some g =>
      rw [staleAt_some hg, List.mem_filter] at hp
      exact hp.2
  rw [← hcount] at hroom
  exact handed_of_room h hanswered hsettled hbacked (le_refl _) (by omega) hroom
    (List.Sublist.refl _) hstale (fun _ => hstale) hidle

/-- What a sweep hands on was listed. -/
theorem listed_of_hands {r : Sweep} {id : StreamId} (h : r.Hands env id) : Listed r.trace id := by
  obtain ⟨claimed, poison, ⟨claiming, _, _, u, _, htrace, hclaim, -, -⟩, hid⟩ := h
  suffices hlisted : Listed claiming id by
    obtain ⟨e, he, infos, hevent, hmem⟩ := hlisted
    rw [htrace]
    exact ⟨e, List.mem_append_left _ he, infos, hevent, hmem⟩
  cases reclaimed_of_runs hclaim with
  | @unclaimed s₁ s₂ _ infos _ _ drifted listed fetched none =>
    refine ⟨_, List.mem_cons_self, infos, rfl, (mem_ids_iff env.cfg).mpr (.inl ?_)⟩
    rw [← ids_of_fetchPoison fetched]
    exact hid.resolve_left (by simp)
  | @claimed s₁ s₂ s₃ s₄ _ infos _ _ _ drifted listed fetched some drifted' taken =>
    refine ⟨_, List.mem_cons_self, infos, rfl, (mem_ids_iff env.cfg).mpr ?_⟩
    rcases hid with hid | hid
    · right
      cases taken with
      | xclaim hg =>
        obtain ⟨m, hm, rfl⟩ := List.mem_map.mp hid
        exact Group.id_of_mem_claim hm
    · left
      rw [← ids_of_fetchPoison fetched]
      exact hid

end Successive

/-! ## Sweeps of one row -/

section OneRow

variable {env : Env} {s : Shared} {m : Message} {attempts : ℕ}

/-- A quarantine write that fails leaves everything as it is. -/
theorem runs_quarantine_fails (env : Env) (s : Shared) (entry : StreamReader.PoisonEntry) : ∃ trace,
    Runs (world env) (quarantineAndAck env entry) s trace (.ok false) s := by
  have hopen : (world env).answers .openSession s (.ok ()) s := Answers.done .openSession
  have hclose : (world env).answers .closeSession s (.ok ()) s := Answers.done .closeSession
  suffices hwrite : ∃ trace e, Runs (world env)
      (QuarantineSink.write env entry.message_id entry.fields entry.delivery_attempts) s trace
        (.error e) s by
    obtain ⟨trace, e, hwrite⟩ := hwrite
    have hprint : (world env).answers (.print (.quarantineFailed entry.message_id e)) s (.ok ()) s :=
      Answers.done .print
    have htried : Runs (world env) (tryWrite (QuarantineSink.write env entry.message_id
        entry.fields entry.delivery_attempts) (.quarantineFailed entry.message_id)) s _ (.ok false) s :=
      .bind hwrite.attempt (.bind (.perform hprint) (.ret _ _))
    exact ⟨_, .bind (.perform hopen) (.bind (.ensuring htried (.perform hclose)) (.ret _ _))⟩
  unfold QuarantineSink.write
  cases hrow : quarantineRecord env entry.message_id.text entry.fields entry.delivery_attempts with
  | error e =>
    rw [Prog.ofExcept_error, Prog.raise_bind]
    exact ⟨[], e, Runs.raise (W := world env) e s⟩
  | ok row =>
    have hcommit : (world env).answers (.commitQuarantined entry.message_id row) s
        (.error .sqlAlchemyError) s := Answers.refused (.transport rfl)
    rw [Prog.ofExcept_ok, Prog.ret_bind]
    exact ⟨_, _, .bind_error (.bind (Runs.perform hcommit).attempt (.raise _ s))⟩

/-- A quarantine write that succeeds is acknowledged. -/
theorem runs_quarantineAndAck (s : Shared) (entry : StreamReader.PoisonEntry) {row : QuarantineRow}
    (hrow : quarantineRecord env entry.message_id.text entry.fields entry.delivery_attempts = .ok row)
    (hfits : row.Fits) (hfree : ∀ q ∈ s.quarantined, q.stream_message_id ≠ row.stream_message_id) :
    ∃ trace, Runs (world env) (quarantineAndAck env entry) s trace (.ok true)
        ({ s with quarantined := s.quarantined ++ [row] }.ack entry.message_id .quarantined) ∧
      ∃ a ∈ trace, a.event = ⟨.xack entry.message_id .quarantined, .ok ()⟩ := by
  let u : Shared := { s with quarantined := s.quarantined ++ [row] }
  have hopen : (world env).answers .openSession s (.ok ()) s := Answers.done .openSession
  have hclose : (world env).answers .closeSession u (.ok ()) u := Answers.done .closeSession
  have hcommit : (world env).answers (.commitQuarantined entry.message_id row) s (.ok ()) u :=
    Answers.done (.commitQuarantined hfits hfree)
  have halert : (world env).answers (.alert (poisonAlert entry.fields entry.delivery_attempts)) u
      (.ok ()) u := Answers.done .alert
  have hack : (world env).answers (.xack entry.message_id .quarantined) u (.ok ())
      (u.ack entry.message_id .quarantined) := Answers.done .xack
  have hprint : (world env).answers (.print (.poison entry.message_id entry.delivery_attempts))
      (u.ack entry.message_id .quarantined) (.ok ()) (u.ack entry.message_id .quarantined) :=
    Answers.done .print
  obtain ⟨writing, hwrite⟩ : ∃ writing, Runs (world env)
      (QuarantineSink.write env entry.message_id entry.fields entry.delivery_attempts) s writing
      (.ok true) u := by
    have hcommitted : Runs (world env) (QuarantineSink.commit entry.message_id row) s _ (.ok ()) u :=
      .bind (Runs.perform hcommit).attempt (.ret () u)
    unfold QuarantineSink.write
    rw [hrow, Prog.ofExcept_ok, Prog.ret_bind]
    exact ⟨_, .bind hcommitted (.bind (.perform halert) (.ret _ _))⟩
  have htried : Runs (world env) (tryWrite (QuarantineSink.write env entry.message_id
      entry.fields entry.delivery_attempts) (.quarantineFailed entry.message_id)) s _ (.ok true) u :=
    .bind hwrite.attempt (.ret _ _)
  refine ⟨_, .bind (.perform hopen) (.bind (.ensuring htried (.perform hclose))
    (.bind (.perform hack) (.bind (.perform hprint) (.ret _ _)))), ?_⟩
  exact ⟨_, List.mem_append_right _ (List.mem_append_right _ (List.mem_append_left _
    (List.mem_singleton.mpr rfl))), rfl⟩

/-- A payload that is missing is rejected. -/
theorem runs_handle_fails (env : Env) (s : Shared) {m : Message}
    (hm : m.fields.get "data" = none) : Runs (world env) (handleMessage env m) s
      [⟨s, ⟨.parse m.id (m.fields.get "data"), .error .typeError⟩, s⟩,
        ⟨s, ⟨.print (.parseFailed m.id .typeError), .ok ()⟩, s⟩] (.ok false) s := by
  have hparse : parseAuditEvent env [] Sample.utcnow (m.fields.get "data") = .error .typeError := by
    rw [hm]
    rfl
  have hanswer : (world env).answers (.parse m.id (m.fields.get "data")) s (.error .typeError) s :=
    Answers.refused (.rejected hparse)
  have hprint : (world env).answers (.print (.parseFailed m.id .typeError)) s (.ok ()) s :=
    Answers.done .print
  exact Runs.bind (Runs.perform hanswer).attempt (.bind (.perform hprint) (.ret _ _))

/-- `claim_stale` where the window is one poison row, whose entry may be gone. -/
theorem runs_claimStale_poison {g : Group} {id : StreamId} {range : List Message}
    (hg : s.group = some g)
    (hwindow : [⟨id, attempts⟩] =
      g.pendingRange s.now env.cfg.pelMinIdleMs env.cfg.pelSweepBatch)
    (hmax : env.cfg.pelMaxDeliveries ≤ attempts)
    (hrange : s.stream.filter (fun m' => m'.id = id) = range) (consumer : Str) :
    Runs (world env) (StreamReader.claimStale env.cfg consumer) s
      [⟨s, ⟨.xpendingRange, .ok [⟨id, attempts⟩]⟩, { s with condemned := s.condemned ++ [id] }⟩,
        ⟨{ s with condemned := s.condemned ++ [id] }, ⟨.xrange id, .ok range⟩,
          { s with condemned := s.condemned ++ [id] }⟩]
      (.ok ([], [⟨id, StreamReader.fieldsOfRange range, attempts⟩]))
      { s with condemned := s.condemned ++ [id] } := by
  have hlist : (world env).answers .xpendingRange s (.ok [⟨id, attempts⟩])
      { s with condemned := s.condemned ++ [id] } := by
    have hexec := Executes.xpendingRange hg hwindow
    have hpoison : poisonIds env.cfg [⟨id, attempts⟩] = [id] := by simp [poisonIds, hmax]
    rw [hpoison] at hexec
    exact Answers.done hexec
  have hfetch : (world env).answers (.xrange id) { s with condemned := s.condemned ++ [id] }
      (.ok range) { s with condemned := s.condemned ++ [id] } := by
    rw [← hrange]
    exact Answers.done .xrange
  have hnot : ¬((attempts : ℤ) < env.cfg.pelMaxDeliveries) := not_lt.mpr hmax
  unfold StreamReader.claimStale
  apply Runs.perform_bind .refl hlist
  simp only [List.isEmpty_cons, Bool.false_eq_true, if_false, List.filter_cons, List.filter_nil,
    hmax, hnot, decide_true, decide_false, if_true, List.isEmpty_nil]
  rw [StreamReader.fetchPoison, Prog.bind_assoc]
  exact .perform_bind .refl hfetch (.ret _ _)

/-- The two calls of `claim_stale` where the window is one poison row. -/
def poisonFetched (s : Shared) (id : StreamId) (range : List Message) (attempts : ℕ) :
    List WorkerStep :=
  [⟨s, ⟨.xpendingRange, .ok [⟨id, attempts⟩]⟩, { s with condemned := s.condemned ++ [id] }⟩,
    ⟨{ s with condemned := s.condemned ++ [id] }, ⟨.xrange id, .ok range⟩,
      { s with condemned := s.condemned ++ [id] }⟩]

/-- A sweep whose window is one poison row, whatever comes of its quarantine write. -/
theorem runs_sweep_poison {g : Group} {id : StreamId} {range : List Message} {t : Shared} {b : Bool}
    {quarantining : List WorkerStep} (hg : s.group = some g)
    (hwindow : [⟨id, attempts⟩] =
      g.pendingRange s.now env.cfg.pelMinIdleMs env.cfg.pelSweepBatch)
    (hmax : env.cfg.pelMaxDeliveries ≤ attempts)
    (hrange : s.stream.filter (fun m' => m'.id = id) = range)
    (hquarantine : Runs (world env)
      (quarantineAndAck env ⟨id, StreamReader.fieldsOfRange range, attempts⟩)
      { s with condemned := s.condemned ++ [id] } quarantining (.ok b) t)
    (consumer : Str) (last : LastAttempt) :
    Runs (world env) (sweepPending env consumer last) s
      (poisonFetched s id range attempts ++ quarantining) (.ok last) t := by
  have hclaim := runs_claimStale_poison hg hwindow hmax hrange consumer
  have hsweep : Runs (world env) (sweepPending env consumer last) s _ (.ok last) t :=
    .bind hclaim.attempt (.bind (.bind (.bind hquarantine (.ret _ _)) (.ret _ _))
      (.bind (.ret _ _) (.ret _ _)))
  simpa only [List.append_nil, poisonFetched] using hsweep

/-- In such a sweep nothing else is listed, and nothing is claimed. -/
theorem event_of_poisonFetched (s : Shared) (range : List Message) (attempts : ℕ) {id : StreamId}
    {quarantining : List WorkerStep} (hcalls : ∀ e ∈ quarantining, e.event.1.Quarantines id) :
    ∀ e ∈ poisonFetched s id range attempts ++ quarantining,
      e.event = ⟨.xpendingRange, .ok [⟨id, attempts⟩]⟩ ∨ e.event = ⟨.xrange id, .ok range⟩ ∨
        ¬e.event.1.Reclaims := by
  intro e he
  rcases List.mem_append.mp he with he | he
  · simp only [poisonFetched, List.mem_cons, List.not_mem_nil, or_false] at he
    rcases he with rfl | rfl
    · exact .inl rfl
    · exact .inr (.inl rfl)
  · have hcall := hcalls e he
    right; right
    revert hcall
    cases e.event.1 <;> simp [Call.Reclaims, Call.Quarantines, Call.OfSession]

/-- Such a sweep meets the conditions on sweeps if its quarantine write did. -/
theorem conditions_poisonFetched {r : Sweep} {id : StreamId} {range : List Message}
    {quarantining : List WorkerStep} (cfg : AuditConfig)
    (htrace : r.trace = poisonFetched s id range attempts ++ quarantining)
    (hcalls : ∀ e ∈ quarantining, e.event.1.Quarantines id)
    (hack : ∃ a ∈ quarantining, a.event = ⟨.xack id .quarantined, .ok ()⟩) :
    r.Answered ∧ r.Settled cfg ∧ r.Backed := by
  have hevents := event_of_poisonFetched s range attempts hcalls
  rw [← htrace] at hevents
  refine ⟨fun e he hreclaims => ?_, fun e he infos hinfos i hi => ?_,
    fun e he consumer ids hclaim => ?_⟩
  · rcases hevents e he with hevent | hevent | hother
    · exact Entry.not_raised hevent
    · exact Entry.not_raised hevent
    · exact absurd hreclaims hother
  · rcases hevents e he with hevent | hevent | hother
    · rw [hevent] at hinfos
      cases hinfos
      obtain rfl := List.mem_singleton.mp (List.mem_of_mem_filter hi)
      obtain ⟨a, ha, hack⟩ := hack
      exact ⟨a, htrace ▸ List.mem_append_right _ ha, hack⟩
    · rw [hevent] at hinfos
      cases hinfos
    · rw [hinfos] at hother
      exact absurd trivial hother
  · rcases hevents e he with hevent | hevent | hother
    · rw [hevent] at hclaim
      cases hclaim
    · rw [hevent] at hclaim
      cases hclaim
    · rw [hclaim] at hother
      exact absurd trivial hother

/-- A sweep whose window is one poison row, with the quarantine write failing. -/
theorem runs_sweep_stuck {g : Group} (hg : s.group = some g)
    (hwindow : [⟨m.id, attempts⟩] =
      g.pendingRange s.now env.cfg.pelMinIdleMs env.cfg.pelSweepBatch)
    (hmax : env.cfg.pelMaxDeliveries ≤ attempts)
    (hm : s.stream.filter (fun m' => m'.id = m.id) = [m]) (consumer : Str) (last : LastAttempt) :
    ∃ trace, Runs (world env) (sweepPending env consumer last) s trace (.ok last)
        { s with condemned := s.condemned ++ [m.id] } ∧
      (∀ e ∈ trace, e.event.1.Reclaims → ¬e.Raised) ∧ ∀ id, Listed trace id → id = m.id := by
  obtain ⟨quarantining, hfails⟩ := runs_quarantine_fails env
    { s with condemned := s.condemned ++ [m.id] } ⟨m.id, m.fields, attempts⟩
  have hevents := event_of_poisonFetched s [m] attempts
    (hfails.all (calls_quarantineAndAck env ⟨m.id, m.fields, attempts⟩))
  refine ⟨_, runs_sweep_poison hg hwindow hmax hm hfails consumer last, fun e he hreclaims => ?_, ?_⟩
  · rcases hevents e he with hevent | hevent | hother
    · exact Entry.not_raised hevent
    · exact Entry.not_raised hevent
    · exact absurd hreclaims hother
  · rintro id ⟨e, he, infos, hevent, hid⟩
    rcases hevents e he with hevent' | hevent' | hother
    · rw [hevent'] at hevent
      cases hevent
      simpa using hid
    · rw [hevent'] at hevent
      cases hevent
    · rw [hevent] at hother
      exact absurd trivial hother

end OneRow

namespace Sample

/-- One entry at a time. -/
def narrow : Env := { env with cfg := { cfg with pelSweepBatch := 1 } }

/-- A poison entry, and behind it one that was delivered once. -/
def backlog : Shared :=
  { Shared.added [forged, named] with
    now := 30000
    group := some ⟨named.id, [⟨forged.id, str "worker-1", 0, 5⟩, ⟨named.id, str "worker-1", 0, 1⟩]⟩ }

/-- An entry without a payload. -/
def payloadless : Message := ⟨toLex (2, 0), []⟩

/-- An id at its delivery limit, whose entry was trimmed. -/
def worn : StreamId := toLex (1, 0)

/-- Both were read by a worker that is gone. -/
def left : Shared :=
  { Shared.added [payloadless] with
    now := 30000
    group := some ⟨payloadless.id, [⟨worn, str "worker-1", 0, 5⟩,
      ⟨payloadless.id, str "worker-1", 0, 1⟩]⟩ }

/-- The first of them was quarantined. -/
def relieved (row : QuarantineRow) : Shared :=
  { ({ left with condemned := [worn] } : Shared) with quarantined := [row] }.ack worn .quarantined

/-- Then another worker claimed the second one. -/
def taken (row : QuarantineRow) : Shared :=
  { relieved row with group := some (.held payloadless (str "worker-2") 30000 2) }

end Sample

/-- A sweep that claims the one entry that is left, and does not get it parsed. -/
def Sample.claimingSweep (row : QuarantineRow) : Sweep where
  consumer := str "worker-2"
  before := Sample.relieved row
  trace :=
    [⟨Sample.relieved row, ⟨.xpendingRange, .ok [⟨Sample.payloadless.id, 1⟩]⟩, Sample.relieved row⟩,
      ⟨Sample.relieved row, ⟨.xclaim (str "worker-2") [Sample.payloadless.id],
        .ok [Sample.payloadless]⟩, Sample.taken row⟩,
      ⟨Sample.taken row, ⟨.parse Sample.payloadless.id none, .error .typeError⟩, Sample.taken row⟩,
      ⟨Sample.taken row, ⟨.print (.parseFailed Sample.payloadless.id .typeError), .ok ()⟩,
        Sample.taken row⟩]
  after := Sample.taken row

theorem runs_claimingSweep (row : QuarantineRow) :
    Runs (world Sample.narrow) (sweepPending Sample.narrow (Sample.claimingSweep row).consumer none)
      (Sample.claimingSweep row).before (Sample.claimingSweep row).trace (.ok none)
      (Sample.claimingSweep row).after := by
  have hpassed : (0 : ℕ) + 30000 ≤ 30000 := by decide
  have hstale : Stale Sample.narrow (Sample.relieved row) Sample.payloadless 1 :=
    ⟨rfl, ⟨str "worker-1", 0, rfl, hpassed⟩, by decide, by decide⟩
  have hout : (Group.held Sample.payloadless (str "worker-1") 0 1).claim (Sample.relieved row).stream
      (Sample.relieved row).now Sample.narrow.cfg.pelMinIdleMs (str "worker-2")
        [Sample.payloadless.id] =
          (.held Sample.payloadless (str "worker-2") 30000 2, [Sample.payloadless]) :=
    claim_held hpassed _ _ _
  have hclaim := @runs_claimStale_one Sample.narrow Drift (str "worker-2") _ _ _ _ _ _ hstale
    (by decide) .refl rfl hout
  have hfails := runs_handle_fails Sample.narrow (Sample.taken row) (m := Sample.payloadless) rfl
  have hhandle : Runs (world Sample.narrow) (handleAll Sample.narrow [Sample.payloadless])
      (Sample.taken row) _ (.ok ()) (Sample.taken row) :=
    Runs.bind (f := fun _ => .ret ()) (Runs.bind (f := fun _ => .ret ()) hfails (.ret () _))
      (.ret () _)
  exact Runs.bind hclaim.attempt (Runs.bind (.ret _ _) (Runs.bind hhandle (.ret _ _)))

theorem conditions_claimingSweep (row : QuarantineRow) :
    (Sample.claimingSweep row).Answered ∧ (Sample.claimingSweep row).Settled Sample.narrow.cfg ∧
      (Sample.claimingSweep row).Backed := by
  refine ⟨?_, ?_, ?_⟩
  · simp only [Sweep.Answered, Sample.claimingSweep, List.forall_mem_cons]
    exact ⟨fun _ => Entry.not_raised rfl, fun _ => Entry.not_raised rfl, fun h => h.elim,
      fun h => h.elim, fun _ h => by cases h⟩
  · intro e he infos hevent i hi
    simp only [Sample.claimingSweep, List.mem_cons, List.not_mem_nil, or_false] at he
    rcases he with rfl | rfl | rfl | rfl <;> cases hevent
    simp [poisonOf, Sample.narrow, Sample.cfg] at hi
  · intro e he consumer ids hevent id hid
    simp only [Sample.claimingSweep, List.mem_cons, List.not_mem_nil, or_false] at he
    rcases he with rfl | rfl | rfl | rfl <;> cases hevent
    exact ⟨Sample.payloadless, List.mem_singleton.mpr rfl, (List.mem_singleton.mp hid).symm⟩

/-- The entry that was trimmed can be quarantined as an empty one. -/
theorem exists_wornRow : ∃ row,
    quarantineRecord Sample.narrow Sample.worn.text [] 5 = .ok row ∧ row.Fits := by
  have hok : (match quarantineRecord Sample.narrow Sample.worn.text [] 5 with
      | .ok row => decide row.Fits
      | .error _ => false) = true := by decide +kernel
  split at hok
  · next row hrow => exact ⟨row, hrow, of_decide_eq_true hok⟩
  · cases hok

/-- A sweep that finds the row of the trimmed entry, at its limit, and quarantines it. -/
def Sample.relievingSweep (row : QuarantineRow) (quarantining : List WorkerStep) : Sweep where
  consumer := str "worker-2"
  before := Sample.left
  trace := poisonFetched Sample.left Sample.worn [] 5 ++ quarantining
  after := Sample.relieved row

theorem runs_relievingSweep {row : QuarantineRow} {quarantining : List WorkerStep}
    (hquarantine : Runs (world Sample.narrow)
      (quarantineAndAck Sample.narrow ⟨Sample.worn, StreamReader.fieldsOfRange [], 5⟩)
      { Sample.left with condemned := Sample.left.condemned ++ [Sample.worn] } quarantining (.ok true)
      (Sample.relieved row)) :
    Runs (world Sample.narrow)
      (sweepPending Sample.narrow (Sample.relievingSweep row quarantining).consumer none)
      (Sample.relievingSweep row quarantining).before (Sample.relievingSweep row quarantining).trace
      (.ok none) (Sample.relievingSweep row quarantining).after := by
  have hwindow : [⟨Sample.worn, 5⟩] = Group.pendingRange ⟨Sample.payloadless.id,
      [⟨Sample.worn, str "worker-1", 0, 5⟩, ⟨Sample.payloadless.id, str "worker-1", 0, 1⟩]⟩ 30000
        Sample.narrow.cfg.pelMinIdleMs Sample.narrow.cfg.pelSweepBatch := rfl
  have hgone : Sample.left.stream.filter (fun m => m.id = Sample.worn) = [] := rfl
  exact runs_sweep_poison (s := Sample.left) rfl hwindow (by decide) hgone hquarantine _ _

/-- Two windows of one row: the first sweep quarantines the one that is at its limit, the second
one claims the other. That its payload is rejected makes no difference. -/
theorem stale_entries_handed_left : ∃ sweeps t, Sweeps Sample.narrow sweeps Sample.left t ∧
    sweeps.length = 2 ∧ (Sample.left.staleAt Sample.narrow.cfg Sample.left.now).length = 2 ∧
    ∀ p ∈ Sample.left.staleAt Sample.narrow.cfg Sample.left.now,
      ∃ r ∈ sweeps, r.Hands Sample.narrow p.id := by
  obtain ⟨row, hrow, hfits⟩ := exists_wornRow
  obtain ⟨quarantining, hquarantine, hack⟩ := runs_quarantineAndAck
    { Sample.left with condemned := Sample.left.condemned ++ [Sample.worn] }
    ⟨Sample.worn, StreamReader.fieldsOfRange [], 5⟩ hrow hfits (by rintro q ⟨⟩)
  have hsweeps : Sweeps Sample.narrow
      [Sample.relievingSweep row quarantining, Sample.claimingSweep row] Sample.left
      (Sample.taken row) :=
    .next (runs_relievingSweep hquarantine) (.next (runs_claimingSweep row) (.none _))
  obtain ⟨hanswered₁, hsettled₁, hbacked₁⟩ := conditions_poisonFetched
    (r := Sample.relievingSweep row quarantining) Sample.narrow.cfg rfl
    (hquarantine.all (calls_quarantineAndAck Sample.narrow ⟨Sample.worn, _, 5⟩)) hack
  obtain ⟨hanswered₂, hsettled₂, hbacked₂⟩ := conditions_claimingSweep row
  refine ⟨_, _, hsweeps, rfl, rfl, ?_⟩
  apply stale_entries_handed hsweeps
  · show 2 = (2 : ℕ) ⌈/⌉ 1
    decide
  · show (30000 : ℤ) - 30000 < 30000
    decide
  · simp only [List.forall_mem_cons]
    exact ⟨hanswered₁, hanswered₂, fun _ h => by cases h⟩
  · simp only [List.forall_mem_cons]
    exact ⟨hsettled₁, hsettled₂, fun _ h => by cases h⟩
  · simp only [List.forall_mem_cons]
    exact ⟨hbacked₁, hbacked₂, fun _ h => by cases h⟩
  · show 2 ≤ (2 : ℕ) ⌈/⌉ 1 * 1
    decide

/-- The quarantine write of the first row fails in both sweeps, and the second row, stale from
the start, never comes up. -/
theorem poison_row_starves : ∃ sweeps t, Sweeps Sample.narrow sweeps Sample.backlog t ∧
    sweeps.length = (Sample.backlog.staleAt Sample.narrow.cfg Sample.backlog.now).length ⌈/⌉
      Sample.narrow.cfg.pelSweepBatch ∧
    (t.now : ℤ) - Sample.backlog.now < Sample.narrow.cfg.pelMinIdleMs ∧
    (∀ r ∈ sweeps, r.Answered) ∧
    ∃ p ∈ Sample.backlog.staleAt Sample.narrow.cfg Sample.backlog.now,
      ∀ r ∈ sweeps, ¬r.Hands Sample.narrow p.id := by
  have hwindow : [⟨Sample.forged.id, 5⟩] = Group.pendingRange ⟨Sample.named.id,
      [⟨Sample.forged.id, str "worker-1", 0, 5⟩, ⟨Sample.named.id, str "worker-1", 0, 1⟩]⟩ 30000
        Sample.narrow.cfg.pelMinIdleMs Sample.narrow.cfg.pelSweepBatch := rfl
  have hentry : Sample.backlog.stream.filter (fun m => m.id = Sample.forged.id) =
      [Sample.forged] := rfl
  obtain ⟨trace₁, hrun₁, hanswered₁, hlisted₁⟩ := runs_sweep_stuck (s := Sample.backlog) rfl hwindow
    (by decide) hentry (str "worker-2") none
  obtain ⟨trace₂, hrun₂, hanswered₂, hlisted₂⟩ := runs_sweep_stuck
    (s := { Sample.backlog with condemned := Sample.backlog.condemned ++ [Sample.forged.id] }) rfl
    hwindow (by decide) hentry (str "worker-2") none
  have hne : Sample.named.id ≠ Sample.forged.id := by decide
  have hstale : Sample.backlog.staleAt Sample.narrow.cfg Sample.backlog.now =
      [⟨Sample.forged.id, str "worker-1", 0, 5⟩, ⟨Sample.named.id, str "worker-1", 0, 1⟩] := rfl
  rw [hstale]
  refine ⟨[⟨str "worker-2", _, trace₁, _⟩, ⟨str "worker-2", _, trace₂, _⟩], _,
    .next hrun₁ (.next hrun₂ (.none _)), ?_, ?_, ?_, ⟨Sample.named.id, str "worker-1", 0, 1⟩,
    List.mem_cons_of_mem _ List.mem_cons_self, ?_⟩
  · show 2 = (2 : ℕ) ⌈/⌉ 1
    decide
  · show (30000 : ℤ) - 30000 < 30000
    decide
  · simp only [List.forall_mem_cons]
    exact ⟨hanswered₁, hanswered₂, fun _ h => by cases h⟩
  · simp only [List.forall_mem_cons]
    exact ⟨fun h => hne (hlisted₁ _ (listed_of_hands h)),
      fun h => hne (hlisted₂ _ (listed_of_hands h)), fun _ h => by cases h⟩

end SecurityAudit
