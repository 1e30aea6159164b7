import SecurityAudit.Prog.Observed
import SecurityAudit.Worker.Footprint
import SecurityAudit.Worker.Scenarios

/-!
# Reclaiming stale entries

`claim_stale` makes its three kinds of calls at different times. Between them the state may
change in any way at all: here `others` is an arbitrary relation, for time, producers, trimming
and other workers together. `Reclaimed` is what a run of it that returned consists of. An id it
listed may go unaccounted for in one way that is its own doing: `XCLAIM` drops an id whose entry
is gone, idle or not, and `claim_stale` has no record of the ids it named.
-/

namespace SecurityAudit

namespace Group

variable {g : Group} {stream : List Message} {now : ℕ} {minIdle : ℤ} {consumer : Str}
  {acc : Group × List Message} {id id' : StreamId} {ids : List StreamId}

/-- `id` is pending. -/
def Lists (g : Group) (id : StreamId) : Prop := ∃ p ∈ g.pel, p.id = id

/-- `id` is pending and has been idle for long enough. -/
def Overdue (g : Group) (now : ℕ) (minIdle : ℤ) (id : StreamId) : Prop :=
  ∃ p ∈ g.pel, p.id = id ∧ idle now minIdle p = true

/-- The entry is still in the stream. -/
def HasBody (stream : List Message) (id : StreamId) : Prop := ∃ m ∈ stream, m.id = id

/-! ## One id of an `XCLAIM` -/

/-- The row of `id` taken out. -/
def drop (g : Group) (id : StreamId) : Group := { g with pel := g.pel.filter fun p => p.id ≠ id }

/-- The row of `id` handed to `consumer`. -/
def reassign (g : Group) (now : ℕ) (consumer : Str) (id : StreamId) : Group :=
  { g with pel := g.pel.map fun p =>
      if p.id = id then ⟨id, consumer, now, p.deliveries + 1⟩ else p }

/-- All that `XCLAIM` of one id can do. -/
theorem claimOne_cases (stream : List Message) (now : ℕ) (minIdle : ℤ) (consumer : Str)
    (acc : Group × List Message) (id : StreamId) :
    ((HasBody stream id ∧ ¬acc.1.Overdue now minIdle id) ∧
      claimOne stream now minIdle consumer acc id = acc) ∨
    (¬HasBody stream id ∧
      claimOne stream now minIdle consumer acc id = (acc.1.drop id, acc.2)) ∨
    (acc.1.Overdue now minIdle id ∧ ∃ m ∈ stream, m.id = id ∧
      claimOne stream now minIdle consumer acc id =
        (acc.1.reassign now consumer id, acc.2 ++ [m])) := by
  obtain ⟨g, claimed⟩ := acc
  unfold claimOne
  dsimp only
  cases hfind : stream.find? fun m => m.id = id with
  | none =>
    right; left
    refine ⟨?_, rfl⟩
    rintro ⟨m, hm, hid⟩
    have := List.find?_eq_none.mp hfind m hm
    exact this (by simpa using hid)
  | some m =>
    have hid : m.id = id := by simpa using List.find?_some hfind
    have hm : m ∈ stream := List.mem_of_find?_eq_some hfind
    dsimp only
    by_cases hdue : ∃ p ∈ g.pel, p.id = id ∧ idle now minIdle p = true
    · rw [if_pos hdue]
      exact .inr (.inr ⟨hdue, m, hm, hid, rfl⟩)
    · rw [if_neg hdue]
      exact .inl ⟨⟨⟨m, hm, hid⟩, hdue⟩, rfl⟩

theorem lists_drop : (g.drop id').Lists id ↔ g.Lists id ∧ id ≠ id' := by
  simp only [Lists, drop, List.mem_filter, decide_eq_true_eq]
  constructor
  · rintro ⟨p, ⟨hp, hne⟩, rfl⟩
    exact ⟨⟨p, hp, rfl⟩, hne⟩
  · rintro ⟨⟨p, hp, rfl⟩, hne⟩
    exact ⟨p, ⟨hp, hne⟩, rfl⟩

theorem lists_reassign : (g.reassign now consumer id').Lists id ↔ g.Lists id := by
  simp only [Lists, reassign, List.mem_map]
  constructor
  · rintro ⟨_, ⟨p, hp, rfl⟩, hid⟩
    by_cases hpid : p.id = id'
    · rw [if_pos hpid] at hid
      exact ⟨p, hp, hpid.trans hid⟩
    · rw [if_neg hpid] at hid
      exact ⟨p, hp, hid⟩
  · rintro ⟨p, hp, hid⟩
    refine ⟨_, ⟨p, hp, rfl⟩, ?_⟩
    by_cases hpid : p.id = id'
    · rw [if_pos hpid]
      exact hpid.symm.trans hid
    · rw [if_neg hpid]
      exact hid

/-- Claiming one id leaves the rows of the others as they are. -/
theorem mem_claimOne_of_ne {p : Pending} (hne : p.id ≠ id') :
    p ∈ (claimOne stream now minIdle consumer acc id').1.pel ↔ p ∈ acc.1.pel := by
  obtain ⟨-, h⟩ | ⟨-, h⟩ | ⟨-, m, -, -, h⟩ :=
    claimOne_cases stream now minIdle consumer acc id' <;> rw [h]
  · simp only [drop, List.mem_filter, decide_eq_true_eq, and_iff_left_iff_imp]
    exact fun _ => hne
  · simp only [reassign, List.mem_map]
    constructor
    · rintro ⟨q, hq, rfl⟩
      by_cases hqid : q.id = id'
      · rw [if_pos hqid] at hne
        exact absurd rfl hne
      · rw [if_neg hqid]
        exact hq
    · exact fun hp => ⟨p, hp, if_neg hne⟩

theorem overdue_claimOne_of_ne (hne : id ≠ id') :
    (claimOne stream now minIdle consumer acc id').1.Overdue now minIdle id ↔
      acc.1.Overdue now minIdle id := by
  unfold Overdue
  refine exists_congr fun p => ?_
  constructor
  · rintro ⟨hp, rfl, hidle⟩
    exact ⟨(mem_claimOne_of_ne hne).mp hp, rfl, hidle⟩
  · rintro ⟨hp, rfl, hidle⟩
    exact ⟨(mem_claimOne_of_ne hne).mpr hp, rfl, hidle⟩

/-! ## The whole `XCLAIM` -/

/-- `id` is among the claimed entries or still pending. -/
def Accounted (acc : Group × List Message) (id : StreamId) : Prop :=
  id ∈ acc.2.map Message.id ∨ acc.1.Lists id

/-- Claiming one id loses it exactly if its entry is gone. -/
theorem accounted_claimOne (hstream : ∀ m ∈ acc.2, m ∈ stream) :
    Accounted (claimOne stream now minIdle consumer acc id') id ↔
      Accounted acc id ∧ (id' = id → HasBody stream id) := by
  obtain ⟨⟨hbody, -⟩, h⟩ | ⟨hbody, h⟩ | ⟨hdue, m, hm, hmid, h⟩ :=
    claimOne_cases stream now minIdle consumer acc id' <;> rw [h]
  · refine (and_iff_left ?_).symm
    rintro rfl
    exact hbody
  · unfold Accounted
    dsimp only
    rw [lists_drop]
    by_cases hid : id' = id
    · subst hid
      -- what is claimed has an entry, so an id without one is not claimed
      have hclaimed : id' ∉ acc.2.map Message.id := by
        intro hmem
        obtain ⟨m, hm, hmid⟩ := List.mem_map.mp hmem
        exact hbody ⟨m, hstream m hm, hmid⟩
      constructor
      · rintro (hmem | ⟨-, hne⟩)
        · exact absurd hmem hclaimed
        · exact absurd rfl hne
      · rintro ⟨-, himp⟩
        exact absurd (himp rfl) hbody
    · have hne : id ≠ id' := fun heq => hid heq.symm
      simp only [hid, hne, ne_eq, not_false_eq_true, and_true, false_implies]
  · unfold Accounted
    dsimp only
    rw [lists_reassign, List.map_append, List.mem_append]
    by_cases hid : id' = id
    · subst hid
      have hlists : acc.1.Lists id' := by
        obtain ⟨p, hp, hpid, -⟩ := hdue
        exact ⟨p, hp, hpid⟩
      exact ⟨fun _ => ⟨.inr hlists, fun _ => ⟨m, hm, hmid⟩⟩, fun hacc => hacc.1.imp .inl fun h => h⟩
    · have hne : id ∉ [m].map Message.id := by
        rw [List.map_singleton, List.mem_singleton, hmid]
        exact fun heq => hid heq.symm
      simp only [hid, hne, or_false, false_implies, and_true]

theorem mem_claimOne (hstream : ∀ m ∈ acc.2, m ∈ stream) :
    ∀ m ∈ (claimOne stream now minIdle consumer acc id').2, m ∈ stream := by
  obtain ⟨-, h⟩ | ⟨-, h⟩ | ⟨-, m, hm, -, h⟩ :=
    claimOne_cases stream now minIdle consumer acc id' <;> rw [h]
  · exact hstream
  · exact hstream
  · intro m' hm'
    rcases List.mem_append.mp hm' with hm' | hm'
    · exact hstream m' hm'
    · rw [List.mem_singleton.mp hm']
      exact hm

/-- **What `XCLAIM` accounts for.** After it an id is claimed or pending exactly if it was
pending before and, where it was named, its entry is still in the stream. -/
theorem accounted_claim (g : Group) (stream : List Message) (now : ℕ) (minIdle : ℤ)
    (consumer : Str) (ids : List StreamId) (id : StreamId) :
    Accounted (g.claim stream now minIdle consumer ids) id ↔
      g.Lists id ∧ (id ∈ ids → HasBody stream id) := by
  suffices H : ∀ acc : Group × List Message, (∀ m ∈ acc.2, m ∈ stream) →
      (Accounted (ids.foldl (claimOne stream now minIdle consumer) acc) id ↔
        Accounted acc id ∧ (id ∈ ids → HasBody stream id)) by
    have hstart : Accounted (g, []) id ↔ g.Lists id := by simp [Accounted]
    rw [← hstart]
    exact H (g, []) (by simp)
  induction ids with
  | nil => simp
  | cons id' ids ih =>
    intro acc hstream
    rw [List.foldl_cons, ih _ (mem_claimOne hstream), accounted_claimOne hstream, and_assoc,
      List.mem_cons, or_imp, eq_comm]

end Group

/-! ## A run of `claim_stale` -/

/-- The calls of one worker, with anything in `others` happening in between. -/
def among (env : Env) (others : Shared → Shared → Prop) : World workerSig Shared where
  answers := Answers env
  drift := others

/-- An answered call of a worker. -/
abbrev WorkerStep : Type := Entry workerSig Shared

/-- The rows of an `XPENDING` reply that are at or above the delivery limit. -/
def poisonOf (cfg : AuditConfig) (infos : List PendingInfo) : List PendingInfo :=
  infos.filter fun e => decide (cfg.pelMaxDeliveries ≤ e.times_delivered)

/-- The rows below it. -/
def reclaimableOf (cfg : AuditConfig) (infos : List PendingInfo) : List PendingInfo :=
  infos.filter fun e => decide ((e.times_delivered : ℤ) < cfg.pelMaxDeliveries)

section ClaimStale

variable {env : Env} {others : Shared → Shared → Prop} {consumer : Str} {s t : Shared}
  {trace : List WorkerStep} {claimed : List Message} {poison : List StreamReader.PoisonEntry}

theorem Answers.executes {c : Call} {v : c.Reply} (h : Answers env c s (.ok v) t) :
    Executes env c s v t := by
  cases h with
  | done h => exact h

/-- A listed row is poison or reclaimable. -/
theorem mem_poisonOf_or_reclaimableOf (cfg : AuditConfig) {infos : List PendingInfo}
    {e : PendingInfo} (h : e ∈ infos) : e ∈ poisonOf cfg infos ∨ e ∈ reclaimableOf cfg infos := by
  simp only [poisonOf, reclaimableOf, List.mem_filter, decide_eq_true_eq]
  by_cases hle : cfg.pelMaxDeliveries ≤ e.times_delivered
  · exact .inl ⟨h, hle⟩
  · exact .inr ⟨h, by omega⟩

/-- What a run of `claim_stale` consists of that returned. -/
inductive Reclaimed (env : Env) (others : Shared → Shared → Prop) (consumer : Str) (s : Shared) :
    List WorkerStep → List Message → List StreamReader.PoisonEntry → Shared → Prop where
  | unclaimed {s₁ s₂ t : Shared} {infos : List PendingInfo} {fetches : List WorkerStep}
      {poison : List StreamReader.PoisonEntry}
      (drifted : Relation.ReflTransGen others s s₁)
      (listed : Executes env .xpendingRange s₁ infos s₂)
      (fetched : Runs (among env others) (StreamReader.fetchPoison (poisonOf env.cfg infos)) s₂
        fetches (.ok poison) t)
      (none : reclaimableOf env.cfg infos = []) :
      Reclaimed env others consumer s (⟨s₁, ⟨.xpendingRange, .ok infos⟩, s₂⟩ :: fetches) [] poison t
  | claimed {s₁ s₂ s₃ s₄ t : Shared} {infos : List PendingInfo} {fetches : List WorkerStep}
      {poison : List StreamReader.PoisonEntry} {claimed : List Message}
      (drifted : Relation.ReflTransGen others s s₁)
      (listed : Executes env .xpendingRange s₁ infos s₂)
      (fetched : Runs (among env others) (StreamReader.fetchPoison (poisonOf env.cfg infos)) s₂
        fetches (.ok poison) s₃)
      (some : reclaimableOf env.cfg infos ≠ [])
      (drifted' : Relation.ReflTransGen others s₃ s₄)
      (taken : Executes env (.xclaim consumer ((reclaimableOf env.cfg infos).map
        PendingInfo.message_id)) s₄ claimed t) :
      Reclaimed env others consumer s (⟨s₁, ⟨.xpendingRange, .ok infos⟩, s₂⟩ :: (fetches ++
        [⟨s₄, ⟨.xclaim consumer ((reclaimableOf env.cfg infos).map PendingInfo.message_id),
          .ok claimed⟩, t⟩])) claimed poison t

theorem reclaimed_of_runs (h : Runs (among env others) (StreamReader.claimStale env.cfg consumer) s
    trace (.ok (claimed, poison)) t) : Reclaimed env others consumer s trace claimed poison t := by
  unfold StreamReader.claimStale at h
  obtain ⟨_, hnone, -⟩ | ⟨infos, first, rest, u, rfl, hlist, h₁⟩ := h.of_bind
  · cases hnone
  obtain ⟨s₁, hdrift, hanswer, rfl⟩ := hlist.of_perform
  have hexec : Executes env .xpendingRange s₁ infos u := Answers.executes hanswer
  by_cases hempty : infos.isEmpty = true
  · rw [if_pos hempty] at h₁
    obtain ⟨rfl, hout, rfl⟩ := h₁.of_ret
    cases hout
    obtain rfl := List.isEmpty_iff.mp hempty
    exact .unclaimed hdrift hexec (.ret _ _) rfl
  · rw [if_neg hempty] at h₁
    obtain ⟨_, hnone, -⟩ | ⟨entries, fetches, last, v, rfl, hfetch, h₂⟩ := h₁.of_bind
    · cases hnone
    by_cases hno : (infos.filter fun e =>
        decide ((e.times_delivered : ℤ) < env.cfg.pelMaxDeliveries)).isEmpty = true
    · -- with nothing to reclaim there is no `XCLAIM`
      rw [if_pos hno] at h₂
      obtain ⟨rfl, hout, rfl⟩ := h₂.of_ret
      cases hout
      rw [List.append_nil]
      exact .unclaimed hdrift hexec hfetch (List.isEmpty_iff.mp hno)
    · rw [if_neg hno] at h₂
      obtain ⟨_, hnone, -⟩ | ⟨taken, calls, nothing, w, rfl, hclaim, h₃⟩ := h₂.of_bind
      · cases hnone
      obtain ⟨s₄, hdrift', hanswer', rfl⟩ := hclaim.of_perform
      obtain ⟨rfl, hout, rfl⟩ := h₃.of_ret
      cases hout
      rw [List.append_nil]
      have hsome : reclaimableOf env.cfg infos ≠ [] := fun heq => hno (List.isEmpty_iff.mpr heq)
      exact .claimed hdrift hexec hfetch hsome hdrift' (Answers.executes hanswer')

/-- Each poison row is fetched. -/
theorem ids_of_fetchPoison {rows : List PendingInfo} {o : List StreamReader.PoisonEntry}
    (h : Runs (among env others) (StreamReader.fetchPoison rows) s trace (.ok o) t) :
    o.map StreamReader.PoisonEntry.message_id = rows.map PendingInfo.message_id := by
  induction rows generalizing s t trace o with
  | nil =>
    obtain ⟨-, hout, -⟩ := h.of_ret
    cases hout
    rfl
  | cons row rows ih =>
    obtain ⟨_, hnone, -⟩ | ⟨range, first, rest, u, -, -, h₁⟩ := h.of_bind
    · cases hnone
    obtain ⟨_, hnone, -⟩ | ⟨entries, first', rest', v, -, hrest, h₂⟩ := h₁.of_bind
    · cases hnone
    obtain ⟨-, hout, -⟩ := h₂.of_ret
    cases hout
    rw [List.map_cons, List.map_cons, ih hrest]

/-! ## Every listed id -/

/-- An `XPENDING` of the run listed `id`. -/
def Listed (trace : List WorkerStep) (id : StreamId) : Prop :=
  ∃ e ∈ trace, ∃ infos : List PendingInfo, e.event = ⟨.xpendingRange, .ok infos⟩ ∧
    id ∈ infos.map PendingInfo.message_id

/-- `id` is pending in the group. -/
def Shared.Pends (s : Shared) (id : StreamId) : Prop := ∃ g ∈ s.group, g.Lists id

/-- If the call is an `XCLAIM`, each id it names is still pending and its entry is still in the
stream. -/
def NamesHeld (e : WorkerStep) : Prop :=
  ∀ consumer ids, e.event.1 = .xclaim consumer ids → ∀ id ∈ ids,
    e.before.Pends id ∧ Group.HasBody e.before.stream id

theorem listed_cons_iff {s₁ s₂ : Shared} {infos : List PendingInfo} {rest : List WorkerStep}
    {id : StreamId} (hrest : ∀ e ∈ rest, e.event.1 ≠ .xpendingRange) :
    Listed (⟨s₁, ⟨.xpendingRange, .ok infos⟩, s₂⟩ :: rest) id ↔
      id ∈ infos.map PendingInfo.message_id := by
  constructor
  · rintro ⟨e, he, infos', hevent, hid⟩
    rcases List.mem_cons.mp he with rfl | he
    · cases hevent
      exact hid
    · exact absurd (by rw [hevent]) (hrest e he)
  · exact fun hid => ⟨_, List.mem_cons_self, infos, rfl, hid⟩

theorem fetches_ne {rows : List PendingInfo} {fetches : List WorkerStep}
    {o : Except Exc (List StreamReader.PoisonEntry)}
    (h : Runs (among env others) (StreamReader.fetchPoison rows) s fetches o t) :
    ∀ e ∈ fetches, ∃ id, e.event.1 = .xrange id :=
  h.all (calls_fetchPoison rows)

theorem mem_ids_iff (cfg : AuditConfig) {infos : List PendingInfo} {id : StreamId} :
    id ∈ infos.map PendingInfo.message_id ↔
      id ∈ (poisonOf cfg infos).map PendingInfo.message_id ∨
        id ∈ (reclaimableOf cfg infos).map PendingInfo.message_id := by
  constructor
  · intro h
    obtain ⟨e, he, rfl⟩ := List.mem_map.mp h
    exact (mem_poisonOf_or_reclaimableOf cfg he).imp List.mem_map_of_mem List.mem_map_of_mem
  · rintro (h | h)
    · exact (List.filter_sublist.map _).subset h
    · exact (List.filter_sublist.map _).subset h

/-- No id is both. -/
theorem notMem_poisonOf (cfg : AuditConfig) {infos : List PendingInfo} {id : StreamId}
    (hnodup : (infos.map PendingInfo.message_id).Nodup)
    (h : id ∈ (reclaimableOf cfg infos).map PendingInfo.message_id) :
    id ∉ (poisonOf cfg infos).map PendingInfo.message_id := by
  intro h'
  obtain ⟨e, he, hid⟩ := List.mem_map.mp h
  obtain ⟨e', he', hid'⟩ := List.mem_map.mp h'
  simp only [reclaimableOf, poisonOf, List.mem_filter, decide_eq_true_eq] at he he'
  obtain rfl := List.inj_on_of_nodup_map hnodup he.1 he'.1 (hid.trans hid'.symm)
  omega

theorem nodup_of_listed {s₁ s₂ : Shared} {infos : List PendingInfo}
    (h : Executes env .xpendingRange s₁ infos s₂)
    (hpel : ∀ g ∈ s₁.group, (g.pel.map Pending.id).Nodup) :
    (infos.map PendingInfo.message_id).Nodup := by
  cases h with
  | xpendingRange hg hinfos =>
    rw [hinfos, Group.pendingRange, List.map_map]
    exact (hpel _ hg).sublist (((List.take_sublist _ _).trans List.filter_sublist).map _)

/-- **Which stale entries `claim_stale` accounts for.** Whatever happens between its calls, each
id that `XPENDING` listed is claimed, or among the poison entries, or still pending, exactly if
at the moment of the `XCLAIM` each id it names is pending and has its entry in the stream. -/
theorem reclaim_accounts_iff
    (h : Runs (among env others) (StreamReader.claimStale env.cfg consumer) s trace
      (.ok (claimed, poison)) t)
    (hpel : ∀ e ∈ trace, ∀ g ∈ e.before.group, (g.pel.map Pending.id).Nodup) :
    (∀ id, Listed trace id → id ∈ claimed.map Message.id ∨
      id ∈ poison.map StreamReader.PoisonEntry.message_id ∨ t.Pends id) ↔
        ∀ e ∈ trace, NamesHeld e := by
  cases reclaimed_of_runs h with
  | @unclaimed s₁ s₂ _ infos fetches _ drifted listed fetched none =>
    have hfetches := fetches_ne fetched
    have hlisted : ∀ id, Listed (⟨s₁, ⟨.xpendingRange, .ok infos⟩, s₂⟩ :: fetches) id ↔
        id ∈ infos.map PendingInfo.message_id := fun id => listed_cons_iff fun e he heq => by
      obtain ⟨id', hevent⟩ := hfetches e he
      rw [hevent] at heq
      cases heq
    -- every listed row is poison, and there is no `XCLAIM`
    apply iff_of_true
    · intro id hid
      right; left
      rw [ids_of_fetchPoison fetched]
      rcases (mem_ids_iff env.cfg).mp ((hlisted id).mp hid) with hp | hr
      · exact hp
      · rw [none] at hr
        cases hr
    · intro e he consumer' ids hevent
      rcases List.mem_cons.mp he with rfl | he
      · cases hevent
      · obtain ⟨id', hevent'⟩ := hfetches e he
        rw [hevent'] at hevent
        cases hevent
  | @claimed s₁ s₂ s₃ s₄ _ infos fetches _ _ drifted listed fetched some drifted' taken =>
    have hfetches := fetches_ne fetched
    have hnodup := nodup_of_listed listed (hpel _ List.mem_cons_self)
    have hlisted : ∀ id, Listed (⟨s₁, ⟨.xpendingRange, .ok infos⟩, s₂⟩ :: (fetches ++
        [⟨s₄, ⟨.xclaim consumer ((reclaimableOf env.cfg infos).map PendingInfo.message_id),
          .ok claimed⟩, t⟩])) id ↔ id ∈ infos.map PendingInfo.message_id := by
      refine fun id => listed_cons_iff fun e he heq => ?_
      rcases List.mem_append.mp he with he | he
      · obtain ⟨id', hevent⟩ := hfetches e he
        rw [hevent] at heq
        cases heq
      · rw [List.mem_singleton.mp he] at heq
        cases heq
    cases taken with
    | @xclaim _ g _ _ hg =>
    -- after the `XCLAIM`, claimed or pending is what `XCLAIM` accounts for
    have hacc := fun id => Group.accounted_claim g s₄.stream s₄.now env.cfg.pelMinIdleMs consumer
      ((reclaimableOf env.cfg infos).map PendingInfo.message_id) id
    constructor
    · intro hall e he consumer' ids hevent id hid
      rcases List.mem_cons.mp he with rfl | he
      · cases hevent
      rcases List.mem_append.mp he with he | he
      · obtain ⟨id', hevent'⟩ := hfetches e he
        rw [hevent'] at hevent
        cases hevent
      obtain rfl := List.mem_singleton.mp he
      cases hevent
      have hsettled : Group.Accounted (g.claim s₄.stream s₄.now env.cfg.pelMinIdleMs consumer
          ((reclaimableOf env.cfg infos).map PendingInfo.message_id)) id := by
        rcases hall id ((hlisted id).mpr ((mem_ids_iff env.cfg).mpr (.inr hid))) with hc | hp | hq
        · exact .inl hc
        · rw [ids_of_fetchPoison fetched] at hp
          exact absurd hp (notMem_poisonOf env.cfg hnodup hid)
        · obtain ⟨g', hg', hlists⟩ := hq
          cases hg'
          exact .inr hlists
      obtain ⟨hlists, himp⟩ := (hacc id).mp hsettled
      exact ⟨⟨g, hg, hlists⟩, himp hid⟩
    · intro hheld id hid
      rcases (mem_ids_iff env.cfg).mp ((hlisted id).mp hid) with hp | hr
      · right; left
        rw [ids_of_fetchPoison fetched]
        exact hp
      · obtain ⟨⟨g', hg', hlists⟩, hbody⟩ := hheld _ (List.mem_cons_of_mem _
          (List.mem_append_right _ (List.mem_singleton.mpr rfl))) _ _ rfl id hr
        have hsame : g' = g := Option.some.inj (hg'.symm.trans hg)
        subst hsame
        rcases (hacc id).mpr ⟨hlists, fun _ => hbody⟩ with hc | hq
        · exact .inl hc
        · exact .inr (.inr ⟨_, rfl, hq⟩)

/-- `claim_stale` where one entry is stale; by the time of the `XCLAIM` the state is `u`. -/
theorem runs_claimStale_one {m : Message} {deliveries : ℕ} {u : Shared} {g : Group}
    {out : Group × List Message} (h : Stale env s m deliveries)
    (hlive : (deliveries : ℤ) < env.cfg.pelMaxDeliveries)
    (hdrift : Relation.ReflTransGen others s u) (hg : u.group = some g)
    (hout : g.claim u.stream u.now env.cfg.pelMinIdleMs consumer [m.id] = out) :
    Runs (among env others) (StreamReader.claimStale env.cfg consumer) s
      [⟨s, ⟨.xpendingRange, .ok [⟨m.id, deliveries⟩]⟩, s⟩,
        ⟨u, ⟨.xclaim consumer [m.id], .ok out.2⟩, { u with group := some out.1 }⟩]
      (.ok (out.2, [])) { u with group := some out.1 } := by
  obtain ⟨holder, deliveredAt, hheld, hidle⟩ := h.group
  have hinfos : [⟨m.id, deliveries⟩] = (Group.held m holder deliveredAt deliveries).pendingRange
      s.now env.cfg.pelMinIdleMs env.cfg.pelSweepBatch := by
    rw [← Int.toNat_of_nonneg h.minIdle, pendingRange_held hidle h.batch]
  have hnot : ¬(env.cfg.pelMaxDeliveries ≤ (deliveries : ℤ)) := not_le.mpr hlive
  have hlist := Executes.xpendingRange hheld hinfos
  have hsame : { s with condemned := s.condemned ++ poisonIds env.cfg [⟨m.id, deliveries⟩] } = s := by
    simp [poisonIds, hnot]
  rw [hsame] at hlist
  have hclaim : Executes env (.xclaim consumer [m.id]) u out.2 { u with group := some out.1 } := by
    rw [← hout]
    exact .xclaim hg
  have hlisted : (among env others).answers .xpendingRange s (.ok [⟨m.id, deliveries⟩]) s :=
    Answers.done hlist
  have hclaimed : (among env others).answers (.xclaim consumer [m.id]) u (.ok out.2)
      { u with group := some out.1 } := Answers.done hclaim
  unfold StreamReader.claimStale
  apply Runs.perform_bind .refl hlisted
  simp only [List.isEmpty_cons, Bool.false_eq_true, if_false, List.filter_cons, List.filter_nil,
    hlive, hnot, decide_true, decide_false, if_true, StreamReader.fetchPoison, Prog.pure_eq,
    Prog.ret_bind]
  have hids : ([⟨m.id, deliveries⟩].filter fun e : PendingInfo =>
      decide ((e.times_delivered : ℤ) < env.cfg.pelMaxDeliveries)).map PendingInfo.message_id =
        [m.id] := by simp [hlive]
  rw [← hids] at hclaimed ⊢
  exact Runs.perform_bind hdrift hclaimed (.ret _ _)

end ClaimStale

/-! ## A trimmed entry -/

namespace Sample

/-- The one entry was read by a worker that is gone, and has been idle for long enough. -/
def abandoned : Shared :=
  { Shared.added [named] with
    now := 30000
    group := some (.held named (str "worker-1") 0 1) }

theorem stale_abandoned : Stale env abandoned named 1 :=
  ⟨rfl, ⟨str "worker-1", 0, rfl, by decide⟩, by decide, by decide⟩

/-- Trimmed by a producer's `XADD`. -/
def trimmed : Shared := { abandoned with stream := [] }

theorem drift_trimmed : Drift abandoned trimmed := .trim (List.nil_sublist _)

end Sample

/-- Claiming the one pending entry, with nothing left in the stream. -/
theorem claim_held_trimmed {m : Message} {now deliveredAt deliveries : ℕ} {minIdle : ℤ}
    (consumer consumer' : Str) :
    (Group.held m consumer deliveredAt deliveries).claim [] now minIdle consumer' [m.id] =
      (⟨m.id, []⟩, []) := by
  simp [Group.claim, Group.claimOne, Group.held]

/-- The pending list of the one entry has one row in every state of these runs. -/
theorem pel_distinct_of_held {m : Message} {u : Shared} {consumer : Str} {deliveredAt deliveries : ℕ}
    (hu : u.group = some (.held m consumer deliveredAt deliveries)) :
    ∀ g ∈ u.group, (g.pel.map Pending.id).Nodup := by
  intro g hg
  obtain rfl : Group.held m consumer deliveredAt deliveries = g := Option.some.inj (hu.symm.trans hg)
  exact List.nodup_singleton _

/-- With its entry still there, the one listed id is claimed. -/
theorem reclaim_accounts_iff_held : ∃ trace t,
    Runs (among Sample.env Drift) (StreamReader.claimStale Sample.cfg (str "worker-2"))
      Sample.abandoned trace (.ok ([Sample.named], [])) t ∧ Listed trace Sample.named.id ∧
    ((∀ id, Listed trace id → id ∈ [Sample.named].map Message.id ∨
      id ∈ ([] : List StreamReader.PoisonEntry).map StreamReader.PoisonEntry.message_id ∨
        t.Pends id) ↔ ∀ e ∈ trace, NamesHeld e) := by
  have hout : (Group.held Sample.named (str "worker-1") 0 1).claim Sample.abandoned.stream
      Sample.abandoned.now Sample.cfg.pelMinIdleMs (str "worker-2") [Sample.named.id] =
        (.held Sample.named (str "worker-2") 30000 2, [Sample.named]) :=
    claim_held (by decide) _ _ _
  have hrun := @runs_claimStale_one Sample.env Drift (str "worker-2") _ _ _ _ _ _
    Sample.stale_abandoned (by decide) .refl rfl hout
  refine ⟨_, _, hrun, ⟨_, List.mem_cons_self, _, rfl, List.mem_cons_self⟩,
    reclaim_accounts_iff hrun ?_⟩
  simp only [List.forall_mem_cons]
  exact ⟨pel_distinct_of_held rfl, pel_distinct_of_held rfl, fun _ h => by cases h⟩

/-- The entry is trimmed between `XPENDING` and `XCLAIM`. Its id is listed, and afterwards it is
neither claimed nor poison nor pending. -/
theorem trimmed_entry_vanishes : ∃ trace t,
    Runs (among Sample.env Drift) (StreamReader.claimStale Sample.cfg (str "worker-2"))
      Sample.abandoned trace (.ok ([], [])) t ∧ Listed trace Sample.named.id ∧
    ¬(Sample.named.id ∈ ([] : List Message).map Message.id ∨
      Sample.named.id ∈ ([] : List StreamReader.PoisonEntry).map
        StreamReader.PoisonEntry.message_id ∨ t.Pends Sample.named.id) := by
  have hout : (Group.held Sample.named (str "worker-1") 0 1).claim Sample.trimmed.stream
      Sample.trimmed.now Sample.cfg.pelMinIdleMs (str "worker-2") [Sample.named.id] =
        (⟨Sample.named.id, []⟩, []) := claim_held_trimmed _ _
  have hrun := @runs_claimStale_one Sample.env Drift (str "worker-2") _ _ _ _ _ _
    Sample.stale_abandoned (by decide) (.single Sample.drift_trimmed) rfl hout
  refine ⟨_, _, hrun, ⟨_, List.mem_cons_self, _, rfl, List.mem_cons_self⟩, ?_⟩
  rintro (hmem | hmem | ⟨g, hg, p, hp, -⟩)
  · cases hmem
  · cases hmem
  · cases hg
    cases hp

end SecurityAudit
