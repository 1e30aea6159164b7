import SecurityAudit.Worker.Attempts
import SecurityAudit.Worker.Conservation
import SecurityAudit.Worker.Rules

/-!
# An acknowledged entry is done with

While the group lives, no reply names an entry that was acknowledged before: not a group read, for
the cursor is past it, and not the pending list or a claim, for its row is gone
(`acked_never_named`). It rests on one thing the workers do: what they acknowledge was delivered to
the group before.
-/

namespace SecurityAudit

/-- Among these messages. -/
def Among (id : StreamId) (ms : List Message) : Prop := ∃ m ∈ ms, m.id = id

/-- In one of these streams. -/
def InStreams (id : StreamId) (streams : List (Str × List Message)) : Prop :=
  ∃ stream ∈ streams, Among id stream.2

/-- In one of these rows. -/
def InRows (id : StreamId) (infos : List PendingInfo) : Prop :=
  ∃ info ∈ infos, info.message_id = id

/-- The reply names the entry. -/
def Call.Names (id : StreamId) : (c : Call) → workerSig.Answer c → Prop
  | .xreadgroup _, .ok streams => InStreams id streams
  | .xpendingRange, .ok infos => InRows id infos
  | .xclaim _ _, .ok claimed => Among id claimed
  | _, _ => False

namespace Group

variable {g : Group} {stream : List Message} {now : ℕ} {minIdle : ℤ} {consumer : Str}
  {id : StreamId} {ids : List StreamId}

/-- The group has come to the entry. -/
def Passed (g : Group) (id : StreamId) : Prop := id ≤ g.lastDelivered

/-- The group has come to the entry, and it is not pending any more. -/
def Settled (g : Group) (id : StreamId) : Prop := g.Passed id ∧ ¬g.Lists id

/-- The pending entries are delivered ones. -/
def Sane (g : Group) : Prop := ∀ p ∈ g.pel, g.Passed p.id

/-- `XCLAIM` adds no row. -/
theorem lists_of_claim (h : (g.claim stream now minIdle consumer ids).1.Lists id) : g.Lists id := by
  obtain ⟨p, hp, rfl⟩ := h
  have hsub := (claimed_claim g stream now minIdle consumer p.id ids).ids
  obtain ⟨p', hp', hid⟩ := List.mem_map.mp (hsub.subset (List.mem_map_of_mem hp))
  exact ⟨p', hp', hid⟩

/-- What was claimed was pending. -/
theorem lists_of_mem_claim {m : Message}
    (h : m ∈ (g.claim stream now minIdle consumer ids).2) : g.Lists m.id := by
  have hacc : Accounted (g.claim stream now minIdle consumer ids) m.id :=
    .inl (List.mem_map_of_mem h)
  exact ((accounted_claim g stream now minIdle consumer ids m.id).mp hacc).1

theorem lists_of_mem_pendingRange {count : ℕ} {info : PendingInfo}
    (h : info ∈ g.pendingRange now minIdle count) : g.Lists info.message_id := by
  obtain ⟨p, hp, rfl⟩ := List.mem_map.mp h
  exact ⟨p, List.mem_of_mem_filter (List.mem_of_mem_take hp), rfl⟩

/-- A group read never moves the cursor back. -/
theorem Passed.deliver (h : g.Passed id) (now : ℕ) (consumer : Str) :
    (g.deliver now consumer (g.newMessages stream)).Passed id := by
  show id ≤ ((g.newMessages stream).getLast?.map Message.id).getD g.lastDelivered
  cases hlast : (g.newMessages stream).getLast? with
  | none => exact h
  | some last => exact h.trans (lt_of_mem_newMessages (List.mem_of_getLast? hlast)).le

/-- What is read was not passed before. -/
theorem Passed.not_mem_newMessages (h : g.Passed id) :
    ∀ m ∈ g.newMessages stream, m.id ≠ id := by
  rintro m hm rfl
  exact absurd (lt_of_mem_newMessages hm) (not_lt.mpr h)

/-- What is read is passed afterwards. -/
theorem passed_of_mem_newMessages (hsorted : stream.Pairwise fun a b => a.id < b.id) {m : Message}
    (hm : m ∈ g.newMessages stream) (now : ℕ) (consumer : Str) :
    (g.deliver now consumer (g.newMessages stream)).Passed m.id := by
  have hpairwise : (g.newMessages stream).Pairwise fun a b => a.id < b.id :=
    hsorted.sublist ((List.take_sublist _ _).trans List.filter_sublist)
  show m.id ≤ ((g.newMessages stream).getLast?.map Message.id).getD g.lastDelivered
  obtain ⟨init, last, hsplit⟩ : ∃ init last, g.newMessages stream = init ++ [last] :=
    ⟨_, _, (List.dropLast_append_getLast (List.ne_nil_of_mem hm)).symm⟩
  rw [hsplit] at hm hpairwise ⊢
  rw [List.getLast?_concat]
  -- the last one that was read has the largest id
  rcases List.mem_append.mp hm with hm | hm
  · exact ((List.pairwise_append.mp hpairwise).2.2 m hm last (by simp)).le
  · rw [List.mem_singleton.mp hm]
    exact le_refl _

theorem Sane.deliver (h : g.Sane) (hsorted : stream.Pairwise fun a b => a.id < b.id) (now : ℕ)
    (consumer : Str) : (g.deliver now consumer (g.newMessages stream)).Sane := by
  intro p hp
  rcases List.mem_append.mp hp with hp | hp
  · exact (h p hp).deliver now consumer
  · obtain ⟨m, hm, rfl⟩ := List.mem_map.mp hp
    exact passed_of_mem_newMessages hsorted hm now consumer

theorem Settled.deliver (h : g.Settled id) (now : ℕ) (consumer : Str) :
    (g.deliver now consumer (g.newMessages stream)).Settled id := by
  refine ⟨h.1.deliver now consumer, ?_⟩
  rintro ⟨p, hp, hid⟩
  rcases List.mem_append.mp hp with hp | hp
  · exact h.2 ⟨p, hp, hid⟩
  · obtain ⟨m, hm, rfl⟩ := List.mem_map.mp hp
    exact h.1.not_mem_newMessages m hm hid

theorem Sane.claim (h : g.Sane) : (g.claim stream now minIdle consumer ids).1.Sane := by
  intro p hp
  obtain ⟨p', hp', hid⟩ := lists_of_claim ⟨p, hp, rfl⟩
  show p.id ≤ _
  rw [claim_lastDelivered, ← hid]
  exact h p' hp'

theorem Settled.claim (h : g.Settled id) :
    (g.claim stream now minIdle consumer ids).1.Settled id := by
  refine ⟨?_, fun hlists => h.2 (lists_of_claim hlists)⟩
  show id ≤ _
  rw [claim_lastDelivered]
  exact h.1

end Group

variable {env : Env} {s t : Shared} {id : StreamId}

/-- The group has come to the entry. -/
def Shared.Passed (s : Shared) (id : StreamId) : Prop := ∃ g, s.group = some g ∧ g.Passed id

/-- What was acknowledged is settled. -/
structure Shared.Orderly (s : Shared) : Prop where
  sorted : s.stream.Pairwise fun a b => a.id < b.id
  known : ∀ m ∈ s.stream, m ∈ s.history
  sane : ∀ g, s.group = some g → g.Sane
  settled : ∀ id, s.Acked id → ∃ g, s.group = some g ∧ g.Settled id

/-- The contract: only what the group has come to is acknowledged, and it does not go back. -/
def lifecycleContract : Contract workerSig Shared where
  inv := Shared.Orderly
  rely s t := ∀ id, s.Passed id → t.Passed id
  pre
    | .xack id _, s => s.Passed id
    | _, _ => True
  post c r s := ∀ id, Call.Names id c r → s.Passed id
  rely_refl _ _ h := h
  rely_trans h h' id hs := h' id (h id hs)

namespace Shared.Orderly

/-- A change of the group that only moves on. -/
theorem of_group (h : s.Orderly) {g g' : Group} (hg : s.group = some g) (hsane : g'.Sane)
    (hpassed : ∀ id, g.Passed id → g'.Passed id)
    (hsettled : ∀ id, g.Settled id → g'.Settled id) :
    ({ s with group := some g' } : Shared).Orderly ∧
      ∀ id, s.Passed id → ({ s with group := some g' } : Shared).Passed id := by
  refine ⟨⟨h.sorted, h.known, ?_, fun id hacked => ?_⟩, ?_⟩
  · rintro _ ⟨⟩
    exact hsane
  · obtain ⟨g₁, hg₁, hg₁settled⟩ := h.settled id hacked
    obtain rfl : g₁ = g := Option.some.inj (hg₁.symm.trans hg)
    exact ⟨g', rfl, hsettled id hg₁settled⟩
  · rintro id ⟨g₁, hg₁, hpass⟩
    obtain rfl : g₁ = g := Option.some.inj (hg₁.symm.trans hg)
    exact ⟨g', rfl, hpassed id hpass⟩

/-- A carried out call keeps the order of things, and what its reply names the group has come
to. -/
theorem executes (h : s.Orderly) {c : Call} (hpre : lifecycleContract.pre c s) {v : c.Reply}
    (hexec : Executes env c s v t) : t.Orderly ∧ (∀ id, s.Passed id → t.Passed id) ∧
      ∀ id, Call.Names id c (.ok v) → t.Passed id := by
  cases hexec with
  | xgroupCreate free =>
    -- before the group there is nothing acknowledged
    have hnone : ∀ id, ¬s.Acked id := by
      intro id hacked
      obtain ⟨g, hg, -⟩ := h.settled id hacked
      rw [free] at hg
      cases hg
    refine ⟨⟨h.sorted, h.known, ?_, fun id hacked => absurd hacked (hnone id)⟩, ?_, ?_⟩
    · rintro _ ⟨⟩ p hp
      cases hp
    · rintro id ⟨g, hg, -⟩
      rw [free] at hg
      cases hg
    · exact fun id hnames => hnames.elim
  | @xreadgroup _ g consumer hg =>
    obtain ⟨horderly, hpassed⟩ := h.of_group hg ((h.sane g hg).deliver h.sorted s.now consumer)
      (fun id hpass => hpass.deliver s.now consumer)
      (fun id hsettled => hsettled.deliver s.now consumer)
    refine ⟨horderly, hpassed, ?_⟩
    rintro _ ⟨stream, hstream, m, hm, rfl⟩
    unfold groupReply at hstream
    split_ifs at hstream
    · cases hstream
    · rw [List.mem_singleton.mp hstream] at hm
      exact ⟨_, rfl, Group.passed_of_mem_newMessages h.sorted hm s.now consumer⟩
  | @xpendingRange _ g infos hg hinfos =>
    refine ⟨⟨h.sorted, h.known, h.sane, h.settled⟩, fun id hpass => hpass, ?_⟩
    rintro _ ⟨info, hinfo, rfl⟩
    rw [hinfos] at hinfo
    obtain ⟨p, hp, hid⟩ := Group.lists_of_mem_pendingRange hinfo
    exact ⟨g, hg, hid ▸ h.sane g hg p hp⟩
  | @xclaim _ g consumer ids hg =>
    obtain ⟨horderly, hpassed⟩ := h.of_group hg (Group.Sane.claim (h.sane g hg))
      (fun id hpass => by
        show id ≤ _
        rw [Group.claim_lastDelivered]
        exact hpass)
      (fun id hsettled => Group.Settled.claim hsettled)
    refine ⟨horderly, hpassed, ?_⟩
    rintro _ ⟨m, hm, rfl⟩
    obtain ⟨p, hp, hid⟩ := Group.lists_of_mem_claim hm
    exact hpassed m.id ⟨g, hg, hid ▸ h.sane g hg p hp⟩
  | @xack _ id reason =>
    obtain ⟨g, hg, hpass⟩ : s.Passed id := hpre
    have hgroup : (s.group.map fun g => g.ack id) = some (g.ack id) := by rw [hg]; rfl
    refine ⟨⟨h.sorted, h.known, ?_, fun id' hacked => ⟨g.ack id, hgroup, ?_⟩⟩, ?_,
      fun _ hnames => hnames.elim⟩
    · intro g' hg' p hp
      obtain rfl : g' = g.ack id := Option.some.inj (hg'.symm.trans hgroup)
      exact h.sane g hg p (List.mem_of_mem_filter hp)
    · obtain ⟨reason', hmem⟩ := hacked
      rcases List.mem_append.mp hmem with hmem | hmem
      · obtain ⟨g₁, hg₁, hsettled⟩ := h.settled id' ⟨reason', hmem⟩
        obtain rfl : g₁ = g := Option.some.inj (hg₁.symm.trans hg)
        exact ⟨hsettled.1, fun hlists => hsettled.2 (Group.lists_drop.mp hlists).1⟩
      · -- the row of the id itself is taken out
        obtain ⟨rfl, -⟩ := Prod.mk.inj (List.mem_singleton.mp hmem)
        exact ⟨hpass, fun hlists => (Group.lists_drop.mp hlists).2 rfl⟩
    · rintro id' ⟨g₁, hg₁, hpass'⟩
      obtain rfl : g₁ = g := Option.some.inj (hg₁.symm.trans hg)
      exact ⟨g₁.ack id, hgroup, hpass'⟩
  | _ => exact ⟨⟨h.sorted, h.known, h.sane, h.settled⟩, fun id hpass => hpass,
      fun _ hnames => hnames.elim⟩

theorem drift (h : s.Orderly) (hdrift : (lifetime env).drift s t) :
    t.Orderly ∧ ∀ id, s.Passed id → t.Passed id := by
  obtain ⟨hdrift, hlives⟩ := hdrift
  cases hdrift with
  | tick ms => exact ⟨⟨h.sorted, h.known, h.sane, h.settled⟩, fun id hpass => hpass⟩
  | @xadd m positive newer =>
    refine ⟨⟨?_, fun m' hm' => ?_, h.sane, h.settled⟩, fun id hpass => hpass⟩
    · rw [List.pairwise_append]
      refine ⟨h.sorted, List.pairwise_singleton _ _, fun a ha b hb => ?_⟩
      rw [List.mem_singleton.mp hb]
      exact newer a (h.known a ha)
    · rcases List.mem_append.mp hm' with hm' | hm'
      · exact List.mem_append_left _ (h.known m' hm')
      · exact List.mem_append_right _ hm'
  | trim hkept =>
    exact ⟨⟨h.sorted.sublist hkept, fun m hm => h.known m (hkept.subset hm), h.sane, h.settled⟩,
      fun id hpass => hpass⟩
  | groupLost =>
    cases hgroup : s.group with
    | none =>
      have hsame : ({ s with group := none } : Shared) = s := by
        cases s
        cases hgroup
        rfl
      rw [hsame]
      exact ⟨h, fun id hpass => hpass⟩
    | some g =>
      have hsome : s.group ≠ none := by
        rw [hgroup]
        rintro ⟨⟩
      exact absurd rfl (hlives hsome)

end Shared.Orderly

theorem lifecycle_sound : lifecycleContract.Sound (lifetime env) where
  call := by
    intro c s r t hi hpre hanswer
    -- an answer that raised names nothing
    have herror : ∀ e id, ¬Call.Names id c (.error e) := by
      intro e id
      cases c <;> exact fun hnames => hnames
    cases hanswer with
    | done hexec => exact Shared.Orderly.executes hi hpre hexec
    | lost hexec he =>
      obtain ⟨horderly, hpassed, -⟩ := Shared.Orderly.executes hi hpre hexec
      exact ⟨horderly, hpassed, fun id hnames => absurd hnames (herror _ id)⟩
    | refused hfails => exact ⟨hi, fun _ h => h, fun id hnames => absurd hnames (herror _ id)⟩
  drift hi hd := Shared.Orderly.drift hi hd

/-! ## The workers acknowledge what was delivered -/

/-- A function that acknowledges nothing but the entry it was given. -/
theorem lifecycle_acks {α : Type} {p : Worker α} {P : Call → Prop} (hp : p.All P)
    (hacks : ∀ {id' reason}, P (.xack id' reason) → id' = id) (h : s.Passed id) :
    Safe lifecycleContract p (fun _ _ => True) s := by
  have hstable : ∀ {t u : Shared}, t.Passed id → lifecycleContract.rely t u → u.Passed id :=
    fun hpassed hrely => hrely id hpassed
  apply Safe.of_all_while hp hstable _ h
  intro c t hc hpassed
  cases c with
  | xack id' reason =>
    show t.Passed id'
    rw [hacks hc]
    exact hpassed
  | _ => trivial

/-- The workers acknowledge what the group has come to. -/
theorem lifecycle_rule : LoopRule env lifecycleContract (fun info s => s.Passed info.message_id)
    (fun m s => s.Passed m.id) (fun entry s => s.Passed entry.message_id) where
  row h hrely := hrely _ h
  known h hrely := hrely _ h
  poison h hrely := hrely _ h
  recreates hc _ := by
    cases ‹Call› with
    | xack id reason => exact hc.elim
    | _ => trivial
  sleeps _ _ := trivial
  reads _ _ := trivial
  received hpost stream hstream m hm := hpost m.id ⟨stream, hstream, m, hm, rfl⟩
  lists _ := trivial
  listed hpost info hinfo := hpost info.message_id ⟨info, hinfo, rfl⟩
  ranges _ _ := trivial
  fetched h _ := h
  claims _ _ := trivial
  claimed hpost m hm := hpost m.id ⟨m, hm, rfl⟩
  handleMessage m _ _ h := lifecycle_acks (calls_handleMessage env m) (fun hc => hc) h
  quarantineAndAck entry _ _ h :=
    lifecycle_acks (calls_quarantineAndAck env entry) (fun hc => hc.1) h

/-- **An acknowledged entry is done with.** While one group lives, once an entry is acknowledged no
group read, no pending list and no claim names it. -/
theorem acked_never_named {cfg : Config workerSig Shared Unit}
    (h : Reach (lifetime env) (IsWorker env) (Config.idle Shared.initial) cfg)
    (hacked : cfg.state.Acked id) {c : Call} {r : workerSig.Answer c}
    (hanswer : Answers env c cfg.state r t) : ¬Call.Names id c r := by
  have hinitial : Shared.initial.Orderly := by
    refine ⟨.nil, ?_, ?_, ?_⟩ <;> simp [Shared.initial, Shared.Acked]
  have horderly : cfg.state.Orderly :=
    (lifecycle_sound.reach (fun p hp s hi => LoopRule.worker lifecycle_rule hp hi) hinitial
      h).1
  obtain ⟨g, hg, hpassed, hlists⟩ := horderly.settled id hacked
  -- whatever a reply names is pending, or comes after the cursor
  cases hanswer with
  | done hexec =>
    cases hexec with
    | @xreadgroup _ g' consumer hg' =>
      obtain rfl : g = g' := Option.some.inj (hg.symm.trans hg')
      rintro ⟨stream, hstream, m, hm, hid⟩
      unfold groupReply at hstream
      split_ifs at hstream
      · cases hstream
      · rw [List.mem_singleton.mp hstream] at hm
        exact hpassed.not_mem_newMessages m hm hid
    | @xpendingRange _ g' infos hg' hinfos =>
      obtain rfl : g = g' := Option.some.inj (hg.symm.trans hg')
      rintro ⟨info, hinfo, rfl⟩
      rw [hinfos] at hinfo
      exact hlists (Group.lists_of_mem_pendingRange hinfo)
    | @xclaim _ g' consumer ids hg' =>
      obtain rfl : g = g' := Option.some.inj (hg.symm.trans hg')
      rintro ⟨m, hm, rfl⟩
      exact hlists (Group.lists_of_mem_claim hm)
    | _ => exact fun hnames => hnames
  | lost hexec he => cases c <;> exact fun hnames => hnames
  | refused hfails => cases c <;> exact fun hnames => hnames

/-- The first worker handles the one entry, while the group lives. -/
theorem reach_handled {m : Message} {e : AuditEvent} {stored : AuditRow}
    (h : Recorded env m e stored) (hpos : toLex (0, 0) < m.id) (consumer : Str) :
    Reach (lifetime env) (IsWorker env) (Config.idle Shared.initial) (Config.idle
      ((Shared.written m e stored consumer).ack m.id (.handled e (m.classify env e)))) := by
  have hadd : (lifetime env).drift Shared.initial (Shared.added [m]) :=
    ⟨.xadd hpos (by simp [Shared.initial]), fun h => absurd rfl h⟩
  have hpositive : ∀ m' ∈ [m], toLex (0, 0) < m'.id := by simpa using hpos
  obtain ⟨q, hrun⟩ := solo_run_first lenient_everything (List.cons_ne_nil m []) hpositive
    (by simp) (fun _ _ => trivial) ((solo_handleMessage lenient_everything h.parses
      (solo_sinkWrite_first h consumer fun _ _ _ => trivial)).bind_left _ |>.bind_left _)
  have hlife : Solo (lifetime env) (run env consumer 1) (Shared.added [m]) q
      ((Shared.written m e stored consumer).ack m.id (.handled e (m.classify env e))) :=
    Solo.mono And.left hrun
  exact (Reach.drift_idle hadd).trans (hlife.visit ⟨consumer, 1, rfl⟩)

/-- After the entry was handled, a group read has nothing to hand out. -/
theorem acked_never_named_read : ∃ cfg : Config workerSig Shared Unit,
    Reach (lifetime Sample.env) (IsWorker Sample.env) (Config.idle Shared.initial) cfg ∧
    cfg.state.Acked Sample.named.id ∧ ∃ streams t,
      Answers Sample.env (.xreadgroup (str "worker-2")) cfg.state (.ok streams) t ∧
        ¬Call.Names Sample.named.id (.xreadgroup (str "worker-2")) (.ok streams) := by
  obtain ⟨e, stored, h, -⟩ := Sample.recorded_named
  let s : Shared := (Shared.written Sample.named e stored (str "worker-1")).ack Sample.named.id
    (.handled e (Sample.named.classify Sample.env e))
  have hreach : Reach (lifetime Sample.env) (IsWorker Sample.env) (Config.idle Shared.initial)
      (Config.idle s) := reach_handled h (by decide) (str "worker-1")
  have hacked : (Config.idle (σ := workerSig) (α := Unit) s).state.Acked Sample.named.id :=
    ⟨_, List.mem_singleton.mpr rfl⟩
  have hread : Executes Sample.env (.xreadgroup (str "worker-2")) s _ _ := .xreadgroup rfl
  exact ⟨_, hreach, hacked, _, _, .done hread, acked_never_named hreach hacked (.done hread)⟩

end SecurityAudit
