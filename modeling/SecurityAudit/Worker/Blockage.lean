import SecurityAudit.Worker.Stuck
import SecurityAudit.Worker.Sweeps

/-!
# A window that never moves

A sweep looks at the first `PEL_SWEEP_BATCH` stale rows only. Once these are entries at the delivery
limit that cannot be encoded, every later sweep finds the same rows: none of them can be
quarantined, there is nothing else to claim, and whatever is pending behind them stays where it is
(`jam_lasts`). New entries are still read and handled; only reclaiming has stopped, for good.
-/

namespace SecurityAudit

variable {env : Env} {s t : Shared} {g : Group} {blocked rest : List Pending}

variable (env) in
/-- The rows in front fill the window of a sweep, are stale and at the limit, and their entries
cannot be encoded. -/
structure Shared.Jammed (s : Shared) (g : Group) (blocked rest : List Pending) : Prop where
  group : s.group = some g
  pel : g.pel = blocked ++ rest
  full : env.cfg.pelSweepBatch ≤ blocked.length
  overdue : ∀ p ∈ blocked, Group.idle s.now env.cfg.pelMinIdleMs p = true
  exhausted : ∀ p ∈ blocked, env.cfg.pelMaxDeliveries ≤ p.deliveries
  stuck : ∀ p ∈ blocked, ∃ m ∈ s.stream, m.id = p.id ∧ m.Unencodable

variable (env) in
/-- The world while the group lives and these entries are not trimmed. -/
def retaining (ids : List StreamId) : World workerSig Shared where
  answers := Answers env
  drift s t := (lifetime env).drift s t ∧ ∀ m ∈ s.stream, m.id ∈ ids → m ∈ t.stream

/-! ## What a sweep sees -/

/-- The rows of a reply about these pending rows. -/
def infosOf (rows : List Pending) : List PendingInfo := rows.map fun p => ⟨p.id, p.deliveries⟩

/-- As long as the rows in front are stale, no reply goes beyond them. -/
theorem pendingRange_of_front {more : List Pending} {now count : ℕ} {minIdle : ℤ}
    (hpel : g.pel = blocked ++ more) (hfull : count ≤ blocked.length)
    (hoverdue : ∀ p ∈ blocked, Group.idle now minIdle p = true) :
    g.pendingRange now minIdle count = infosOf (blocked.take count) := by
  have hfront : blocked.filter (Group.idle now minIdle) = blocked :=
    List.filter_eq_self.mpr hoverdue
  have htake : (blocked ++ more.filter (Group.idle now minIdle)).take count = blocked.take count :=
    List.take_append_of_le_length hfull
  unfold Group.pendingRange infosOf
  rw [hpel, List.filter_append, hfront, htake]

/-- The pending list of the jam, with what was read since behind it. -/
structure Frozen (env : Env) (s₀ : Shared) (g₀ : Group) (blocked : List Pending) (s : Shared) :
    Prop where
  ids : s.history.Pairwise fun a b => a.id < b.id
  stream : ∀ m ∈ s.stream, m ∈ s.history
  group : ∃ g more, s.group = some g ∧ g.pel = g₀.pel ++ more ∧ g₀.lastDelivered ≤ g.lastDelivered
  now : s₀.now ≤ s.now
  kept : ∀ p ∈ blocked, ∃ m ∈ s.stream, m.id = p.id ∧ m.Unencodable
  unacked : ∀ p ∈ g₀.pel, ¬s.Acked p.id

/-- What `XRANGE` has to return about the rows in front. -/
def Fetched (env : Env) (blocked : List Pending) (id : StreamId) (fields : Fields) : Prop :=
  ∀ p ∈ blocked, p.id = id → ∀ messageId attempts row,
    quarantineRecord env messageId fields attempts ≠ .ok row

/-- The contract: nobody claims, and what was pending is not acknowledged. -/
def jamContract (env : Env) (s₀ : Shared) (g₀ : Group) (blocked : List Pending) :
    Contract workerSig Shared where
  inv := Frozen env s₀ g₀ blocked
  rely _ _ := True
  pre
    | .xclaim _ _, _ => False
    | .xack id _, _ => ∀ p ∈ g₀.pel, p.id ≠ id
    | _, _ => True
  post
    | .xreadgroup _, .ok streams, _ => ∀ id, InStreams id streams → g₀.lastDelivered < id
    | .xpendingRange, .ok infos, _ => infos = infosOf (blocked.take env.cfg.pelSweepBatch)
    | .xrange id, .ok range, _ => Fetched env blocked id (StreamReader.fieldsOfRange range)
    | .xclaim _ _, _, _ => False
    | _, _, _ => True
  rely_refl _ := trivial
  rely_trans _ _ := trivial

variable {s₀ : Shared} {g₀ : Group}

namespace Frozen

/-- The range of a row in front has only the one entry, which cannot be quarantined. -/
theorem fetched (h : Frozen env s₀ g₀ blocked s) (id : StreamId) : Fetched env blocked id
    (StreamReader.fieldsOfRange (s.stream.filter fun m => m.id = id)) := by
  rintro p hp rfl messageId attempts row
  obtain ⟨m, hm, hid, hbad⟩ := h.kept p hp
  have hnodup : (s.history.map Message.id).Nodup :=
    List.pairwise_map.mpr (h.ids.imp fun hab => hab.ne)
  have hmem : m ∈ s.stream.filter fun m' => m'.id = p.id :=
    List.mem_filter.mpr ⟨hm, decide_eq_true hid⟩
  cases hrange : s.stream.filter fun m' => m'.id = p.id with
  | nil =>
    rw [hrange] at hmem
    cases hmem
  | cons first others =>
    have hfirst : first ∈ s.stream.filter fun m' => m'.id = p.id :=
      hrange ▸ List.mem_cons_self
    have hsame : first = m := List.inj_on_of_nodup_map hnodup
      (h.stream first (List.mem_of_mem_filter hfirst)) (h.stream m hm)
      ((of_decide_eq_true (List.mem_filter.mp hfirst).2).trans hid.symm)
    show quarantineRecord env messageId first.fields attempts ≠ .ok row
    rw [hsame]
    exact hbad.quarantineRecord_ne_ok messageId attempts row

/-- A carried out call leaves the jam as it is. -/
theorem executes (hpel : g₀.pel = blocked ++ rest)
    (hfull : env.cfg.pelSweepBatch ≤ blocked.length)
    (hoverdue : ∀ p ∈ blocked, Group.idle s₀.now env.cfg.pelMinIdleMs p = true)
    (h : Frozen env s₀ g₀ blocked s) {c : Call}
    (hpre : (jamContract env s₀ g₀ blocked).pre c s) {v : c.Reply}
    (hexec : Executes env c s v t) :
    Frozen env s₀ g₀ blocked t ∧ (jamContract env s₀ g₀ blocked).post c (.ok v) t := by
  obtain ⟨g, more, hg, hmore, hcursor⟩ := h.group
  cases hexec with
  | xgroupCreate free =>
    rw [free] at hg
    cases hg
  | @xreadgroup _ g₁ consumer hg₁ =>
    obtain rfl : g = g₁ := Option.some.inj (hg.symm.trans hg₁)
    refine ⟨⟨h.ids, h.stream, ⟨_, more ++ (g.newMessages s.stream).map fun m =>
      ⟨m.id, consumer, s.now, 1⟩, rfl, ?_, ?_⟩, h.now, h.kept, h.unacked⟩, ?_⟩
    · show g.pel ++ _ = _
      rw [hmore, List.append_assoc]
    · exact (Group.Passed.deliver (g := g) hcursor s.now consumer)
    · -- what is read comes after everything that was pending
      rintro _ ⟨stream, hstream, m, hm, rfl⟩
      unfold groupReply at hstream
      split_ifs at hstream
      · cases hstream
      · rw [List.mem_singleton.mp hstream] at hm
        exact lt_of_le_of_lt hcursor (Group.lt_of_mem_newMessages hm)
  | @xpendingRange _ g₁ infos hg₁ hinfos =>
    obtain rfl : g = g₁ := Option.some.inj (hg.symm.trans hg₁)
    refine ⟨⟨h.ids, h.stream, h.group, h.now, h.kept, h.unacked⟩, ?_⟩
    have hlist : g.pel = blocked ++ (rest ++ more) := by rw [hmore, hpel, List.append_assoc]
    show infos = _
    rw [hinfos]
    exact pendingRange_of_front hlist hfull fun p hp => Group.idle_mono h.now (hoverdue p hp)
  | @xrange _ id => exact ⟨h, h.fetched id⟩
  | xclaim hg₁ => exact hpre.elim
  | @xack _ id reason =>
    have hother : ∀ p ∈ g₀.pel, p.id ≠ id := hpre
    have hfilter : g₀.pel.filter (fun p => p.id ≠ id) = g₀.pel :=
      List.filter_eq_self.mpr fun p hp => decide_eq_true (hother p hp)
    refine ⟨⟨h.ids, h.stream, ⟨g.ack id, more.filter fun p => p.id ≠ id, ?_, ?_, hcursor⟩, h.now,
      h.kept, fun p hp => ?_⟩, trivial⟩
    · show s.group.map _ = _
      rw [hg]
      rfl
    · show g.pel.filter (fun p => p.id ≠ id) = _
      rw [hmore, List.filter_append, hfilter]
    · rintro ⟨reason', hmem⟩
      rcases List.mem_append.mp hmem with hmem | hmem
      · exact h.unacked p hp ⟨reason', hmem⟩
      · exact hother p hp (Prod.mk.inj (List.mem_singleton.mp hmem)).1
  | _ => exact ⟨⟨h.ids, h.stream, h.group, h.now, h.kept, h.unacked⟩, trivial⟩

theorem drift (h : Frozen env s₀ g₀ blocked s)
    (hdrift : (retaining env (blocked.map Pending.id)).drift s t) :
    Frozen env s₀ g₀ blocked t := by
  obtain ⟨⟨hdrift, hlives⟩, hkept⟩ := hdrift
  have hstays : ∀ p ∈ blocked, ∃ m ∈ t.stream, m.id = p.id ∧ m.Unencodable := by
    intro p hp
    obtain ⟨m, hm, hid, hbad⟩ := h.kept p hp
    exact ⟨m, hkept m hm (hid ▸ List.mem_map_of_mem hp), hid, hbad⟩
  cases hdrift with
  | tick ms => exact ⟨h.ids, h.stream, h.group, h.now.trans (Nat.le_add_right _ _), hstays,
      h.unacked⟩
  | @xadd m positive newer =>
    refine ⟨?_, fun m' hm' => ?_, h.group, h.now, hstays, h.unacked⟩
    · rw [List.pairwise_append]
      refine ⟨h.ids, List.pairwise_singleton _ _, fun a ha b hb => ?_⟩
      rw [List.mem_singleton.mp hb]
      exact newer a ha
    · rcases List.mem_append.mp hm' with hm' | hm'
      · exact List.mem_append_left _ (h.stream m' hm')
      · exact List.mem_append_right _ hm'
  | trim hsub => exact ⟨h.ids, fun m hm => h.stream m (hsub.subset hm), h.group, h.now, hstays,
      h.unacked⟩
  | groupLost =>
    obtain ⟨g, -, hg, -, -⟩ := h.group
    have hsome : s.group ≠ none := by
      rw [hg]
      rintro ⟨⟩
    exact absurd rfl (hlives hsome)

end Frozen

theorem jam_sound (hpel : g₀.pel = blocked ++ rest)
    (hfull : env.cfg.pelSweepBatch ≤ blocked.length)
    (hoverdue : ∀ p ∈ blocked, Group.idle s₀.now env.cfg.pelMinIdleMs p = true) :
    (jamContract env s₀ g₀ blocked).Sound (retaining env (blocked.map Pending.id)) where
  call := by
    intro c s r t hi hpre hanswer
    cases hanswer with
    | done hexec =>
      obtain ⟨hfrozen, hpost⟩ := Frozen.executes hpel hfull hoverdue hi hpre hexec
      exact ⟨hfrozen, trivial, hpost⟩
    | lost hexec he =>
      refine ⟨(Frozen.executes hpel hfull hoverdue hi hpre hexec).1, trivial, ?_⟩
      cases c with
      | xclaim consumer ids => exact hpre
      | _ => trivial
    | refused hfails =>
      refine ⟨hi, trivial, ?_⟩
      cases c with
      | xclaim consumer ids => exact hpre
      | _ => trivial
  drift hi hd := ⟨Frozen.drift hi hd, trivial⟩

/-- The calls of a session, and lines that are printed. -/
def Call.OfFailedSession (c : Call) : Prop := c.OfSession ∨ ∃ line, c = .print line

/-- Without a row to commit, `quarantine_and_ack` acknowledges nothing. -/
theorem session_quarantineAndAck {entry : StreamReader.PoisonEntry}
    (hfails : ∀ row, quarantineRecord env entry.message_id.text entry.fields
      entry.delivery_attempts ≠ .ok row) :
    (quarantineAndAck env entry).All Call.OfFailedSession := by
  have hwrite : ∃ e, QuarantineSink.write env entry.message_id entry.fields
      entry.delivery_attempts = .raise e := by
    unfold QuarantineSink.write
    cases hrow : quarantineRecord env entry.message_id.text entry.fields
        entry.delivery_attempts with
    | ok row => exact absurd hrow (hfails row)
    | error e => exact ⟨e, rfl⟩
  obtain ⟨e, hwrite⟩ := hwrite
  have htry : tryWrite (QuarantineSink.write env entry.message_id entry.fields
      entry.delivery_attempts) (.quarantineFailed entry.message_id) = (do
        ask (.print (.quarantineFailed entry.message_id e))
        return false) := by
    rw [hwrite]
    rfl
  unfold quarantineAndAck
  rw [htry]
  refine Prog.All.bind (Prog.all_perform (.inl trivial)) fun _ => ?_
  -- the write has failed when the session is closed
  refine ⟨.inr ⟨_, rfl⟩, fun r => ?_⟩
  cases r <;> exact ⟨.inl trivial, fun r => by cases r <;> trivial⟩

/-- The workers claim nothing, and acknowledge only what they read. -/
theorem jam_rule (hsane : g₀.Sane)
    (hexhausted : ∀ p ∈ blocked, env.cfg.pelMaxDeliveries ≤ p.deliveries) :
    LoopRule env (jamContract env s₀ g₀ blocked)
      (fun info _ => info ∈ infosOf (blocked.take env.cfg.pelSweepBatch))
      (fun m _ => g₀.lastDelivered < m.id)
      (fun entry _ => ∀ messageId attempts row,
        quarantineRecord env messageId entry.fields attempts ≠ .ok row) where
  row h _ := h
  known h _ := h
  poison h _ := h
  recreates hc _ := by
    cases ‹Call› with
    | xclaim consumer ids => exact hc.elim
    | xack id reason => exact hc.elim
    | _ => trivial
  sleeps _ _ := trivial
  reads _ _ := trivial
  received hpost stream hstream m hm := hpost m.id ⟨stream, hstream, m, hm, rfl⟩
  lists _ := trivial
  listed hpost info hinfo := by
    rw [← show _ = infosOf (blocked.take env.cfg.pelSweepBatch) from hpost]
    exact hinfo
  ranges _ _ := trivial
  fetched hinfo hpost := by
    obtain ⟨p, hp, rfl⟩ := List.mem_map.mp hinfo
    exact hpost p (List.mem_of_mem_take hp) rfl
  claims hrows hsome := by
    -- the rows in front are all at the limit
    refine hsome (List.filter_eq_nil_iff.mpr fun info hinfo hbelow => ?_)
    obtain ⟨p, hp, rfl⟩ := List.mem_map.mp (hrows info hinfo)
    have hlimit := hexhausted p (List.mem_of_mem_take hp)
    have hlt := of_decide_eq_true hbelow
    exact absurd hlimit (not_le.mpr hlt)
  claimed hpost _ _ := hpost.elim
  handleMessage m s _ hnew := by
    refine Safe.of_all (calls_handleMessage env m) (fun c t hc => ?_) s
    cases c with
    | xclaim consumer ids => exact hc.elim
    | xack id reason =>
      obtain rfl : id = m.id := hc
      exact fun p hp hid => absurd (hid ▸ hsane p hp) (not_le.mpr hnew)
    | _ => trivial
  quarantineAndAck entry s _ hfails := by
    refine Safe.of_all (session_quarantineAndAck fun row => hfails _ _ row) (fun c t hc => ?_) s
    rcases hc with hc | ⟨line, rfl⟩
    · cases c with
      | xclaim consumer ids => exact hc.elim
      | xack id reason => exact hc.elim
      | _ => trivial
    · trivial

/-- **A jammed window never moves.** If the stale rows in front of the pending list fill the window
of a sweep, are at the limit and belong to entries that cannot be encoded, and no worker is in the
middle of anything, then in every run of the workers that are started from there, as long as the
group lives and these entries are kept, all rows of the pending list stay as they are, with their
owners and delivery counts, and none of them is acknowledged. -/
theorem jam_lasts (h₀ : Reach (lifetime env) (IsWorker env) (Config.idle Shared.initial)
      (Config.idle s₀)) (hjam : s₀.Jammed env g₀ blocked rest)
    {cfg : Config workerSig Shared Unit}
    (hrun : Reach (retaining env (blocked.map Pending.id)) (IsWorker env) (Config.idle s₀) cfg) :
    ∃ g more, cfg.state.group = some g ∧ g.pel = g₀.pel ++ more ∧
      ∀ p ∈ g₀.pel, ¬cfg.state.Acked p.id := by
  have hinitial : Shared.initial.Orderly := by
    refine ⟨.nil, ?_, ?_, ?_⟩ <;> simp [Shared.initial, Shared.Acked]
  have horderly : s₀.Orderly := (lifecycle_sound.reach
    (fun p hp s hi => LoopRule.worker lifecycle_rule hp hi) hinitial h₀).1
  have hsane : g₀.Sane := horderly.sane g₀ hjam.group
  have hids : s₀.history.Pairwise fun a b => a.id < b.id := by
    have hreach : Reachable env s₀ := ⟨Config.idle s₀,
      Reach.mono (W := lifetime env) (V := world env) (fun ha => ha) And.left h₀, rfl⟩
    have hi : Inv env (fun _ _ _ => True) s₀ :=
      inv_of_reachableWhen (fun _ _ => trivial) (fun _ _ _ _ => trivial) hreach.when
    exact hi.ids
  have hfrozen : Frozen env s₀ g₀ blocked s₀ := by
    refine ⟨hids, horderly.known, ⟨g₀, [], hjam.group, (List.append_nil _).symm, le_refl _⟩,
      le_refl _, hjam.stuck, fun p hp hacked => ?_⟩
    -- what is acknowledged is not pending
    obtain ⟨g, hg, hsettled⟩ := horderly.settled p.id hacked
    obtain rfl : g = g₀ := Option.some.inj (hg.symm.trans hjam.group)
    exact hsettled.2 ⟨p, hp, rfl⟩
  have hend := ((jam_sound hjam.pel hjam.full hjam.overdue).reach
    (fun p hp s hi => (jam_rule hsane hjam.exhausted).worker hp hi) hfrozen hrun).1
  obtain ⟨g, more, hg, hmore, -⟩ := hend.group
  exact ⟨g, more, hg, hmore, hend.unacked⟩

namespace Sample

/-- The environment with a limit of one delivery and a window of one row. -/
def tight : Env :=
  { Sample.env with cfg := { cfg with pelMaxDeliveries := 1, pelSweepBatch := 1 } }

/-- Both entries were read by a worker that was killed, and the idle time has passed. -/
def jam : Shared :=
  { Shared.received [halved, named] (str "worker-1") with now := 0 + 30000 }

def inFront : Pending := ⟨halved.id, str "worker-1", 0, 1⟩

def behind : Pending := ⟨named.id, str "worker-1", 0, 1⟩

theorem jammed_jam : jam.Jammed tight ⟨named.id, [inFront, behind]⟩ [inFront] [behind] where
  group := rfl
  pel := rfl
  full := by decide
  overdue := by decide
  exhausted := by decide
  stuck p hp := by
    rw [List.mem_singleton.mp hp]
    exact ⟨halved, List.mem_cons_self, rfl, unencodable_halved⟩

theorem reach_jam : Reach (lifetime tight) (IsWorker tight) (Config.idle Shared.initial)
    (Config.idle jam) := by
  have hpositive : ∀ m ∈ [halved, named], toLex (0, 0) < m.id := by decide
  have hfirst : (lifetime tight).drift Shared.initial (Shared.added [halved]) :=
    ⟨.xadd (by decide) (by simp [Shared.initial]), fun h => absurd rfl h⟩
  have hsecond : (lifetime tight).drift (Shared.added [halved]) (Shared.added [halved, named]) :=
    ⟨.xadd (by decide) (by decide), fun h => absurd rfl h⟩
  obtain ⟨q, hrun⟩ : ∃ q, Solo ((world tight).restrict everything) (run tight (str "worker-1") 1)
      (Shared.added [halved, named]) q (Shared.received [halved, named] (str "worker-1")) :=
    solo_run_first lenient_everything (List.cons_ne_nil _ _) hpositive (by simp)
      (fun _ _ => trivial) (.here _ _)
  have hread : Solo (lifetime tight) (run tight (str "worker-1") 1) (Shared.added [halved, named]) q
      (Shared.received [halved, named] (str "worker-1")) := Solo.mono And.left hrun
  have htick : (lifetime tight).drift (Shared.received [halved, named] (str "worker-1")) jam :=
    ⟨.tick 30000, fun h => h⟩
  exact (((Reach.drift_idle hfirst).trans (Reach.drift_idle hsecond)).trans
    (hread.visit ⟨_, 1, rfl⟩)).trans (Reach.drift_idle htick)

end Sample

/-- An hour later the entry behind is still pending, after its one delivery. -/
theorem jam_lasts_hour : ∃ cfg : Config workerSig Shared Unit,
    Reach (retaining Sample.tight ([Sample.inFront].map Pending.id)) (IsWorker Sample.tight)
      (Config.idle Sample.jam) cfg ∧
    ∃ g more, cfg.state.group = some g ∧ g.pel = [Sample.inFront, Sample.behind] ++ more ∧
      ∀ p ∈ [Sample.inFront, Sample.behind], ¬cfg.state.Acked p.id := by
  have htick : (retaining Sample.tight ([Sample.inFront].map Pending.id)).drift Sample.jam
      { Sample.jam with now := Sample.jam.now + 3600000 } :=
    ⟨⟨.tick 3600000, fun h => h⟩, fun _ hm _ => hm⟩
  have hrun : Reach (retaining Sample.tight ([Sample.inFront].map Pending.id))
      (IsWorker Sample.tight) (Config.idle Sample.jam) _ := Reach.drift_idle htick
  exact ⟨_, hrun, jam_lasts Sample.reach_jam Sample.jammed_jam hrun⟩

end SecurityAudit
