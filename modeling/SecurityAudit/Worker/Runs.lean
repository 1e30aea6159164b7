import SecurityAudit.Prog.Solo
import SecurityAudit.Worker.Contract

/-!
# Runs of one worker

What one undisturbed worker can do, function by function: the state it leaves when the calls
it makes are carried out. These are stretches of runs (`Solo`), so together with crashes and
drifts between them they show that a state is reached. Each holds in every restriction of the
world that leaves all calls alone but the two kinds the conditions of later results look at
(`Lenient`); for those the caller says that the call is allowed.
-/

namespace SecurityAudit

/-- The calls a condition on runs may look at. -/
def Call.Watched : Call → Prop
  | .commitAuditEvent _ _ _ _ | .xpendingRange => True
  | _ => False

/-- A condition on runs that looks at no other call. -/
def Lenient (allowed : (c : Call) → Shared → workerSig.Answer c → Prop) : Prop :=
  ∀ c s r, ¬c.Watched → allowed c s r

variable {env : Env} {allowed : (c : Call) → Shared → workerSig.Answer c → Prop}
  {s t : Shared} {m : Message} {e : AuditEvent} {stored : AuditRow}

/-! ## One call -/

/-- A call that is carried out. -/
theorem solo_ask {c : Call} {v : c.Reply} (h : Executes env c s v t)
    (hallowed : allowed c s (.ok v)) :
    Solo ((world env).restrict allowed) (ask c) s (.ret v) t :=
  Solo.perform (σ := workerSig) (r := .ok v) ⟨.done h, hallowed⟩

/-- A call that raises. -/
theorem solo_raise {c : Call} {ex : Exc} (h : Fails env c s ex)
    (hallowed : allowed c s (.error ex)) :
    Solo ((world env).restrict allowed) (ask c) s (.raise ex) s :=
  Solo.perform (σ := workerSig) (r := .error ex) ⟨.refused h, hallowed⟩

/-! ## The group -/

theorem solo_ensureGroup_new (ha : Lenient allowed) (hg : s.group = none) :
    Solo ((world env).restrict allowed) StreamReader.ensureGroup s (.ret ())
      { s with group := some .fresh } :=
  .bind (solo_ask (.xgroupCreate hg) (ha _ _ _ id)).attempt (.here _ _)

theorem solo_ensureGroup_busy (ha : Lenient allowed) {g : Group} (hg : s.group = some g) :
    Solo ((world env).restrict allowed) StreamReader.ensureGroup s (.ret ()) s :=
  .bind (solo_raise (.busyGroup hg) (ha _ _ _ id)).attempt (.here _ _)

/-! ## One message -/

/-- The entry `m` can be parsed into `e` and written as the row `stored`. -/
structure Recorded (env : Env) (m : Message) (e : AuditEvent) (stored : AuditRow) : Prop where
  parses : m.ParsesTo env e
  writes : ∃ row, sinkRecord env e (m.classify env e) = .ok row ∧ row.Fits ∧
    row.stored? = some stored

/-- The row has the event's id. -/
theorem Recorded.event_id (h : Recorded env m e stored) : stored.event_id = e.event_id := by
  obtain ⟨row, hrow, -, hstored⟩ := h.writes
  obtain ⟨_, _, -, -, rfl⟩ := sinkRecord_stored hrow hstored
  rfl

/-- `Sink.write` of an event whose id is free. -/
theorem solo_sinkWrite_new (h : Recorded env m e stored)
    (free : ∀ r ∈ s.auditEvents, r.2.event_id ≠ e.event_id)
    (hallowed : ∀ row, allowed (.commitAuditEvent m.id e (m.classify env e) row) s (.ok ())) :
    Solo ((world env).restrict allowed) (Sink.write env m.id e (m.classify env e)) s (.ret true)
      { s with auditEvents := s.auditEvents ++ [(m.id, stored)] } := by
  obtain ⟨row, hrow, hfits, hstored⟩ := h.writes
  have hfree : ∀ r ∈ s.auditEvents, r.2.event_id ≠ row.event_id := by
    rw [event_id_of_sinkRecord hrow]
    exact free
  unfold Sink.write
  rw [hrow, Prog.ofExcept_ok, Prog.ret_bind]
  exact .bind (solo_ask (.commitAuditEvent hfits hstored hfree) (hallowed row)).attempt (.here _ _)

/-- `Sink.write` of an event whose id is taken. -/
theorem solo_sinkWrite_taken (ha : Lenient allowed) (h : Recorded env m e stored)
    {r : StreamId × AuditRow} (hr : r ∈ s.auditEvents) (hid : r.2.event_id = e.event_id)
    (hallowed : ∀ row, allowed (.commitAuditEvent m.id e (m.classify env e) row) s
      (.error .integrityError)) :
    Solo ((world env).restrict allowed) (Sink.write env m.id e (m.classify env e)) s (.ret true)
      s := by
  obtain ⟨row, hrow, -⟩ := h.writes
  have hid : r.2.event_id = row.event_id := by rw [hid, event_id_of_sinkRecord hrow]
  unfold Sink.write
  rw [hrow, Prog.ofExcept_ok, Prog.ret_bind]
  exact .bind (solo_raise (.duplicateEvent hr hid) (hallowed row)).attempt
    (.bind (solo_ask .rollback (ha _ _ _ id)) (.here _ _))

/-- The state once the entry `m` was parsed into `e`. -/
abbrev Shared.parse (s : Shared) (m : Message) (e : AuditEvent) : Shared :=
  { s with parsed := s.parsed ++ [(m.id, e)] }

/-- The state once the id was acknowledged. -/
abbrev Shared.ack (s : Shared) (id : StreamId) (reason : AckReason) : Shared :=
  { s with group := s.group.map fun g => g.ack id, acked := s.acked ++ [(id, reason)] }

/-- The warning is printed where it is due. -/
theorem solo_warnInvalid (ha : Lenient allowed) (id : StreamId) (e : AuditEvent)
    (status : IntegrityStatus) :
    Solo ((world env).restrict allowed) (warnInvalid id e status) s (.ret ()) s := by
  cases status with
  | invalid => exact solo_ask .print (ha _ _ _ fun h => h)
  | _ => exact .here _ _

/-- A write that succeeds, in its session. -/
theorem solo_withSession (ha : Lenient allowed) {write : Worker Bool} {failed : Exc → Line}
    (hwrite : Solo ((world env).restrict allowed) write s (.ret true) t) :
    Solo ((world env).restrict allowed)
      (Prog.ensuring (tryWrite write failed) (ask .closeSession)) s (.ret true) t :=
  Solo.ensuring (.bind hwrite.attempt (.here _ _)) (solo_ask .closeSession (ha _ _ _ id))

/-- The first part of `handle_message`, up to the write. -/
theorem solo_handleMessage_write (ha : Lenient allowed) (h : m.ParsesTo env e)
    (hwrite : Solo ((world env).restrict allowed) (Sink.write env m.id e (m.classify env e))
      (s.parse m e) (.ret true) t) :
    ∃ q, Solo ((world env).restrict allowed) (handleMessage env m) s q t := by
  obtain ⟨uuid, utcnow, hparse⟩ := h
  exact ⟨_, .bind (solo_ask (.parse hparse) (ha _ _ _ id)).attempt
    (.bind (solo_warnInvalid ha m.id e _) (.bind (solo_ask .openSession (ha _ _ _ id))
      (((hwrite.attempt.bind_left _).attempt.bind_left _).bind_left _)))⟩

/-- `handle_message` from its first call to its last. -/
theorem solo_handleMessage (ha : Lenient allowed) (h : m.ParsesTo env e)
    (hwrite : Solo ((world env).restrict allowed) (Sink.write env m.id e (m.classify env e))
      (s.parse m e) (.ret true) t) :
    Solo ((world env).restrict allowed) (handleMessage env m) s (.ret true)
      (t.ack m.id (.handled e (m.classify env e))) := by
  obtain ⟨uuid, utcnow, hparse⟩ := h
  refine .bind (solo_ask (.parse hparse) (ha _ _ _ id)).attempt
    (.bind (solo_warnInvalid ha m.id e _) (.bind (solo_ask .openSession (ha _ _ _ id)) ?_))
  refine .bind (solo_withSession ha hwrite) ?_
  exact .bind (solo_ask .xack (ha _ _ _ id)) (.here _ _)

/-! ## Reading and sweeping -/

/-- A sweep that finds nothing stale. -/
theorem solo_sweepPending_nothing {g : Group} (hg : s.group = some g)
    (hnone : g.pendingRange s.now env.cfg.pelMinIdleMs env.cfg.pelSweepBatch = [])
    (hallowed : allowed .xpendingRange s (.ok [])) (consumer : Str) (last : LastAttempt) :
    Solo ((world env).restrict allowed) (sweepPending env consumer last) s (.ret last) s := by
  have hsame : { s with condemned := s.condemned ++ poisonIds env.cfg [] } = s := by
    rw [poisonIds, List.filter_nil, List.map_nil, List.append_nil]
  have hask := solo_ask (.xpendingRange hg hnone.symm) hallowed
  rw [hsame] at hask
  exact .bind (Solo.bind hask (.here _ _)).attempt (.here _ _)

/-- A group read. -/
theorem solo_readNew (ha : Lenient allowed) {g : Group} (hg : s.group = some g) (consumer : Str)
    (last : LastAttempt) :
    Solo ((world env).restrict allowed) (readNew env consumer last) s
      (.ret (groupReply env.cfg.streamName (g.newMessages s.stream), last))
      { s with group := some (g.deliver s.now consumer (g.newMessages s.stream)) } :=
  .bind (solo_ask (.xreadgroup hg) (ha _ _ _ id)).attempt (.here _ _)

/-- `claim_stale` where nothing stale is poison. -/
theorem solo_claimStale (ha : Lenient allowed) {g : Group} {infos : List PendingInfo}
    (hg : s.group = some g)
    (hinfos : infos = g.pendingRange s.now env.cfg.pelMinIdleMs env.cfg.pelSweepBatch)
    (hne : infos ≠ []) (hlive : ∀ i ∈ infos, (i.times_delivered : ℤ) < env.cfg.pelMaxDeliveries)
    (hallowed : allowed .xpendingRange s (.ok infos)) (consumer : Str) :
    Solo ((world env).restrict allowed) (StreamReader.claimStale env.cfg consumer) s
      (.ret ((g.claim s.stream s.now env.cfg.pelMinIdleMs consumer
        (infos.map PendingInfo.message_id)).2, []))
      { s with group := some (g.claim s.stream s.now env.cfg.pelMinIdleMs consumer
        (infos.map PendingInfo.message_id)).1 } := by
  have hpoison : infos.filter (fun i => decide (env.cfg.pelMaxDeliveries ≤ i.times_delivered)) =
      [] := List.filter_eq_nil_iff.mpr fun i hi => by simpa using hlive i hi
  have hreclaimable : infos.filter
      (fun i => decide ((i.times_delivered : ℤ) < env.cfg.pelMaxDeliveries)) = infos :=
    List.filter_eq_self.mpr fun i hi => by simpa using hlive i hi
  have hsame : { s with condemned := s.condemned ++ poisonIds env.cfg infos } = s := by
    rw [poisonIds, hpoison, List.map_nil, List.append_nil]
  have hask := solo_ask (.xpendingRange hg hinfos) hallowed
  rw [hsame] at hask
  have hempty : infos.isEmpty = false := by simpa using hne
  have hsome : (infos.filter fun i =>
      decide ((i.times_delivered : ℤ) < env.cfg.pelMaxDeliveries)).isEmpty = false := by
    rw [hreclaimable, hempty]
  -- the call is made with the filtered list, so the filter goes only once it was answered
  rw [← hreclaimable]
  refine .bind hask ?_
  simp only [hempty, hsome, hpoison, StreamReader.fetchPoison, Prog.pure_eq, Prog.ret_bind,
    Bool.false_eq_true, if_false]
  exact .bind (solo_ask (.xclaim hg) (ha _ _ _ id)) (.here _ _)

/-- `claim_stale` where the one stale entry is poison. -/
theorem solo_claimStale_poison (ha : Lenient allowed) {g : Group} {attempts : ℕ}
    (hg : s.group = some g)
    (hinfos : [⟨m.id, attempts⟩] =
      g.pendingRange s.now env.cfg.pelMinIdleMs env.cfg.pelSweepBatch)
    (hmax : env.cfg.pelMaxDeliveries ≤ attempts) (hm : s.stream.filter (fun m' => m'.id = m.id) = [m])
    (hallowed : allowed .xpendingRange s (.ok [⟨m.id, attempts⟩])) (consumer : Str) :
    Solo ((world env).restrict allowed) (StreamReader.claimStale env.cfg consumer) s
      (.ret ([], [⟨m.id, m.fields, attempts⟩])) { s with condemned := s.condemned ++ [m.id] } := by
  have hpoison : poisonIds env.cfg [⟨m.id, attempts⟩] = [m.id] := by
    simp [poisonIds, hmax]
  have hask := solo_ask (.xpendingRange hg hinfos) hallowed
  rw [hpoison] at hask
  refine .bind hask ?_
  have hnot : ¬((attempts : ℤ) < env.cfg.pelMaxDeliveries) := not_lt.mpr hmax
  simp only [List.isEmpty_cons, Bool.false_eq_true, if_false, List.filter_cons, List.filter_nil,
    hmax, hnot, decide_true, decide_false, if_true, List.isEmpty_nil]
  refine .bind (.bind (solo_ask .xrange (ha _ _ _ id)) (.here _ _)) ?_
  rw [hm]
  exact .here _ _

/-! ## A worker from its start -/

/-- Entries were added, and nothing else happened. -/
def Shared.added (ms : List Message) : Shared := { Shared.initial with stream := ms, history := ms }

/-- No row was written and no entry was found at its delivery limit yet. -/
def Shared.Untouched (s : Shared) : Prop := s.auditEvents = [] ∧ s.condemned = []

/-- The first worker read them all. -/
def Shared.received (ms : List Message) (consumer : Str) : Shared :=
  { Shared.added ms with group := some (Group.fresh.deliver 0 consumer ms) }

/-- Producers can add any entries with ids in order. -/
theorem reach_added {W : World workerSig Shared} {start : Worker Unit → Prop}
    (hW : ∀ {s t}, Drift s t → W.drift s t) {ms : List Message}
    (hpos : ∀ m ∈ ms, toLex (0, 0) < m.id) (hms : ms.Pairwise fun a b => a.id < b.id) :
    Reach W start (Config.idle Shared.initial) (Config.idle (Shared.added ms)) := by
  induction ms using List.reverseRecOn with
  | nil => exact .refl
  | append_singleton ms m ih =>
    obtain ⟨hms, -, hnew⟩ := List.pairwise_append.mp hms
    exact (ih (fun m hm => hpos m (by simp [hm])) hms).trans (Reach.drift_idle
      (hW (.xadd (hpos m (by simp)) fun m' hm' => hnew m' hm' m (by simp))))

/-- The first worker creates the group, reads the entries and begins to handle them. -/
theorem solo_run_first (ha : Lenient allowed) {ms : List Message} (hne : ms ≠ [])
    (hpos : ∀ m ∈ ms, toLex (0, 0) < m.id) (hlen : ms.length ≤ 10)
    (hpending : ∀ s : Shared, s.Untouched → allowed .xpendingRange s (.ok []))
    {consumer : Str} {q : Worker Unit} (hhandle : Solo ((world env).restrict allowed)
      (handleAll env ms) (Shared.received ms consumer) q t) :
    ∃ q, Solo ((world env).restrict allowed) (run env consumer 1) (Shared.added ms) q t := by
  have hnew : Group.fresh.newMessages (Shared.added ms).stream = ms := by
    have hall : ms.filter (fun m => Group.fresh.lastDelivered < m.id) = ms :=
      List.filter_eq_self.mpr fun m hm => decide_eq_true (hpos m hm)
    rw [Group.newMessages, Shared.added, hall, List.take_of_length_le hlen]
  have hread : Solo ((world env).restrict allowed) _ _ _ _ :=
    solo_readNew (s := { Shared.added ms with group := some .fresh }) ha rfl consumer none
  rw [hnew, groupReply, if_neg (by simpa using hne)] at hread
  exact ⟨_, .bind (solo_ensureGroup_new ha rfl)
    (.bind (solo_sweepPending_nothing rfl (by simp [Group.pendingRange, Group.fresh])
        (hpending _ ⟨rfl, rfl⟩) consumer none)
      (.bind hread ((hhandle.bind_left _).bind_left _)))⟩

/-- A group with one pending entry. -/
def Group.held (m : Message) (consumer : Str) (deliveredAt deliveries : ℕ) : Group :=
  ⟨m.id, [⟨m.id, consumer, deliveredAt, deliveries⟩]⟩

/-- Long enough after its delivery, the one pending entry is stale. -/
theorem pendingRange_held {now minIdle deliveredAt count : ℕ} (h : deliveredAt + minIdle ≤ now)
    (hcount : 0 < count) (consumer : Str) (deliveries : ℕ) :
    (Group.held m consumer deliveredAt deliveries).pendingRange now minIdle count =
      [⟨m.id, deliveries⟩] := by
  obtain ⟨count, rfl⟩ := Nat.exists_eq_succ_of_ne_zero hcount.ne'
  have hidle : Group.idle now minIdle ⟨m.id, consumer, deliveredAt, deliveries⟩ = true := by
    rw [Group.idle, decide_eq_true_eq]
    push_cast
    omega
  simp [Group.pendingRange, Group.held, hidle]

/-- Claiming it moves it to the claimer and counts one more delivery. -/
theorem claim_held {now minIdle deliveredAt : ℕ} (h : deliveredAt + minIdle ≤ now)
    (consumer consumer' : Str) (deliveries : ℕ) :
    (Group.held m consumer deliveredAt deliveries).claim [m] now minIdle consumer' [m.id] =
      (.held m consumer' now (deliveries + 1), [m]) := by
  have hidle : Group.idle now minIdle ⟨m.id, consumer, deliveredAt, deliveries⟩ = true := by
    rw [Group.idle, decide_eq_true_eq]
    push_cast
    omega
  simp [Group.claim, Group.claimOne, Group.held, hidle]

/-- A state in which a single entry, delivered but never acknowledged, waits to be reclaimed. -/
structure Stale (env : Env) (s : Shared) (m : Message) (deliveries : ℕ) : Prop where
  stream : s.stream = [m]
  group : ∃ consumer deliveredAt, s.group = some (.held m consumer deliveredAt deliveries) ∧
    deliveredAt + env.cfg.pelMinIdleMs.toNat ≤ s.now
  minIdle : 0 ≤ env.cfg.pelMinIdleMs
  batch : 0 < env.cfg.pelSweepBatch

/-- The state after `consumer` claimed the one pending entry. -/
abbrev Shared.claimed (s : Shared) (m : Message) (consumer : Str) (deliveries : ℕ) : Shared :=
  { s with group := some (.held m consumer s.now (deliveries + 1)) }

/-- A later worker claims the stale entry and begins to handle it. -/
theorem solo_run_claim (ha : Lenient allowed) {deliveries : ℕ} (h : Stale env s m deliveries)
    (hlive : (deliveries : ℤ) < env.cfg.pelMaxDeliveries)
    (hallowed : allowed .xpendingRange s (.ok [⟨m.id, deliveries⟩])) {consumer : Str}
    {q : Worker Unit} (hhandle : Solo ((world env).restrict allowed) (handleAll env [m])
      (s.claimed m consumer deliveries) q t) :
    ∃ q, Solo ((world env).restrict allowed) (run env consumer 1) s q t := by
  obtain ⟨holder, deliveredAt, hg, hidle⟩ := h.group
  have hinfos : [⟨m.id, deliveries⟩] = (Group.held m holder deliveredAt deliveries).pendingRange
      s.now env.cfg.pelMinIdleMs env.cfg.pelSweepBatch := by
    rw [← Int.toNat_of_nonneg h.minIdle, pendingRange_held hidle h.batch]
  have hclaimed : (Group.held m holder deliveredAt deliveries).claim s.stream s.now
      env.cfg.pelMinIdleMs consumer [m.id] = (.held m consumer s.now (deliveries + 1), [m]) := by
    rw [h.stream, ← Int.toNat_of_nonneg h.minIdle, claim_held hidle]
  have hclaim := solo_claimStale ha hg hinfos (by simp) (by simpa using hlive) hallowed consumer
  rw [List.map_singleton, hclaimed] at hclaim
  exact ⟨_, .bind (solo_ensureGroup_busy ha hg)
    (Solo.bind_left (Solo.bind hclaim.attempt (hhandle.bind_left fun _ => pure none)) _)⟩

/-- `quarantine_and_ack` of an entry that has no row yet. -/
theorem solo_quarantineAndAck (ha : Lenient allowed) {attempts : ℕ} {row : QuarantineRow}
    (hrow : quarantineRecord env m.id.text m.fields attempts = .ok row) (hfits : row.Fits)
    (free : ∀ q ∈ s.quarantined, q.stream_message_id ≠ row.stream_message_id) :
    Solo ((world env).restrict allowed) (quarantineAndAck env ⟨m.id, m.fields, attempts⟩) s
      (.ret true)
      ({ s with quarantined := s.quarantined ++ [row] }.ack m.id .quarantined) := by
  have hcommit : Solo ((world env).restrict allowed) (QuarantineSink.commit m.id row) s (.ret ())
      { s with quarantined := s.quarantined ++ [row] } :=
    .bind (solo_ask (.commitQuarantined hfits free) (ha _ _ _ id)).attempt (.here _ _)
  have hwrite : Solo ((world env).restrict allowed)
      (QuarantineSink.write env m.id m.fields attempts) s (.ret true)
      { s with quarantined := s.quarantined ++ [row] } := by
    unfold QuarantineSink.write
    rw [hrow, Prog.ofExcept_ok, Prog.ret_bind]
    exact .bind hcommit (.bind (solo_ask .alert (ha _ _ _ id)) (.here _ _))
  refine .bind (solo_ask .openSession (ha _ _ _ id)) (.bind (solo_withSession ha hwrite) ?_)
  exact .bind (solo_ask .xack (ha _ _ _ id)) (.bind (solo_ask .print (ha _ _ _ id)) (.here _ _))

/-- A later worker finds the stale entry at its delivery limit and quarantines it. -/
theorem solo_run_poison (ha : Lenient allowed) {deliveries : ℕ} {row : QuarantineRow}
    (h : Stale env s m deliveries) (hmax : env.cfg.pelMaxDeliveries ≤ deliveries)
    (hrow : quarantineRecord env m.id.text m.fields deliveries = .ok row) (hfits : row.Fits)
    (free : ∀ q ∈ s.quarantined, q.stream_message_id ≠ row.stream_message_id)
    (hallowed : allowed .xpendingRange s (.ok [⟨m.id, deliveries⟩])) (consumer : Str) :
    ∃ q, Solo ((world env).restrict allowed) (run env consumer 1) s q
      ({ s with
        condemned := s.condemned ++ [m.id]
        quarantined := s.quarantined ++ [row] }.ack m.id .quarantined) := by
  obtain ⟨holder, deliveredAt, hg, hidle⟩ := h.group
  have hinfos : [⟨m.id, deliveries⟩] = (Group.held m holder deliveredAt deliveries).pendingRange
      s.now env.cfg.pelMinIdleMs env.cfg.pelSweepBatch := by
    rw [← Int.toNat_of_nonneg h.minIdle, pendingRange_held hidle h.batch]
  have hentry : s.stream.filter (fun m' => m'.id = m.id) = [m] := by
    rw [h.stream]
    simp
  have hclaim := solo_claimStale_poison ha hg hinfos hmax hentry hallowed consumer
  have hquarantine := solo_quarantineAndAck (s := { s with condemned := s.condemned ++ [m.id] })
    ha hrow hfits free
  exact ⟨_, .bind (solo_ensureGroup_busy ha hg)
    (Solo.bind_left (Solo.bind hclaim.attempt
      (((hquarantine.bind_left _).bind_left _).bind_left _)) _)⟩

end SecurityAudit
