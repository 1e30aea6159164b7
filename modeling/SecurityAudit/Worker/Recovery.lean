import SecurityAudit.Prog.Visits
import SecurityAudit.Worker.Published
import SecurityAudit.Worker.Stuck

/-!
# Every entry can still be settled

Whatever has happened so far, with a valid record integrity key there is a way on in which every
entry of the stream is acknowledged and has its row, by nothing but workers and time
(`recoverable`): first everything is read, then each sweep either brings a pending row closer to
the limit or quarantines one that is at it. Excepted are the entries of `Message.Unencodable`, which
`unencodable_never_acked` is about, and those that do not fit the columns of the quarantine, its
counter of the deliveries included.
-/

namespace SecurityAudit

/-! ## How much is left to do -/

/-- The deliveries a row has left, and its quarantine. -/
def Pending.weight (limit : ℤ) (p : Pending) : ℕ := (limit - p.deliveries).toNat + 1

namespace Group

variable {g : Group} {stream : List Message} {now : ℕ} {minIdle limit : ℤ} {consumer : Str}
  {acc : Group × List Message} {id id' : StreamId} {ids : List StreamId}

/-- What the pending list has left. -/
def weight (limit : ℤ) (g : Group) : ℕ := (g.pel.map (Pending.weight limit)).sum

theorem weight_drop_le : (g.drop id).weight limit ≤ g.weight limit :=
  (List.filter_sublist.map _).sum_le_sum fun _ _ => Nat.zero_le _

theorem weight_drop_lt (h : g.Lists id) : (g.drop id).weight limit < g.weight limit := by
  obtain ⟨p, hp, rfl⟩ := h
  obtain ⟨before, after, hsplit⟩ := List.append_of_mem hp
  have hdrop : ((g.drop p.id).pel.map (Pending.weight limit)).sum ≤
      ((before ++ after).map (Pending.weight limit)).sum := by
    refine (List.Sublist.map _ ?_).sum_le_sum fun _ _ => Nat.zero_le _
    show (g.pel.filter fun q => q.id ≠ p.id).Sublist _
    rw [hsplit, List.filter_append, List.filter_cons_of_neg (by simp)]
    exact List.filter_sublist.append List.filter_sublist
  have hpos : 1 ≤ p.weight limit := Nat.le_add_left 1 _
  have hwhole : g.weight limit = ((before ++ after).map (Pending.weight limit)).sum +
      p.weight limit := by
    unfold weight
    rw [hsplit]
    simp only [List.map_append, List.map_cons, List.sum_append, List.sum_cons]
    omega
  unfold weight at hwhole ⊢
  omega

/-- One more delivery leaves no more to do. -/
theorem weight_delivered_le (p : Pending) :
    Pending.weight limit (if p.id = id then ⟨id, consumer, now, p.deliveries + 1⟩ else p) ≤
      p.weight limit := by
  split_ifs
  · unfold Pending.weight
    push_cast
    omega
  · exact le_refl _

theorem weight_reassign_le : (g.reassign now consumer id).weight limit ≤ g.weight limit := by
  unfold weight reassign
  rw [List.map_map]
  exact List.sum_le_sum fun p _ => weight_delivered_le p

theorem weight_reassign_lt (h : ∃ p ∈ g.pel, p.id = id ∧ (p.deliveries : ℤ) < limit) :
    (g.reassign now consumer id).weight limit < g.weight limit := by
  unfold weight reassign
  rw [List.map_map]
  refine List.sum_lt_sum _ _ (fun p _ => weight_delivered_le p) ?_
  obtain ⟨p, hp, hid, hlt⟩ := h
  refine ⟨p, hp, ?_⟩
  show Pending.weight limit (if p.id = id then _ else p) < p.weight limit
  rw [if_pos hid]
  unfold Pending.weight
  push_cast
  omega

/-- `XCLAIM` leaves no more to do, also apart from the rows of one id. -/
theorem weight_claimOne_le :
    (claimOne stream now minIdle consumer acc id').1.weight limit ≤ acc.1.weight limit := by
  obtain ⟨-, h⟩ | ⟨-, h⟩ | ⟨-, m, -, -, h⟩ :=
    claimOne_cases stream now minIdle consumer acc id' <;> rw [h]
  · exact weight_drop_le
  · exact weight_reassign_le

theorem drop_drop : (g.drop id).drop id' = (g.drop id').drop id := by
  unfold drop
  simp only [List.filter_filter, Bool.and_comm]

theorem drop_reassign : (g.reassign now consumer id').drop id =
    (g.drop id).reassign now consumer id' := by
  -- handing a row over keeps its id
  have hid : ∀ p : Pending, (if p.id = id' then (⟨id', consumer, now, p.deliveries + 1⟩ : Pending)
      else p).id = p.id := by
    intro p
    split_ifs with h
    · exact h.symm
    · rfl
  unfold drop reassign
  dsimp only
  rw [List.filter_map]
  congr 2
  refine List.filter_congr fun p _ => ?_
  show decide ((if p.id = id' then (⟨id', consumer, now, p.deliveries + 1⟩ : Pending)
    else p).id ≠ id) = decide (p.id ≠ id)
  rw [hid]

theorem weight_drop_claimOne_le :
    ((claimOne stream now minIdle consumer acc id').1.drop id).weight limit ≤
      (acc.1.drop id).weight limit := by
  obtain ⟨-, h⟩ | ⟨-, h⟩ | ⟨-, m, -, -, h⟩ :=
    claimOne_cases stream now minIdle consumer acc id' <;> rw [h]
  · rw [drop_drop]
    exact weight_drop_le
  · rw [drop_reassign]
    exact weight_reassign_le

theorem weight_foldl_le : ∀ acc : Group × List Message,
    (ids.foldl (claimOne stream now minIdle consumer) acc).1.weight limit ≤ acc.1.weight limit := by
  induction ids with
  | nil => exact fun acc => le_refl _
  | cons id' ids ih => exact fun acc => (ih _).trans weight_claimOne_le

theorem weight_drop_claim_le :
    ((g.claim stream now minIdle consumer ids).1.drop id).weight limit ≤
      (g.drop id).weight limit := by
  suffices H : ∀ acc : Group × List Message,
      ((ids.foldl (claimOne stream now minIdle consumer) acc).1.drop id).weight limit ≤
        (acc.1.drop id).weight limit from H (g, [])
  induction ids with
  | nil => exact fun acc => le_refl _
  | cons id' ids ih => exact fun acc => (ih _).trans weight_drop_claimOne_le

/-- An `XCLAIM` that begins with a stale row below the limit brings things forward. -/
theorem weight_claim_lt {p : Pending} (hp : p ∈ g.pel) (hidle : idle now minIdle p = true)
    (hlt : (p.deliveries : ℤ) < limit) :
    (g.claim stream now minIdle consumer (p.id :: ids)).1.weight limit < g.weight limit := by
  have hrest : (g.claim stream now minIdle consumer (p.id :: ids)).1.weight limit ≤
      (claimOne stream now minIdle consumer (g, []) p.id).1.weight limit := by
    unfold claim
    rw [List.foldl_cons]
    exact weight_foldl_le _
  refine hrest.trans_lt ?_
  obtain ⟨⟨-, hnot⟩, -⟩ | ⟨-, h⟩ | ⟨-, m, -, -, h⟩ :=
    claimOne_cases stream now minIdle consumer (g, []) p.id
  · exact absurd ⟨p, hp, rfl, hidle⟩ hnot
  · rw [h]
    exact weight_drop_lt ⟨p, hp, rfl⟩
  · rw [h]
    exact weight_reassign_lt ⟨p, hp, rfl, hlt⟩

/-! ## The delivery counts -/

/-- The delivery counts fit the column of the quarantine. -/
def Counts (g : Group) : Prop := ∀ p ∈ g.pel, p.deliveries ≤ 2147483647

theorem Counts.deliver (h : g.Counts) (now : ℕ) (consumer : Str) (new : List Message) :
    (g.deliver now consumer new).Counts := by
  intro p hp
  rcases List.mem_append.mp hp with hp | hp
  · exact h p hp
  · obtain ⟨m, -, rfl⟩ := List.mem_map.mp hp
    show 1 ≤ 2147483647
    omega

theorem Counts.drop (h : g.Counts) (id : StreamId) : (g.drop id).Counts :=
  fun p hp => h p (List.mem_of_mem_filter hp)

/-- A sweep claims rows below the limit, each once. -/
theorem Counts.claim (h : g.Counts) (hlisting : g.Listing) {cfg : AuditConfig}
    (hlimit : cfg.pelMaxDeliveries ≤ 2147483647) {infos : List PendingInfo} {count : ℕ}
    (hinfos : infos = g.pendingRange now minIdle count) (stream : List Message) (consumer : Str) :
    (g.claim stream now minIdle consumer
      ((reclaimableOf cfg infos).map PendingInfo.message_id)).1.Counts := by
  have hnodup : ((reclaimableOf cfg infos).map PendingInfo.message_id).Nodup := by
    have hall : (infos.map PendingInfo.message_id).Nodup :=
      hinfos ▸ hlisting.nodup_pendingRange now minIdle count
    exact hall.sublist (List.filter_sublist.map _)
  intro p' hp'
  have hclaimed := claimed_claim g stream now minIdle consumer p'.id
    ((reclaimableOf cfg infos).map PendingInfo.message_id)
  obtain ⟨p, hp, hid, hdeliveries, -⟩ := hclaimed.counted p' hp' rfl
  have honce := List.nodup_iff_count_le_one.mp hnodup p'.id
  have hnamed := hclaimed.named
  by_cases hcount : ((reclaimableOf cfg infos).map PendingInfo.message_id).count p'.id = 0
  · have := h p hp
    omega
  · -- the row that is claimed is the one that was listed, and that was below the limit
    have hmem := List.count_pos_iff.mp (Nat.pos_of_ne_zero hcount)
    obtain ⟨info, hinfo, hinfoId⟩ := List.mem_map.mp hmem
    obtain ⟨hlisted, hbelow⟩ := List.mem_filter.mp hinfo
    rw [hinfos] at hlisted
    obtain ⟨p₀, hp₀, rfl⟩ := List.mem_map.mp hlisted
    have hsame : p = p₀ := List.inj_on_of_nodup_map hlisting.ids hp
      (List.mem_of_mem_filter (List.mem_of_mem_take hp₀)) (hid.trans hinfoId.symm)
    have hlt : (p.deliveries : ℤ) < cfg.pelMaxDeliveries := by
      rw [hsame]
      exact of_decide_eq_true hbelow
    omega

end Group

variable {env : Env} {s t : Shared} {g : Group} {consumer : Str}

/-! ## What a worker that is left alone can do -/

variable (env) in
/-- The world in which nothing happens besides the workers but time. -/
def ticking : World workerSig Shared where
  answers := Answers env
  drift s t := ∃ ms, t = { s with now := s.now + ms }

variable (env) in
/-- Workers and time can bring the state from the one to the other. -/
abbrev Leads : Shared → Shared → Prop := Visits (ticking env) (IsWorker env)

theorem leads_run (consumer : Str) (n : ℕ) {q : Worker Unit}
    (h : Solo ((world env).restrict everything) (run env consumer n) s q t) : Leads env s t :=
  .single (.solo (Solo.mono And.left h) ⟨consumer, n, rfl⟩)

theorem leads_tick (s : Shared) (ms : ℕ) : Leads env s { s with now := s.now + ms } :=
  .single (.drift ⟨ms, rfl⟩)

/-- A first worker creates the group. -/
theorem leads_group (hg : s.group = none) : Leads env s { s with group := some .fresh } := by
  have hgroup : Solo ((world env).restrict everything) StreamReader.ensureGroup s (.ret ())
      { s with group := some .fresh } := solo_ensureGroup_new lenient_everything hg
  exact leads_run [] 0 (hgroup.bind_left _)

/-- A sweep whose `XPENDING` fails does nothing. -/
theorem solo_sweepPending_refused (s : Shared) (consumer : Str) (last : LastAttempt) :
    Solo ((world env).restrict everything) (sweepPending env consumer last) s (.ret last) s := by
  have hask : Solo ((world env).restrict everything) (ask .xpendingRange) s
      (.raise .redisError) s := solo_raise (.transport (.inl rfl)) trivial
  have hclaim : Solo ((world env).restrict everything) (StreamReader.claimStale env.cfg consumer) s
      (.raise .redisError) s := hask.bind_left _
  exact .bind hclaim.attempt (.bind (solo_ask .print trivial) (.here _ _))

/-- A worker reads what the next group read hands out, and is killed. -/
theorem leads_read (hg : s.group = some g) : Leads env s
    { s with group := some (g.deliver s.now [] (g.newMessages s.stream)) } := by
  have hread : Solo ((world env).restrict everything) (readNew env [] none) s (.ret _) _ :=
    solo_readNew lenient_everything hg [] none
  exact leads_run [] 1 (.bind (solo_ensureGroup_busy lenient_everything hg)
    (.bind (solo_sweepPending_refused s [] none) (hread.bind_left _)))

/-- The loop that reads the poison entries. -/
def Shared.poisonEntry (s : Shared) (info : PendingInfo) : StreamReader.PoisonEntry :=
  ⟨info.message_id, StreamReader.fieldsOfRange (s.stream.filter fun m => m.id = info.message_id),
    info.times_delivered⟩

theorem solo_fetchPoison (s : Shared) (infos : List PendingInfo) :
    Solo ((world env).restrict everything) (StreamReader.fetchPoison infos) s
      (.ret (infos.map s.poisonEntry)) s := by
  induction infos with
  | nil => exact .here _ _
  | cons info infos ih =>
    exact .bind (solo_ask .xrange trivial) (.bind ih (.here _ _))

/-- The state after `claim_stale` found `infos`. -/
def Shared.swept (env : Env) (s : Shared) (g : Group) (consumer : Str)
    (infos : List PendingInfo) : Shared :=
  { s with
    condemned := s.condemned ++ poisonIds env.cfg infos
    group := some (g.claim s.stream s.now env.cfg.pelMinIdleMs consumer
      ((reclaimableOf env.cfg infos).map PendingInfo.message_id)).1 }

theorem solo_claimStale_found {infos : List PendingInfo} (hg : s.group = some g)
    (hinfos : infos = g.pendingRange s.now env.cfg.pelMinIdleMs env.cfg.pelSweepBatch)
    (hne : infos ≠ []) (consumer : Str) : ∃ claimed,
    Solo ((world env).restrict everything) (StreamReader.claimStale env.cfg consumer) s
      (.ret (claimed, (poisonOf env.cfg infos).map s.poisonEntry))
      (s.swept env g consumer infos) := by
  have hlist : Solo ((world env).restrict everything) (ask .xpendingRange) s (.ret infos)
      { s with condemned := s.condemned ++ poisonIds env.cfg infos } :=
    solo_ask (.xpendingRange hg hinfos) trivial
  let s₁ : Shared := { s with condemned := s.condemned ++ poisonIds env.cfg infos }
  have hempty : infos.isEmpty = false := by simpa using hne
  have hfetch : Solo ((world env).restrict everything)
      (StreamReader.fetchPoison (poisonOf env.cfg infos)) s₁
      (.ret ((poisonOf env.cfg infos).map s.poisonEntry)) s₁ := solo_fetchPoison s₁ _
  by_cases hnone : reclaimableOf env.cfg infos = []
  · -- everything is at the limit, and no `XCLAIM` is sent
    have hsame : s.swept env g consumer infos = s₁ := by
      unfold Shared.swept
      rw [hnone]
      show { s₁ with group := some g } = s₁
      rw [← hg]
    have hskip : (infos.filter fun e =>
        decide ((e.times_delivered : ℤ) < env.cfg.pelMaxDeliveries)).isEmpty = true :=
      List.isEmpty_iff.mpr hnone
    rw [hsame]
    refine ⟨[], .bind hlist ?_⟩
    rw [if_neg (by simp [hempty])]
    refine .bind hfetch ?_
    rw [if_pos hskip]
    exact .here _ _
  · have hask : (infos.filter fun e =>
        decide ((e.times_delivered : ℤ) < env.cfg.pelMaxDeliveries)).isEmpty = false := by
      simpa [reclaimableOf] using hnone
    have hclaim : Solo ((world env).restrict everything) (ask (.xclaim consumer
        ((reclaimableOf env.cfg infos).map PendingInfo.message_id))) s₁ (.ret _)
        (s.swept env g consumer infos) := solo_ask (.xclaim hg) trivial
    refine ⟨(g.claim s.stream s.now env.cfg.pelMinIdleMs consumer
      ((reclaimableOf env.cfg infos).map PendingInfo.message_id)).2, .bind hlist ?_⟩
    rw [if_neg (by simp [hempty])]
    refine .bind hfetch ?_
    rw [if_neg (by simp [hask])]
    exact .bind hclaim (.here _ _)

/-- `quarantine_and_ack` of an entry that has a row to write, whether it is there already or
not. -/
theorem solo_quarantineAndAck_any (s : Shared) {entry : StreamReader.PoisonEntry}
    {row : QuarantineRow} (hrow : quarantineRecord env entry.message_id.text entry.fields
      entry.delivery_attempts = .ok row) (hfits : row.Fits) :
    ∃ quarantined, Solo ((world env).restrict everything) (quarantineAndAck env entry) s
      (.ret true) ({ s with quarantined := quarantined }.ack entry.message_id .quarantined) := by
  obtain ⟨quarantined, hcommit⟩ : ∃ quarantined, Solo ((world env).restrict everything)
      (QuarantineSink.commit entry.message_id row) s (.ret ())
      { s with quarantined := quarantined } := by
    by_cases hfree : ∀ q ∈ s.quarantined, q.stream_message_id ≠ row.stream_message_id
    · exact ⟨_, .bind (solo_ask (.commitQuarantined hfits hfree) trivial).attempt (.here _ _)⟩
    · simp only [not_forall, not_not] at hfree
      obtain ⟨q, hq, hid⟩ := hfree
      -- the row is there: nothing is written, and that counts as success
      exact ⟨s.quarantined, .bind (solo_raise (.duplicateQuarantined hq hid) trivial).attempt
        (solo_ask .rollback trivial)⟩
  have hwrite : Solo ((world env).restrict everything)
      (QuarantineSink.write env entry.message_id entry.fields entry.delivery_attempts) s
      (.ret true) { s with quarantined := quarantined } := by
    unfold QuarantineSink.write
    rw [hrow, Prog.ofExcept_ok, Prog.ret_bind]
    exact .bind hcommit (.bind (solo_ask .alert trivial) (.here _ _))
  refine ⟨quarantined, .bind (solo_ask .openSession trivial)
    (.bind (solo_withSession lenient_everything hwrite) ?_)⟩
  exact .bind (solo_ask .xack trivial) (.bind (solo_ask .print trivial) (.here _ _))

/-! ## One thing after the other -/

/-- The group has come to every entry of the stream. -/
structure Shared.Read (s : Shared) (g : Group) : Prop where
  group : s.group = some g
  passed : ∀ m ∈ s.stream, g.Passed m.id
  listing : g.Listing
  counts : g.Counts

/-- A group read with something to read leaves less to read. -/
theorem unread_deliver_lt {stream : List Message} {m : Message} (hm : m ∈ stream)
    (hnew : g.lastDelivered < m.id) (now : ℕ) (consumer : Str) :
    ((g.deliver now consumer (g.newMessages stream)).unread stream).length <
      (g.unread stream).length := by
  have hne : g.newMessages stream ≠ [] := by
    have hmem : m ∈ stream.filter fun m => g.lastDelivered < m.id :=
      List.mem_filter.mpr ⟨hm, decide_eq_true hnew⟩
    cases hfilter : stream.filter fun m => g.lastDelivered < m.id with
    | nil =>
      rw [hfilter] at hmem
      cases hmem
    | cons first others =>
      unfold Group.newMessages
      rw [hfilter]
      exact List.cons_ne_nil _ _
  obtain ⟨last, hlast⟩ : ∃ last, (g.newMessages stream).getLast? = some last :=
    ⟨_, List.getLast?_eq_some_getLast hne⟩
  have hmem : last ∈ g.newMessages stream := List.mem_of_getLast? hlast
  have hcursor : (g.deliver now consumer (g.newMessages stream)).lastDelivered = last.id := by
    show ((g.newMessages stream).getLast?.map Message.id).getD g.lastDelivered = _
    rw [hlast]
    rfl
  have hlt : g.lastDelivered < last.id := Group.lt_of_mem_newMessages hmem
  -- what is unread afterwards was unread before, and the last one that was read is not among it
  have hsplit : stream.filter (fun m => last.id < m.id) =
      (stream.filter fun m => g.lastDelivered < m.id).filter fun m => last.id < m.id := by
    rw [List.filter_filter]
    refine List.filter_congr fun m' _ => ?_
    by_cases h : last.id < m'.id
    · simp [h, hlt.trans h]
    · simp [h]
  unfold Group.unread
  rw [hcursor, hsplit, List.length_filter_lt_length_iff_exists]
  exact ⟨last, List.mem_of_mem_take hmem, by simp⟩

/-- Everything can be read. -/
theorem leads_read_all (hsorted : s.stream.Pairwise fun a b => a.id < b.id)
    (hg : s.group = some g) (hlisting : g.Listing) (hcounts : g.Counts) :
    ∃ t g', Leads env s t ∧ t.stream = s.stream ∧ t.Read g' := by
  have hstep : ∀ t : Shared,
      (t.stream = s.stream ∧ ∃ g, t.group = some g ∧ g.Listing ∧ g.Counts) → (∃ g, t.Read g) ∨
      ∃ u, Leads env t u ∧
        (u.stream = s.stream ∧ ∃ g, u.group = some g ∧ g.Listing ∧ g.Counts) ∧
        (u.group.map fun g => (g.unread u.stream).length).getD 0 <
          (t.group.map fun g => (g.unread t.stream).length).getD 0 := by
    rintro t ⟨hstream, g, hg, hlisting, hcounts⟩
    by_cases hall : ∀ m ∈ t.stream, g.Passed m.id
    · exact .inl ⟨g, hg, hall, hlisting, hcounts⟩
    · simp only [not_forall] at hall
      obtain ⟨m, hm, hnew⟩ := hall
      have hlisting' := hlisting.deliver (hstream ▸ hsorted) t.now []
      refine .inr ⟨_, leads_read hg, ⟨hstream, _, rfl, hlisting', hcounts.deliver _ _ _⟩, ?_⟩
      rw [hg]
      exact unread_deliver_lt hm (not_le.mp hnew) t.now []
  obtain ⟨t, hlead, ⟨hstream, -⟩, g', hread⟩ := Visits.descend _ hstep
    ⟨rfl, g, hg, hlisting, hcounts⟩
  exact ⟨t, g', hlead, hstream, hread⟩

/-- Whatever is poison can be written to the quarantine. -/
def Shared.Quarantinable (env : Env) (stream : List Message) : Prop :=
  ∀ (id : StreamId) (attempts : ℕ), attempts ≤ 2147483647 → ∃ row, quarantineRecord env id.text
    (StreamReader.fieldsOfRange (stream.filter fun m => m.id = id)) attempts = .ok row ∧ row.Fits

/-- A pending list that is not empty can be brought forward: its first row is claimed once more, or
quarantined. -/
theorem leads_forward (hbatch : 0 < env.cfg.pelSweepBatch)
    (hmax : env.cfg.pelMaxDeliveries ≤ 2147483647)
    (hquarantinable : Shared.Quarantinable env s.stream) (hread : s.Read g) (hne : g.pel ≠ []) :
    ∃ t g', Leads env s t ∧ t.stream = s.stream ∧ t.Read g' ∧
      g'.weight env.cfg.pelMaxDeliveries < g.weight env.cfg.pelMaxDeliveries := by
  obtain ⟨hg, hpassed, hlisting, hcounts⟩ := hread
  obtain ⟨p, rest, hpel⟩ := List.exists_cons_of_ne_nil hne
  have hp : p ∈ g.pel := hpel ▸ List.mem_cons_self
  -- first the time passes that makes the row stale
  let s₁ : Shared := { s with now := s.now + (p.deliveredAt + env.cfg.pelMinIdleMs.toNat) }
  have hidle : Group.idle s₁.now env.cfg.pelMinIdleMs p = true := by
    rw [Group.idle, decide_eq_true_eq]
    show env.cfg.pelMinIdleMs ≤
      ((s.now + (p.deliveredAt + env.cfg.pelMinIdleMs.toNat) : ℕ) : ℤ) - p.deliveredAt
    omega
  obtain ⟨more, hinfos⟩ : ∃ more, g.pendingRange s₁.now env.cfg.pelMinIdleMs
      env.cfg.pelSweepBatch = ⟨p.id, p.deliveries⟩ :: more := by
    obtain ⟨count, hcount⟩ := Nat.exists_eq_succ_of_ne_zero hbatch.ne'
    unfold Group.pendingRange
    rw [hpel, hcount, List.filter_cons_of_pos hidle, List.take_succ_cons, List.map_cons]
    exact ⟨_, rfl⟩
  have hg₁ : s₁.group = some g := hg
  obtain ⟨claimed, hclaim⟩ := solo_claimStale_found hg₁ hinfos.symm (List.cons_ne_nil _ _) []
  have hbusy : Solo ((world env).restrict everything) StreamReader.ensureGroup s₁ (.ret ()) s₁ :=
    solo_ensureGroup_busy lenient_everything hg₁
  have hcursor : ∀ ids, (g.claim s₁.stream s₁.now env.cfg.pelMinIdleMs [] ids).1.lastDelivered =
      g.lastDelivered := fun ids => Group.claim_lastDelivered g _ _ _ _ ids
  have hlisting' : ∀ ids, (g.claim s₁.stream s₁.now env.cfg.pelMinIdleMs [] ids).1.Listing :=
    fun ids => hlisting.claim _ _ _ _ ids
  have hcounts' := hcounts.claim hlisting hmax hinfos.symm s₁.stream []
  by_cases hlimit : env.cfg.pelMaxDeliveries ≤ p.deliveries
  · -- at the limit: it is the first of the poison rows, and is quarantined
    have hpoison : poisonOf env.cfg (⟨p.id, p.deliveries⟩ :: more) =
        ⟨p.id, p.deliveries⟩ :: poisonOf env.cfg more :=
      List.filter_cons_of_pos (decide_eq_true hlimit)
    rw [hpoison, List.map_cons] at hclaim
    let entry : StreamReader.PoisonEntry := s₁.poisonEntry ⟨p.id, p.deliveries⟩
    obtain ⟨row, hrow, hfits⟩ : ∃ row, quarantineRecord env entry.message_id.text entry.fields
      entry.delivery_attempts = .ok row ∧ row.Fits := hquarantinable p.id p.deliveries (hcounts p hp)
    obtain ⟨quarantined, hack⟩ := solo_quarantineAndAck_any
      (s₁.swept env g [] (⟨p.id, p.deliveries⟩ :: more)) hrow hfits
    have hrun := leads_run [] 1 (.bind hbusy (Solo.bind_left (Solo.bind hclaim.attempt
      (((hack.bind_left _).bind_left _).bind_left _)) _))
    refine ⟨_, _, (leads_tick s _).trans hrun, rfl,
      ⟨rfl, fun m hm => ?_, (hlisting' _).ack _, hcounts'.drop _⟩, ?_⟩
    · show m.id ≤ _
      exact (hpassed m hm).trans (hcursor _).ge
    · exact Group.weight_drop_claim_le.trans_lt (Group.weight_drop_lt ⟨p, hp, rfl⟩)
  · -- below the limit: it is the first of the rows that are claimed
    have hlt : (p.deliveries : ℤ) < env.cfg.pelMaxDeliveries := not_le.mp hlimit
    have hreclaimable : reclaimableOf env.cfg (⟨p.id, p.deliveries⟩ :: more) =
        ⟨p.id, p.deliveries⟩ :: reclaimableOf env.cfg more :=
      List.filter_cons_of_pos (decide_eq_true hlt)
    have hrun := leads_run [] 1 (.bind hbusy (Solo.bind_left (hclaim.attempt.bind_left _) _))
    refine ⟨_, _, (leads_tick s _).trans hrun, rfl,
      ⟨rfl, fun m hm => ?_, hlisting' _, hcounts'⟩, ?_⟩
    · show m.id ≤ _
      exact (hpassed m hm).trans (hcursor _).ge
    · rw [hreclaimable, List.map_cons]
      exact Group.weight_claim_lt hp hidle hlt

/-- Everything that is pending can be settled. -/
theorem leads_settle (hbatch : 0 < env.cfg.pelSweepBatch)
    (hmax : env.cfg.pelMaxDeliveries ≤ 2147483647)
    (hquarantinable : Shared.Quarantinable env s.stream) (hread : s.Read g) :
    ∃ t g', Leads env s t ∧ t.stream = s.stream ∧ t.Read g' ∧ g'.pel = [] := by
  have hstep : ∀ t : Shared, (t.stream = s.stream ∧ ∃ g, t.Read g) →
      (∃ g, t.Read g ∧ g.pel = []) ∨ ∃ u, Leads env t u ∧
        (u.stream = s.stream ∧ ∃ g, u.Read g) ∧
        (u.group.map (Group.weight env.cfg.pelMaxDeliveries)).getD 0 <
          (t.group.map (Group.weight env.cfg.pelMaxDeliveries)).getD 0 := by
    rintro t ⟨hstream, g, hread⟩
    by_cases hpel : g.pel = []
    · exact .inl ⟨g, hread, hpel⟩
    · obtain ⟨u, g', hlead, hsame, hread', hlt⟩ :=
        leads_forward hbatch hmax (hstream ▸ hquarantinable) hread hpel
      refine .inr ⟨u, hlead, ⟨hsame.trans hstream, g', hread'⟩, ?_⟩
      rw [hread'.group, hread.group]
      exact hlt
  obtain ⟨t, hlead, ⟨hstream, -⟩, g', hread', hpel⟩ := Visits.descend _ hstep ⟨rfl, g, hread⟩
  exact ⟨t, g', hlead, hstream, hread', hpel⟩

/-! ## What can be quarantined -/

/-- The text of the fields was decoded from UTF-8. -/
def Message.Decoded (m : Message) : Prop :=
  (∀ text ∈ m.fields.get "data", JVal.Clean text) ∧ ∀ text ∈ m.fields.get "sig", JVal.Clean text

/-- The columns of the quarantine can take the payload, its signature and its service. -/
def Message.Fits (m : Message) : Prop :=
  (∀ text ∈ m.fields.get "data", FitsText text) ∧ (∀ text ∈ m.fields.get "sig", FitsText text) ∧
    ∀ service ∈ (classifyPoisonReason (m.fields.get "data")).service, service.length ≤ 255

instance : DecidablePred Message.Fits := fun m => by unfold Message.Fits; infer_instance

theorem clean_text (id : StreamId) : JVal.Clean id.text := by
  have hdigits : ∀ n, JVal.Clean (natText n) := by
    intro n c hc
    have hdigit := of_decide_eq_true (isDigit_of_mem_natText hc)
    rw [isSurrogate, decide_eq_false_iff_not]
    omega
  unfold StreamId.text
  rw [clean_append, clean_cons]
  exact ⟨hdigits _, isSurrogate_cp '-', hdigits _⟩

/-- The diagnosis is plain text, but for the service. -/
theorem clean_diagnosis (raw : Option Str) :
    JVal.Clean (classifyPoisonReason raw).failure_category ∧
      ∀ detail ∈ (classifyPoisonReason raw).failure_detail, JVal.Clean detail := by
  unfold classifyPoisonReason
  split
  · exact ⟨clean_str _, by rintro _ ⟨⟩; exact clean_str _⟩
  · split
    · next e _ =>
      refine ⟨clean_str _, ?_⟩
      rintro _ ⟨⟩
      cases e <;> exact clean_str _
    · exact ⟨clean_str _, by rintro _ ⟨⟩⟩
    · exact ⟨clean_str _, by rintro _ ⟨⟩; exact clean_str _⟩

/-- The diagnosis fits its columns, but for the service. -/
theorem fits_diagnosis (raw : Option Str) :
    (classifyPoisonReason raw).failure_category.length ≤ 32 ∧
      ∀ detail ∈ (classifyPoisonReason raw).failure_detail, detail.length ≤ 255 := by
  have hmalformed : (str "malformed").length ≤ 32 := by decide
  have hexhausted : (str "persistence_exhausted").length ≤ 32 := by decide
  unfold classifyPoisonReason
  split
  · exact ⟨hmalformed, by rintro _ ⟨⟩; decide⟩
  · split
    · next e _ =>
      refine ⟨hmalformed, ?_⟩
      rintro _ ⟨⟩
      cases e <;> decide
    · exact ⟨hexhausted, by rintro _ ⟨⟩⟩
    · exact ⟨hmalformed, by rintro _ ⟨⟩; decide⟩

open RecordIntegrity in
/-- With a valid key, whatever was decoded, has a `service` that can be encoded and fits the columns
can be quarantined. -/
theorem quarantineRecord_isOk {key keyId : Str} {m : Message}
    (hkey : env.cfg.requireRecordIntegrityKey = .ok (key, keyId)) (hdecoded : m.Decoded)
    (hencodable : ¬m.Unencodable) (hfits : m.Fits) (id : StreamId) {attempts : ℕ}
    (hattempts : attempts ≤ 2147483647) :
    ∃ row, quarantineRecord env id.text m.fields attempts = .ok row ∧ row.Fits := by
  obtain ⟨-, -, hformat, -, bytes, hbytes, -⟩ := AuditConfig.requireRecordIntegrityKey_spec hkey
  obtain ⟨hcategory, hdetail⟩ := clean_diagnosis (m.fields.get "data")
  have hservice : ∀ service ∈ (classifyPoisonReason (m.fields.get "data")).service,
      JVal.Clean service := by
    intro service hmem
    by_contra hdirty
    unfold classifyPoisonReason at hmem
    split at hmem
    · cases hmem
    · next raw hdata =>
      split at hmem
      · cases hmem
      · next kvs hloads =>
        -- only an object has a service, and its service is what was said to be encodable
        refine hencodable ⟨raw, kvs, service, hdata, hloads, ?_, hdirty⟩
        have hread : serviceOf kvs = some service := hmem
        unfold serviceOf at hread
        split at hread
        · next hlookup => rw [hlookup, Option.some.inj hread]
        · cases hread
      · cases hmem
  have hcanonical : (poisonRow id.text m.fields attempts).record.Canonical
      quarantineRecordFieldNames key (some keyId) := by
    refine ⟨encode_isOk.mp ⟨bytes, hbytes⟩, by simpa using clean_keyId hformat, ?_⟩
    simp only [quarantineRecordFieldNames, List.forall_mem_cons]
    refine ⟨?_, ?_, ?_, ?_, ?_, ?_, ?_, by simp⟩
    · exact fun s hs => Option.mem_some_iff.mp hs ▸ clean_text id
    · exact hdecoded.1
    · exact hdecoded.2
    · exact hservice
    · exact fun s hs => Option.mem_some_iff.mp hs ▸ hcategory
    · exact hdetail
    · trivial
  obtain ⟨hash, hhash⟩ := (recordHash_isOk env.crypto false).mpr hcanonical
  refine ⟨_, bind_eq_ok.mpr ⟨(key, keyId), hkey, bind_eq_ok.mpr ⟨hash, hhash, rfl⟩⟩, ?_⟩
  obtain ⟨hdata, hsig, hlength⟩ := hfits
  obtain ⟨hcategory, hdetail⟩ := fits_diagnosis (m.fields.get "data")
  have hcount : (attempts : ℤ) ≤ 2147483647 := by omega
  exact ⟨hdata, hsig, hlength, hcategory, hdetail, hcount,
    fun s hs => Option.mem_some_iff.mp hs ▸ length_keyId hformat⟩

/-- An entry that is not in the stream any more can be quarantined as an empty one. -/
theorem quarantinable_of_encodable {key keyId : Str} {stream : List Message}
    (hkey : env.cfg.requireRecordIntegrityKey = .ok (key, keyId))
    (hdecoded : ∀ m ∈ stream, m.Decoded) (hencodable : ∀ m ∈ stream, ¬m.Unencodable)
    (hfits : ∀ m ∈ stream, m.Fits) : Shared.Quarantinable env stream := by
  intro id attempts hattempts
  cases hrange : stream.filter fun m => m.id = id with
  | nil =>
    have hempty : (⟨id, []⟩ : Message).Decoded := ⟨by rintro _ ⟨⟩, by rintro _ ⟨⟩⟩
    have hfits : (⟨id, []⟩ : Message).Fits := ⟨by rintro _ ⟨⟩, by rintro _ ⟨⟩, by rintro _ ⟨⟩⟩
    refine quarantineRecord_isOk hkey hempty ?_ hfits id hattempts
    rintro ⟨raw, kvs, service, hdata, -⟩
    cases hdata
  | cons m others =>
    have hm : m ∈ stream := List.mem_of_mem_filter (hrange ▸ List.mem_cons_self)
    exact quarantineRecord_isOk hkey (hdecoded m hm) (hencodable m hm) (hfits m hm) id hattempts

/-- **Every entry can still be settled.** From every configuration that a run of any number of
workers leads to, with a valid record integrity key, workers and time alone can bring about a state
in which every entry of the stream is acknowledged and has its row, as long as the `service` of each
can be encoded, the quarantine has room for each, and its counter for the limit and for the counts
there are. -/
theorem recoverable {cfg : Config workerSig Shared Unit} {key keyId : Str}
    (h : Reach (world env) (IsWorker env) (Config.idle Shared.initial) cfg)
    (hkey : env.cfg.requireRecordIntegrityKey = .ok (key, keyId))
    (hbatch : 0 < env.cfg.pelSweepBatch) (hmax : env.cfg.pelMaxDeliveries ≤ 2147483647)
    (hdecoded : ∀ m ∈ cfg.state.stream, m.Decoded)
    (hencodable : ∀ m ∈ cfg.state.stream, ¬m.Unencodable) (hfits : ∀ m ∈ cfg.state.stream, m.Fits)
    (hcounts : ∀ g, cfg.state.group = some g → g.Counts) :
    ∃ cfg', Reach (ticking env) (IsWorker env) cfg cfg' ∧ cfg'.state.stream = cfg.state.stream ∧
      ∀ m ∈ cfg.state.stream, cfg'.state.Acked m.id ∧ cfg'.state.Evidenced env m := by
  obtain ⟨-, hconserved⟩ := conserved_rows ⟨cfg, h, rfl⟩
  obtain ⟨s, g, hlead, hstream, hg, hlisting, hcount⟩ : ∃ s g, Leads env cfg.state s ∧
      s.stream = cfg.state.stream ∧ s.group = some g ∧ g.Listing ∧ g.Counts := by
    cases hg : cfg.state.group with
    | none => exact ⟨_, _, leads_group hg, rfl, rfl, Group.listing_fresh, by rintro p ⟨⟩⟩
    | some g => exact ⟨_, g, .refl, rfl, hg, hconserved.listing g hg, hcounts g hg⟩
  obtain ⟨t, g₁, hlead₁, hstream₁, hread⟩ :=
    leads_read_all (hstream ▸ hconserved.sorted) hg hlisting hcount
  have hsame : t.stream = cfg.state.stream := hstream₁.trans hstream
  obtain ⟨u, g₂, hlead₂, hstream₂, ⟨hg₂, hpassed, -, -⟩, hpel⟩ := leads_settle hbatch hmax
    (hsame ▸ quarantinable_of_encodable hkey hdecoded hencodable hfits) hread
  have hsame₂ : u.stream = cfg.state.stream := hstream₂.trans hsame
  -- slot 0 is made free, and the other processes are left where they are
  have hfree : (cfg.setProc 0 none).procs 0 = none := cfg.setProc_self 0 none
  have hrun : Reach (ticking env) (IsWorker env) (cfg.setProc 0 none)
      ((cfg.setProc 0 none).setState u) :=
    Visits.reach ((hlead.trans hlead₁).trans hlead₂) hfree
  have hall : Reach (ticking env) (IsWorker env) cfg ((cfg.setProc 0 none).setState u) :=
    .head (.crash 0) hrun
  refine ⟨_, hall, hsame₂, fun m hm => ?_⟩
  have hreach : Reachable env u := by
    refine ⟨_, h.trans (Reach.mono (W := ticking env) (V := world env) (fun ha => ha) ?_ hall), rfl⟩
    rintro s _ ⟨ms, rfl⟩
    exact .tick ms
  obtain ⟨hi, hkept⟩ := conserved_rows hreach
  have hm' : m ∈ u.stream := hsame₂.symm ▸ hm
  have hacked : u.Acked m.id := by
    rcases hkept.kept m hm' with hacked | hholds
    · exact hacked
    · -- the group has come to it, and nothing is pending
      rcases hholds g₂ hg₂ with hunread | ⟨p, hp, -⟩
      · exact absurd (hpassed m hm') (not_le.mpr hunread)
      · rw [hpel] at hp
        cases hp
  exact ⟨hacked, hi.evidenced (hi.stream m hm') hacked⟩

/-- An entry whose row can be written can also be quarantined. -/
theorem Recorded.encodable {m : Message} {e : AuditEvent} {stored : AuditRow}
    (h : Recorded env m e stored) : ¬m.Unencodable := by
  obtain ⟨row, hrow, -⟩ := h.writes
  exact fun hbad => hbad.sinkRecord_ne_ok h.parses _ row hrow

/-- The worker that wrote the row was killed before the acknowledgement, which is made up for. -/
theorem recoverable_unsigned : ∃ cfg : Config workerSig Shared Unit,
    Reach (world Sample.env) (IsWorker Sample.env) (Config.idle Shared.initial) cfg ∧
    Sample.forged ∈ cfg.state.stream ∧ cfg.state.acked = [] ∧
    ∃ cfg', Reach (ticking Sample.env) (IsWorker Sample.env) cfg cfg' ∧
      cfg'.state.stream = cfg.state.stream ∧ ∀ m ∈ cfg.state.stream,
        cfg'.state.Acked m.id ∧ cfg'.state.Evidenced Sample.env m := by
  obtain ⟨e, stored, h, -⟩ := Sample.recorded_forged
  have hquiet : Quiet Sample.env everything _ := Quiet.written lenient_everything h (by decide)
    (fun _ _ => trivial) (fun _ _ _ => trivial) (str "worker-1")
  have hreach := Reach.of_restrict hquiet
  have hkey : Sample.env.cfg.requireRecordIntegrityKey =
      .ok (str "0123456789abcdef0123456789abcdef", str "2026-01") := by decide +kernel
  have hdecoded : Sample.forged.Decoded := by
    have hdata : Sample.forged.fields.get "data" = some Sample.forgedData := by decide +kernel
    have hsig : Sample.forged.fields.get "sig" = none := by decide +kernel
    refine ⟨fun text htext => ?_, fun text htext => ?_⟩
    · rw [hdata] at htext
      rw [← Option.mem_some_iff.mp htext]
      exact clean_str _
    · rw [hsig] at htext
      cases htext
  have hfits : Sample.forged.Fits := by decide +kernel
  refine ⟨_, hreach, List.mem_singleton.mpr rfl, rfl,
    recoverable hreach hkey (by decide) (by decide) ?_ ?_ ?_ ?_⟩
  · intro m hm
    rw [List.mem_singleton.mp hm]
    exact hdecoded
  · intro m hm
    rw [List.mem_singleton.mp hm]
    exact h.encodable
  · intro m hm
    rw [List.mem_singleton.mp hm]
    exact hfits
  · rintro g ⟨⟩ p hp
    rw [List.mem_singleton.mp hp]
    decide

end SecurityAudit
