import SecurityAudit.Worker.Reclaim

/-!
# One rule for the worker loop

The loop passes entries on: what a group read or a claim returns goes to `handle_message`, what a
sweep finds at its limit goes to `quarantine_and_ack`. A contract that says of each kind of entry
what these functions need, by facts that nobody can undo, is kept by every worker
(`LoopRule.worker`).
-/

namespace SecurityAudit

/-- What has to be shown of the parts for a contract to be kept by the loop. `Row` is a fact about
the rows of the pending list, `Known` one about entries to handle, `Poison` one about entries to
quarantine. -/
structure LoopRule {S : Type} (env : Env) (K : Contract workerSig S)
    (Row : PendingInfo → S → Prop) (Known : Message → S → Prop)
    (Poison : StreamReader.PoisonEntry → S → Prop) : Prop where
  row : ∀ {info s t}, Row info s → K.rely s t → Row info t
  known : ∀ {m s t}, Known m s → K.rely s t → Known m t
  poison : ∀ {entry s t}, Poison entry s → K.rely s t → Poison entry t
  recreates : ∀ {c : Call}, c.Recreates → ∀ s, K.pre c s
  sleeps : ∀ ms s, K.pre (.sleep ms) s
  reads : ∀ consumer s, K.pre (.xreadgroup consumer) s
  received : ∀ {consumer s} {streams : List (Str × List Message)},
    K.post (.xreadgroup consumer) (.ok streams) s →
      ∀ stream ∈ streams, ∀ m ∈ stream.2, Known m s
  lists : ∀ s, K.pre .xpendingRange s
  listed : ∀ {s} {infos : List PendingInfo}, K.post .xpendingRange (.ok infos) s →
    ∀ info ∈ infos, Row info s
  ranges : ∀ {info : PendingInfo} s, Row info s → K.pre (.xrange info.message_id) s
  fetched : ∀ {info : PendingInfo} {s} {range : List Message}, Row info s →
    K.post (.xrange info.message_id) (.ok range) s →
      Poison ⟨info.message_id, StreamReader.fieldsOfRange range, info.times_delivered⟩ s
  claims : ∀ {infos : List PendingInfo} {consumer s}, (∀ info ∈ infos, Row info s) →
    reclaimableOf env.cfg infos ≠ [] →
      K.pre (.xclaim consumer ((reclaimableOf env.cfg infos).map PendingInfo.message_id)) s
  claimed : ∀ {consumer ids s} {found : List Message}, K.post (.xclaim consumer ids) (.ok found) s →
    ∀ m ∈ found, Known m s
  handleMessage : ∀ m s, K.inv s → Known m s → Safe K (handleMessage env m) (fun _ _ => True) s
  quarantineAndAck : ∀ entry s, K.inv s → Poison entry s →
    Safe K (quarantineAndAck env entry) (fun _ _ => True) s

namespace LoopRule

variable {S : Type} {env : Env} {K : Contract workerSig S} {Row : PendingInfo → S → Prop}
  {Known : Message → S → Prop} {Poison : StreamReader.PoisonEntry → S → Prop} {s : S}

theorem fetchPoison (h : LoopRule env K Row Known Poison) {infos : List PendingInfo}
    (hrows : ∀ info ∈ infos, Row info s) :
    Safe K (StreamReader.fetchPoison infos) (fun r t => ∀ entries, r = .ok entries →
      ∀ entry ∈ entries, Poison entry t) s := by
  induction infos generalizing s with
  | nil =>
    rintro _ ⟨⟩ entry hentry
    cases hentry
  | cons info infos ih =>
    refine Safe.bind (R := fun r t => (∀ info' ∈ infos, Row info' t) ∧ ∀ range, r = .ok range →
        Poison ⟨info.message_id, StreamReader.fieldsOfRange range, info.times_delivered⟩ t)
      (Safe.perform (fun t hrely _ => h.ranges t (h.row (hrows info (by simp)) hrely)) ?_) ?_
      (fun _ _ _ _ h => by cases h)
    · rintro r t hrely - hpost
      refine ⟨fun info' hinfo' => h.row (hrows info' (by simp [hinfo'])) hrely, ?_⟩
      rintro range rfl
      exact h.fetched (h.row (hrows info (by simp)) hrely) hpost
    rintro range t ⟨hrows, hfirst⟩
    refine (Safe.carry (fun {t u} hpoison hrely => h.poison hpoison hrely) (ih hrows)
      (hfirst range rfl)).bind ?_ (fun _ _ _ _ h => by cases h)
    rintro others u ⟨hothers, hfirst⟩ _ ⟨⟩ entry hentry
    rcases List.mem_cons.mp hentry with rfl | hentry
    · exact hfirst
    · exact hothers others rfl entry hentry

theorem claimStale (h : LoopRule env K Row Known Poison) (consumer : Str) (s : S) :
    Safe K (StreamReader.claimStale env.cfg consumer) (fun r t => ∀ claimed poison,
      r = .ok (claimed, poison) →
        (∀ m ∈ claimed, Known m t) ∧ ∀ entry ∈ poison, Poison entry t) s := by
  refine Safe.bind (R := fun r t => ∀ infos : List PendingInfo, r = .ok infos →
      ∀ info ∈ infos, Row info t)
    (Safe.perform (fun t _ _ => h.lists t) ?_) ?_ (fun _ _ _ _ _ h => by cases h)
  · rintro r t - - hpost infos rfl
    exact h.listed hpost
  intro (stale : List PendingInfo) t hrows
  have hrows := hrows stale rfl
  split_ifs with hempty
  · rintro _ _ ⟨⟩
    exact ⟨by simp, by simp⟩
  -- the rows are still there when the poison entries have been read
  have hstable : ∀ {t u}, (∀ info ∈ stale, Row info t) → K.rely t u → ∀ info ∈ stale, Row info u :=
    fun hrows hrely info hinfo => h.row (hrows info hinfo) hrely
  refine (Safe.carry hstable (h.fetchPoison fun info hinfo => hrows info
    (List.mem_of_mem_filter hinfo)) hrows).bind ?_ (fun _ _ _ _ _ h => by cases h)
  rintro poison u ⟨hpoison, hrows⟩
  have hpoison := hpoison poison rfl
  dsimp only
  split_ifs with hnone
  · rintro _ _ ⟨⟩
    exact ⟨by simp, hpoison⟩
  · refine Safe.bind (R := fun r v => ∀ claimed, r = .ok claimed → (∀ m ∈ claimed, Known m v) ∧
        ∀ entry ∈ poison, Poison entry v) (Safe.perform ?_ ?_) ?_
      (fun _ _ _ _ _ h => by cases h)
    · intro v hrely _
      have hsome : reclaimableOf env.cfg stale ≠ [] := fun heq => hnone (List.isEmpty_iff.mpr heq)
      exact h.claims (hstable hrows hrely) hsome
    · rintro r v hrely - hpost claimed rfl
      exact ⟨h.claimed hpost, fun entry hentry => h.poison (hpoison entry hentry) hrely⟩
    · rintro claimed v hclaimed _ _ ⟨⟩
      exact hclaimed claimed rfl

theorem print (h : LoopRule env K Row Known Poison) (line : Line) (s : S) :
    Safe K (ask (.print line)) (fun _ _ => True) s :=
  .of_all (Prog.all_perform (P := Call.Recreates) trivial) (fun _ s hc => h.recreates hc s) s

theorem handleNogroup (h : LoopRule env K Row Known Poison) (context : Str) (last : LastAttempt)
    (s : S) : Safe K (handleNogroup env context last) (fun _ _ => True) s :=
  .of_all (calls_handleNogroup env context last) (fun _ s hc => h.recreates hc s) s

theorem handleAll (h : LoopRule env K Row Known Poison) {ms : List Message} (hi : K.inv s)
    (hms : ∀ m ∈ ms, Known m s) : Safe K (handleAll env ms) (fun _ _ => True) s := by
  apply Safe.forEach (J := fun t => ∀ m ∈ ms, Known m t) _ _ hi hms
  · exact fun hknown hrely m hm => h.known (hknown m hm) hrely
  · intro m hm t hi hknown
    exact (h.handleMessage m t hi (hknown m hm)).bind (fun _ _ _ => trivial) fun _ _ _ => trivial

theorem sweepPending (h : LoopRule env K Row Known Poison) (hi : K.inv s) (consumer : Str)
    (last : LastAttempt) : Safe K (sweepPending env consumer last) (fun _ _ => True) s := by
  refine Safe.bind (R := fun o t => K.inv t ∧ ∀ claimed poison,
      o = .ok (.ok (claimed, poison)) →
        (∀ m ∈ claimed, Known m t) ∧ ∀ entry ∈ poison, Poison entry t)
    (Safe.attempt (((h.claimStale consumer s).frame hi).mono ?_)) ?_ (fun _ _ _ => trivial)
  · rintro r t ⟨hfound, -, hi⟩
    exact ⟨hi, fun claimed poison hr => hfound claimed poison (Except.ok.inj hr)⟩
  rintro (e | ⟨claimed, poison⟩) t ⟨hi, hfound⟩
  · refine (h.print _ t).bind (fun _ u _ => ?_) fun _ _ _ => trivial
    cases e with
    | noGroup => exact h.handleNogroup _ last u
    | _ => trivial
  obtain ⟨hclaimed, hpoison⟩ := hfound claimed poison rfl
  -- the poison entries first; the claimed ones are still known after that
  have hquarantine : Safe K (Prog.forEach (fun entry => do
      let _ ← SecurityAudit.quarantineAndAck env entry
      return ()) poison) (fun _ _ => True) t := by
    apply Safe.forEach (J := fun u => ∀ entry ∈ poison, Poison entry u) _ _ hi hpoison
    · exact fun hpoison hrely entry hentry => h.poison (hpoison entry hentry) hrely
    · intro entry hentry u hi hpoison
      exact (h.quarantineAndAck entry u hi (hpoison entry hentry)).bind (fun _ _ _ => trivial)
        fun _ _ _ => trivial
  refine (hquarantine.frame hi).bind ?_ fun _ _ _ => trivial
  rintro - u ⟨-, hrely, hi⟩
  have hknown : ∀ m ∈ claimed, Known m u := fun m hm => h.known (hclaimed m hm) hrely
  exact (h.handleAll hi hknown).bind (fun _ _ _ => trivial) fun _ _ _ => trivial

theorem readNew (h : LoopRule env K Row Known Poison) (consumer : Str) (last : LastAttempt) :
    Safe K (readNew env consumer last) (fun r t => ∀ response last', r = .ok (response, last') →
      ∀ stream ∈ response, ∀ m ∈ stream.2, Known m t) s := by
  refine Safe.bind (R := fun o t => ∀ response, o = .ok (.ok response) →
      ∀ stream ∈ response, ∀ m ∈ stream.2, Known m t)
    (Safe.attempt (Safe.perform (fun t _ _ => h.reads consumer t) ?_)) ?_
    (fun _ _ _ _ _ h => by cases h)
  · intro r t _ _ hpost response hr
    obtain rfl := Except.ok.inj hr
    exact h.received hpost
  rintro (e | response) t hreceived
  · cases e with
    | redisTimeoutError =>
      rintro _ _ ⟨⟩ stream hstream
      cases hstream
    | noGroup =>
      refine (h.print _ t).bind (fun _ u _ => ?_) (fun _ _ _ _ _ h => by cases h)
      refine (h.handleNogroup _ last u).bind (fun last' v _ => ?_) (fun _ _ _ _ _ h => by cases h)
      refine Safe.bind (R := fun _ _ => True)
        (Safe.perform (fun w _ _ => h.sleeps _ w) fun _ _ _ _ _ => trivial) ?_
        (fun _ _ _ _ _ h => by cases h)
      rintro - w - _ _ ⟨⟩ stream hstream
      cases hstream
    | _ =>
      refine (h.print _ t).bind (fun _ u _ => ?_) (fun _ _ _ _ _ h => by cases h)
      rintro _ _ ⟨⟩ stream hstream
      cases hstream
  · rintro _ _ ⟨⟩
    exact hreceived response rfl

theorem runLoop (h : LoopRule env K Row Known Poison) (hi : K.inv s) (consumer : Str)
    (iterations : ℕ) (last : LastAttempt) :
    Safe K (runLoop env consumer iterations last) (fun _ _ => True) s := by
  induction iterations generalizing s last with
  | zero => trivial
  | succ iterations ih =>
    refine ((h.sweepPending hi consumer last).frame hi).bind ?_ (fun _ _ _ => trivial)
    rintro last t ⟨-, -, hi⟩
    refine ((h.readNew consumer last).frame hi).bind ?_ (fun _ _ _ => trivial)
    rintro ⟨response, last⟩ u ⟨hreceived, -, hi⟩
    have hknown : ∀ stream ∈ response, ∀ m ∈ stream.2, Known m u := hreceived response last rfl
    have hhandled : Safe K (Prog.forEach (fun stream : Str × List Message =>
        SecurityAudit.handleAll env stream.2) response) (fun _ _ => True) u := by
      apply Safe.forEach (J := fun v => ∀ stream ∈ response, ∀ m ∈ stream.2, Known m v) _ _ hi
        hknown
      · exact fun hknown hrely stream hs m hm => h.known (hknown stream hs m hm) hrely
      · exact fun stream hs _ hi hknown => h.handleAll hi (hknown stream hs)
    refine (hhandled.frame hi).bind ?_ (fun _ _ _ => trivial)
    rintro - v ⟨-, -, hi⟩
    exact ih hi last

/-- **Every worker keeps the contract.** -/
theorem worker (h : LoopRule env K Row Known Poison) {p : Worker Unit} (hp : IsWorker env p)
    (hi : K.inv s) : Safe K p (fun _ _ => True) s := by
  obtain ⟨consumer, iterations, rfl⟩ := hp
  have hgroup : Safe K StreamReader.ensureGroup (fun _ _ => True) s :=
    .of_all calls_ensureGroup (fun _ s hc => h.recreates hc s) s
  refine (hgroup.frame hi).bind ?_ (fun _ _ _ => trivial)
  rintro - t ⟨-, -, hi⟩
  exact h.runLoop hi consumer iterations none

end LoopRule

end SecurityAudit
