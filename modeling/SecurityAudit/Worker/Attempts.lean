import SecurityAudit.Prog.Ledger
import SecurityAudit.Worker.Deliveries
import SecurityAudit.Worker.Footprint
import SecurityAudit.Worker.Scenarios

/-!
# Processing attempts

`claim_stale` decides from the counts of an `XPENDING` reply and acts with a later `XCLAIM`. While
one group lives, an entry is handed to `handle_message` at most as often as the limit on
deliveries says, in runs in which no `XCLAIM` reaches a row that is at the limit already
(`attempts_bounded`). Without that condition a worker that was held up between the two calls
brings the entry back once too often (`attempts_exceeded`).
-/

namespace SecurityAudit

/-- What an entry costs `handle_message` and what the replies hand out of it. -/
def attempts (id : StreamId) : Account workerSig where
  cost
    | .parse source _ => if source = id then 1 else 0
    | _ => 0
  gain
    | .xreadgroup _, .ok streams => (streams.map fun stream => copies id stream.2).sum
    | .xclaim _ _, .ok claimed => copies id claimed
    | _, _ => 0

/-- How often the entry was handed to `handle_message`, whose first call is to parse it. -/
def handed (id : StreamId) (log : List workerSig.Event) : ℕ := (attempts id).spent log

/-! ## What the calls of the worker are -/

/-- The calls that neither hand an entry out nor use one up. -/
def Call.Plain : Call → Prop
  | .xreadgroup _ | .xpendingRange | .xclaim _ _ | .parse _ _ => False
  | _ => True

variable {env : Env} {id : StreamId} {n : ℕ}

theorem Call.Plain.free {c : Call} (h : c.Plain) :
    (attempts id).cost c = 0 ∧ ∀ r, (attempts id).gain c r = 0 := by
  cases c <;> first | exact h.elim | exact ⟨rfl, fun _ => rfl⟩

theorem plain_ask {c : Call} (h : c.Plain) : (ask c).All Call.Plain := Prog.all_perform h

theorem Call.CommitsEvent.plain {source : StreamId} {c : Call} (h : c.CommitsEvent source) :
    c.Plain := by
  cases c <;> first | exact h.elim | trivial

theorem Call.Quarantines.plain {source : StreamId} {c : Call} (h : c.Quarantines source) :
    c.Plain := by
  cases c <;> first | exact h.elim | trivial

theorem Call.Recreates.plain {c : Call} (h : c.Recreates) : c.Plain := by
  cases c <;> first | exact h.elim | trivial

theorem plain_handleNogroup (context : Str) (last : LastAttempt) :
    (handleNogroup env context last).All Call.Plain :=
  (calls_handleNogroup env context last).mono fun _ => Call.Recreates.plain

variable (env) in
/-- `handle_message` parses the entry, and what follows is plain. -/
theorem handleMessage_eq (m : Message) : ∃ next,
    handleMessage env m = .call (.parse m.id (m.fields.get "data")) next ∧
      ∀ r, (next r).All Call.Plain := by
  refine ⟨_, rfl, fun r => ?_⟩
  cases r with
  | error e => exact (plain_ask (by trivial)).bind fun _ => trivial
  | ok event =>
    refine (calls_warnInvalid (fun _ => trivial) _ _ _).bind fun _ => ?_
    refine (plain_ask (by trivial)).bind fun _ => ?_
    have hwrite := (calls_sinkWrite env m.id event (classifyEventIntegrity env.crypto event.service
      (m.fields.get "sig") (m.fields.get "data") env.cfg.eventSigningSecret)).mono
      fun _ => Call.CommitsEvent.plain
    refine ((calls_tryWrite hwrite fun _ => trivial).ensuring (plain_ask (by trivial))).bind
      fun written => ?_
    cases written with
    | false => trivial
    | true => exact (plain_ask (by trivial)).bind fun _ => trivial

theorem plain_quarantineAll (poison : List StreamReader.PoisonEntry) :
    (Prog.forEach (fun entry => do
      let _ ← quarantineAndAck env entry
      return ()) poison).All Call.Plain := by
  refine (calls_quarantineAll env poison).mono fun c hc => ?_
  obtain ⟨entry, -, hc⟩ := hc
  exact hc.plain

theorem plain_fetchPoison (infos : List PendingInfo) :
    (StreamReader.fetchPoison infos).All Call.Plain := by
  refine (calls_fetchPoison infos).mono fun c hc => ?_
  obtain ⟨source, rfl⟩ := hc
  trivial

/-! ## A worker handles what it was handed -/

theorem affords_plain {α : Type} {p : Worker α} (h : p.All Call.Plain) :
    (attempts id).Affords p (fun _ k => k = n) n :=
  .of_all (h.mono fun _ => Call.Plain.free)

theorem affords_handleMessage (m : Message) (hn : copies id [m] ≤ n) :
    (attempts id).Affords (handleMessage env m) (fun _ k => n ≤ k + copies id [m]) n := by
  obtain ⟨next, heq, hnext⟩ := handleMessage_eq env m
  have hcost : (attempts id).cost (.parse m.id (m.fields.get "data")) = copies id [m] :=
    (copies_singleton id m).symm
  rw [heq]
  refine ⟨by rw [hcost]; exact hn, fun r => (affords_plain (hnext r)).mono fun _ k hk => ?_⟩
  have hgain : (attempts id).gain (.parse m.id (m.fields.get "data")) r = 0 := rfl
  rw [hcost, hgain] at hk
  omega

theorem affords_handleAll (ms : List Message) (hn : copies id ms ≤ n) :
    (attempts id).Affords (handleAll env ms) (fun _ k => n ≤ k + copies id ms) n := by
  rw [← sum_copies] at hn ⊢
  refine Account.Affords.forEach (fun m _ k hk => ?_) hn
  exact (affords_handleMessage m hk).bind (fun _ _ h => h) fun _ _ h => h

/-- `claim_stale` hands on what it was handed. -/
theorem affords_claimStale (consumer : Str) :
    (attempts id).Affords (StreamReader.claimStale env.cfg consumer)
      (Account.Yields (fun found => copies id found.1) n) n := by
  unfold StreamReader.claimStale
  refine .bind (R := fun _ k => k = n) (.perform (Nat.zero_le _) fun r => by cases r <;> rfl)
    (fun stale k hk => ?_) fun _ k hk => hk.ge
  subst hk
  split
  · exact le_refl _
  refine (affords_plain (plain_fetchPoison _)).bind (fun poison l hl => ?_) fun _ l hl => hl.ge
  subst hl
  dsimp only
  split
  · exact le_refl _
  · refine .bind (R := Account.Yields (copies id) l) (.perform (Nat.zero_le _) fun r => ?_)
      (fun _ _ h => h) fun _ _ h => h
    cases r <;> exact le_refl _

theorem affords_sweepPending (consumer : Str) (last : LastAttempt) :
    (attempts id).Affords (sweepPending env consumer last) (fun _ k => n ≤ k) n := by
  refine .attempt_bind (affords_claimStale consumer) fun r k hk => ?_
  cases r with
  | error e =>
    refine (affords_plain (plain_ask (by trivial))).bind (fun _ l hl => ?_) fun _ l hl => ?_
    · subst hl
      cases e with
      | noGroup =>
        refine (affords_plain (plain_handleNogroup _ last)).mono fun _ l hl => ?_
        rw [hl]
        exact hk
      | _ => exact hk
    · rw [hl]
      exact hk
  | ok found =>
    obtain ⟨claimed, poison⟩ := found
    have hk' : n + copies id claimed ≤ k := hk
    refine (affords_plain (plain_quarantineAll poison)).bind (fun _ l hl => ?_) fun _ l hl => by
      omega
    subst hl
    refine (affords_handleAll claimed (by omega)).bind (fun _ l' hl' => ?_) fun _ l' hl' => by
      omega
    show n ≤ l'
    omega

/-- What the streams of a reply hand out. -/
def copiesOf (id : StreamId) (streams : List (Str × List Message)) : ℕ :=
  (streams.map fun stream => copies id stream.2).sum

theorem affords_readNew (consumer : Str) (last : LastAttempt) :
    (attempts id).Affords (readNew env consumer last)
      (Account.Yields (fun read => copiesOf id read.1) n) n := by
  refine .attempt_bind (R := Account.Yields (copiesOf id) n) (.perform (Nat.zero_le _) fun r => ?_)
    fun r k hk => ?_
  · cases r <;> exact le_refl _
  cases r with
  | ok streams => exact hk
  | error e =>
    -- a line is printed, and without a group the worker sleeps: nothing is handed out
    cases e with
    | redisTimeoutError => exact hk
    | noGroup =>
      apply (affords_plain (plain_ask (by trivial))).bind <;> rintro _ _ rfl
      · apply (affords_plain (plain_handleNogroup _ last)).bind <;> rintro _ _ rfl
        · apply (affords_plain (plain_ask (by trivial))).bind <;> rintro _ _ rfl <;> exact hk
        · exact hk
      · exact hk
    | _ => apply (affords_plain (plain_ask (by trivial))).bind <;> rintro _ _ rfl <;> exact hk

/-- A worker hands to `handle_message` no more than the replies handed to it. -/
theorem affords_runLoop (consumer : Str) (iterations : ℕ) (last : LastAttempt) :
    (attempts id).Affords (runLoop env consumer iterations last) (fun _ _ => True) n := by
  induction iterations generalizing n last with
  | zero => trivial
  | succ iterations ih =>
    refine (affords_sweepPending consumer last).bind (fun last k _ => ?_) fun _ _ _ => trivial
    refine (affords_readNew consumer last).bind (fun read l hl => ?_) fun _ _ _ => trivial
    obtain ⟨streams, last⟩ := read
    have hl' : k + copiesOf id streams ≤ l := hl
    refine .bind (Account.Affords.forEach (fun stream _ j hj => affords_handleAll stream.2 hj)
      (le_trans (Nat.le_add_left _ _) hl')) (fun _ _ _ => ih _) fun _ _ _ => trivial

theorem affords_run (consumer : Str) (iterations : ℕ) :
    (attempts id).Affords (run env consumer iterations) (fun _ _ => True) n :=
  (affords_plain (calls_ensureGroup.mono fun _ => Call.Recreates.plain)).bind
    (fun _ _ _ => affords_runLoop consumer iterations none)
    fun _ _ _ => trivial

/-! ## The replies hand an entry out no more often than the limit -/

variable (env) in
/-- The world while one group lives: nobody deletes it. -/
def lifetime : World workerSig Shared where
  answers := Answers env
  drift s t := Drift s t ∧ (s.group ≠ none → t.group ≠ none)

variable (env) in
/-- No `XCLAIM` reaches a row that is at the limit already. -/
def BelowLimit : (c : Call) → Shared → workerSig.Answer c → Prop
  | .xclaim _ ids, s, _ => ∀ g, s.group = some g → ∀ p ∈ g.pel, p.id ∈ ids →
    Group.idle s.now env.cfg.pelMinIdleMs p = true → (p.deliveries : ℤ) < env.cfg.pelMaxDeliveries
  | _, _, _ => True

variable (env id) in
/-- The entry `id` was handed out `n` times while the group lived. -/
structure Shared.Within (s : Shared) (n : ℕ) : Prop where
  sorted : s.stream.Pairwise fun a b => a.id < b.id
  known : ∀ m ∈ s.stream, m ∈ s.history
  unborn : s.group = none → n = 0
  group : ∀ g, s.group = some g → g.Within env.cfg.pelMaxDeliveries id n

variable (env id) in
/-- The contract: `XCLAIM` names each id once, for `XPENDING` lists each once. -/
def deliveryContract : Contract workerSig (Shared × List workerSig.Event) where
  inv s := s.1.Within env id ((attempts id).gained s.2)
  rely _ _ := True
  pre
    | .xclaim _ ids, _ => ids.Nodup
    | _, _ => True
  post
    | .xpendingRange, .ok infos, _ => (infos.map PendingInfo.message_id).Nodup
    | _, _, _ => True
  rely_refl _ := trivial
  rely_trans _ _ := trivial

variable {s t : Shared}

/-- A change that leaves the stream and the group alone. -/
theorem Shared.Within.of_eq (h : s.Within env id n) (hstream : t.stream = s.stream)
    (hhistory : t.history = s.history) (hgroup : t.group = s.group) : t.Within env id n where
  sorted := by rw [hstream]; exact h.sorted
  known := by rw [hstream, hhistory]; exact h.known
  unborn := by rw [hgroup]; exact h.unborn
  group := by rw [hgroup]; exact h.group

/-- A change of the group. -/
theorem Shared.Within.of_group (h : s.Within env id n) {g : Group} {k : ℕ}
    (hstream : t.stream = s.stream) (hhistory : t.history = s.history) (hgroup : t.group = some g)
    (hg : g.Within env.cfg.pelMaxDeliveries id k) : t.Within env id k where
  sorted := by rw [hstream]; exact h.sorted
  known := by rw [hstream, hhistory]; exact h.known
  unborn := by rw [hgroup]; rintro ⟨⟩
  group := by rw [hgroup]; rintro _ ⟨⟩; exact hg

theorem copiesOf_groupReply (name : Str) (new : List Message) :
    copiesOf id (groupReply name new) = copies id new := by
  unfold groupReply
  split_ifs with hempty
  · rw [List.isEmpty_iff.mp hempty]
    rfl
  · simp [copiesOf]

/-- A call that is carried out, whether its reply arrives or not. -/
theorem Shared.Within.executes (hlimit : 1 ≤ env.cfg.pelMaxDeliveries) {c : Call} {v : c.Reply}
    (h : s.Within env id n) (hpre : ∀ log, (deliveryContract env id).pre c (s, log))
    (hbelow : ∀ r, BelowLimit env c s r) (hexec : Executes env c s v t) :
    ∀ k, k = 0 ∨ k = (attempts id).gain c (.ok v) → t.Within env id (n + k) := by
  intro k hk
  -- `k` is 0 where the reply is lost, and only a read or an `XCLAIM` hands out anything
  have hk0 : (attempts id).gain c (.ok v) = 0 → k = 0 := by omega
  cases hexec with
  | xgroupCreate free =>
    rw [hk0 rfl, h.unborn free]
    exact h.of_group rfl rfl rfl (Group.within_fresh hlimit)
  | @xreadgroup _ g consumer hg =>
    have hgain : (attempts id).gain (.xreadgroup consumer)
        (.ok (groupReply env.cfg.streamName (g.newMessages s.stream))) =
          copies id (g.newMessages s.stream) := copiesOf_groupReply _ _
    rw [hgain] at hk
    exact h.of_group rfl rfl rfl ((h.group g hg).deliver hlimit h.sorted s.now consumer hk)
  | xpendingRange hg hinfos =>
    rw [hk0 rfl]
    exact h.of_eq rfl rfl rfl
  | xrange =>
    rw [hk0 rfl]
    exact h
  | @xclaim _ g consumer ids hg =>
    exact h.of_group rfl rfl rfl ((h.group g hg).claim (hpre []) (hbelow (.ok []) g hg) hk)
  | @xack _ id' reason =>
    rw [hk0 rfl]
    cases hgroup : s.group with
    | none => exact h.of_eq rfl rfl hgroup.symm
    | some g => exact h.of_group rfl rfl rfl ((h.group g hgroup).ack id')
  | parse accepted =>
    rw [hk0 rfl]
    exact h.of_eq rfl rfl rfl
  | commitAuditEvent fits hstored free =>
    rw [hk0 rfl]
    exact h.of_eq rfl rfl rfl
  | commitQuarantined fits free =>
    rw [hk0 rfl]
    exact h.of_eq rfl rfl rfl
  | openSession | closeSession | rollback | monotonic | sleep | print | alert =>
    rw [hk0 rfl]
    exact h

theorem Shared.Within.drift (h : s.Within env id n) (hdrift : (lifetime env).drift s t) :
    t.Within env id n := by
  obtain ⟨hdrift, hlives⟩ := hdrift
  cases hdrift with
  | tick ms => exact h.of_eq rfl rfl rfl
  | @xadd m positive newer =>
    refine ⟨?_, fun m' hm' => ?_, h.unborn, h.group⟩
    · rw [List.pairwise_append]
      refine ⟨h.sorted, List.pairwise_singleton _ _, fun a ha b hb => ?_⟩
      rw [List.mem_singleton.mp hb]
      exact newer a (h.known a ha)
    · rcases List.mem_append.mp hm' with hm' | hm'
      · exact List.mem_append_left _ (h.known m' hm')
      · exact List.mem_append_right _ hm'
  | trim hkept => exact ⟨h.sorted.sublist hkept, fun m hm => h.known m (hkept.subset hm), h.unborn,
      h.group⟩
  | groupLost =>
    by_cases hgroup : s.group = none
    · exact h.of_eq rfl rfl hgroup.symm
    · exact absurd rfl (hlives hgroup)

/-- The world keeps the contract. -/
theorem deliveryContract_sound (hlimit : 1 ≤ env.cfg.pelMaxDeliveries) :
    (deliveryContract env id).Sound ((lifetime env).restrict (BelowLimit env)).traced where
  call := by
    rintro c ⟨s, log⟩ r ⟨s', log'⟩ hi hpre ⟨⟨hanswer, hbelow⟩, hlog⟩
    dsimp only at hlog
    subst hlog
    have hpre' : ∀ log, (deliveryContract env id).pre c (s, log) := by
      intro log
      cases c <;> exact hpre
    have hbelow' : ∀ r, BelowLimit env c s r := by
      intro r
      cases c <;> exact hbelow
    have hwithin : s.Within env id ((attempts id).gained log) := hi
    show s'.Within env id ((attempts id).gained (log ++ [⟨c, r⟩])) ∧ True ∧ _
    rw [(attempts id).gained_snoc]
    -- an answer that raised hands nothing out
    have herror : ∀ e, (attempts id).gain c (.error e) = 0 := fun e => by cases c <;> rfl
    have hpost : ∀ e, (deliveryContract env id).post c (.error e) (s', log ++ [⟨c, .error e⟩]) :=
      fun e => by cases c <;> trivial
    cases hanswer with
    | done hexec =>
      refine ⟨hwithin.executes hlimit hpre' hbelow' hexec _ (.inr rfl), trivial, ?_⟩
      cases hexec with
      | @xpendingRange _ g infos hg hinfos =>
        show (infos.map PendingInfo.message_id).Nodup
        rw [hinfos]
        exact (hwithin.group g hg).nodup_pendingRange _ _ _
      | _ => trivial
    | lost hexec he =>
      rw [herror]
      exact ⟨hwithin.executes hlimit hpre' hbelow' hexec 0 (.inl rfl), trivial, hpost _⟩
    | refused hfails =>
      rw [herror]
      exact ⟨hwithin, trivial, hpost _⟩
  drift := by
    rintro ⟨s, log⟩ ⟨s', log'⟩ hi ⟨hdrift, hlog⟩
    dsimp only at hlog
    subst hlog
    exact ⟨Shared.Within.drift hi hdrift, trivial⟩

/-! ## The workers keep it -/

variable {σ : Shared × List workerSig.Event}

theorem delivery_plain {α : Type} {p : Worker α} (h : p.All Call.Plain) :
    Safe (deliveryContract env id) p (fun _ _ => True) σ :=
  .of_all h (fun c s hc => by cases c <;> first | exact hc.elim | trivial) σ

theorem delivery_handleMessage (m : Message) :
    Safe (deliveryContract env id) (handleMessage env m) (fun _ _ => True) σ := by
  obtain ⟨next, heq, hnext⟩ := handleMessage_eq env m
  rw [heq]
  exact fun _ _ _ => ⟨trivial, fun r _ _ _ _ => delivery_plain (hnext r)⟩

theorem delivery_handleAll (ms : List Message) :
    Safe (deliveryContract env id) (handleAll env ms) (fun _ _ => True) σ := by
  refine Safe.forEach_of (fun m _ τ => ?_) σ
  exact (delivery_handleMessage m).bind (fun _ _ _ => trivial) fun _ _ _ => trivial

/-- `claim_stale` names each id of the pending list at most once. -/
theorem delivery_claimStale (consumer : Str) :
    Safe (deliveryContract env id) (StreamReader.claimStale env.cfg consumer) (fun _ _ => True)
      σ := by
  unfold StreamReader.claimStale
  refine .bind (R := (deliveryContract env id).post .xpendingRange)
    (.perform (fun _ _ _ => trivial) fun _ _ _ _ hpost => hpost) (fun stale _ hstale => ?_)
    fun _ _ _ => trivial
  have hnodup : (stale.map PendingInfo.message_id).Nodup := hstale
  split
  · trivial
  refine (delivery_plain (plain_fetchPoison _)).bind (fun poison _ _ => ?_) fun _ _ _ => trivial
  dsimp only
  split
  · trivial
  · refine .bind (R := fun _ _ => True) (.perform (fun _ _ _ => ?_) fun _ _ _ _ _ => trivial)
      (fun _ _ _ => trivial) fun _ _ _ => trivial
    exact hnodup.sublist (List.filter_sublist.map _)

theorem delivery_sweepPending (consumer : Str) (last : LastAttempt) :
    Safe (deliveryContract env id) (sweepPending env consumer last) (fun _ _ => True) σ := by
  refine .bind (R := fun _ _ => True) (.attempt (delivery_claimStale consumer)) (fun r τ _ => ?_)
    fun _ _ _ => trivial
  cases r with
  | error e =>
    refine (delivery_plain (plain_ask (by trivial))).bind (fun _ _ _ => ?_) fun _ _ _ => trivial
    cases e with
    | noGroup => exact delivery_plain (plain_handleNogroup _ last)
    | _ => trivial
  | ok found =>
    refine (delivery_plain (plain_quarantineAll found.2)).bind (fun _ _ _ => ?_)
      fun _ _ _ => trivial
    exact (delivery_handleAll found.1).bind (fun _ _ _ => trivial) fun _ _ _ => trivial

theorem delivery_readNew (consumer : Str) (last : LastAttempt) :
    Safe (deliveryContract env id) (readNew env consumer last) (fun _ _ => True) σ := by
  refine .bind (R := fun _ _ => True) (.attempt (.perform (fun _ _ _ => trivial)
    fun _ _ _ _ _ => trivial)) (fun r τ _ => ?_) fun _ _ _ => trivial
  cases r with
  | ok streams => trivial
  | error e =>
    have hprint : (ask (.print (.readFailed e))).All Call.Plain := plain_ask (by trivial)
    cases e with
    | redisTimeoutError => trivial
    | noGroup => exact delivery_plain (hprint.bind fun _ => (plain_handleNogroup _ last).bind
        fun _ => (plain_ask (by trivial)).bind fun _ => trivial)
    | _ => exact delivery_plain (hprint.bind fun _ => trivial)

theorem delivery_runLoop (consumer : Str) (iterations : ℕ) (last : LastAttempt) :
    Safe (deliveryContract env id) (runLoop env consumer iterations last) (fun _ _ => True) σ := by
  induction iterations generalizing σ last with
  | zero => trivial
  | succ iterations ih =>
    refine (delivery_sweepPending consumer last).bind (fun last _ _ => ?_) fun _ _ _ => trivial
    refine (delivery_readNew consumer last).bind (fun read _ _ => ?_) fun _ _ _ => trivial
    exact (Safe.forEach_of (fun stream _ _ => delivery_handleAll stream.2) _).bind
      (fun _ _ _ => ih read.2) fun _ _ _ => trivial

theorem delivery_run (consumer : Str) (iterations : ℕ) :
    Safe (deliveryContract env id) (run env consumer iterations) (fun _ _ => True) σ :=
  (delivery_plain (calls_ensureGroup.mono fun _ => Call.Recreates.plain)).bind
    (fun _ _ _ => delivery_runLoop consumer iterations none)
    fun _ _ _ => trivial

/-! ## A worker that is held up -/

section

variable {allowed : (c : Call) → Shared → workerSig.Answer c → Prop} {m : Message}
  {log : List workerSig.Event}

theorem handed_snoc (log : List workerSig.Event) (c : Call) (r : workerSig.Answer c) :
    handed id (log ++ [⟨c, r⟩]) = handed id log + (attempts id).cost c :=
  (attempts id).spent_snoc log c r

theorem traced_ask {c : Call} {v : c.Reply} (h : Executes env c s v t)
    (hallowed : allowed c s (.ok v)) :
    Solo ((lifetime env).restrict allowed).traced (ask c) (s, log) (.ret v)
      (t, log ++ [⟨c, .ok v⟩]) :=
  Solo.perform (σ := workerSig) (r := .ok v) ⟨⟨.done h, hallowed⟩, rfl⟩

theorem traced_raise {c : Call} {e : Exc} (h : Fails env c s e)
    (hallowed : allowed c s (.error e)) :
    Solo ((lifetime env).restrict allowed).traced (ask c) (s, log) (.raise e)
      (s, log ++ [⟨c, .error e⟩]) :=
  Solo.perform (σ := workerSig) (r := .error e) ⟨⟨.refused h, hallowed⟩, rfl⟩

/-- A condition on runs that looks at `XCLAIM` only. -/
def OnClaims (allowed : (c : Call) → Shared → workerSig.Answer c → Prop) : Prop :=
  ∀ c s r, (∀ consumer ids, c ≠ .xclaim consumer ids) → allowed c s r

variable (s log) in
/-- An entry without data is not parsed, and stays pending. -/
theorem traced_handleAll (ha : OnClaims allowed) (hm : m.fields.get "data" = none) :
    ∃ q log', Solo ((lifetime env).restrict allowed).traced (handleAll env [m]) (s, log) q
      (s, log') ∧ handed m.id log' = handed m.id log + 1 := by
  have hrejected : Fails env (.parse m.id (m.fields.get "data")) s .typeError := by
    have hparse : parseAuditEvent env [] Sample.utcnow none = .error .typeError := rfl
    rw [hm]
    exact .rejected hparse
  have hhandle : Solo ((lifetime env).restrict allowed).traced (handleMessage env m) (s, log) _ _ :=
    .bind (traced_raise hrejected (ha _ _ _ (by simp))).attempt (.here _ _)
  refine ⟨_, _, (hhandle.bind_left _).bind_left _, ?_⟩
  rw [handed_snoc]
  simp [attempts]

variable (env) in
/-- The first worker reads the entry. -/
theorem traced_first (ha : OnClaims allowed) (hm : m.fields.get "data" = none)
    (hpos : toLex (0, 0) < m.id) (consumer : Str) :
    ∃ q log', Solo ((lifetime env).restrict allowed).traced (run env consumer 1)
      (Shared.added [m], []) q (Shared.received [m] consumer, log') ∧ handed m.id log' = 1 := by
  let created : Shared := { Shared.added [m] with group := some .fresh }
  have hnew : Group.fresh.newMessages created.stream = [m] := by
    simp [created, Group.newMessages, Shared.added, Group.fresh, hpos]
  have hempty : created = { created with condemned := created.condemned ++ poisonIds env.cfg [] } :=
    rfl
  have hcreate : Executes env .xgroupCreate (Shared.added [m]) () created := .xgroupCreate rfl
  have hpending : Executes env .xpendingRange created [] created := by
    rw [hempty]
    exact .xpendingRange rfl (by simp [Group.pendingRange, Group.fresh])
  have hread : Executes env (.xreadgroup consumer) created [(env.cfg.streamName, [m])]
      (Shared.received [m] consumer) := by
    have h : Executes env (.xreadgroup consumer) created _ _ := .xreadgroup rfl
    rw [hnew] at h
    exact h
  obtain ⟨q, log', hhandle, hhanded⟩ := traced_handleAll (Shared.received [m] consumer)
    [⟨.xgroupCreate, .ok ()⟩, ⟨.xpendingRange, .ok []⟩,
      ⟨.xreadgroup consumer, .ok [(env.cfg.streamName, [m])]⟩] ha hm
  exact ⟨_, log', .bind (.bind (traced_ask hcreate (ha _ _ _ (by simp))).attempt (.here _ _))
    (.bind (.bind (Solo.bind (traced_ask hpending (ha _ _ _ (by simp))) (.here _ _)).attempt
      (.here _ _)) (.bind (.bind (traced_ask hread (ha _ _ _ (by simp))).attempt (.here _ _))
        ((hhandle.bind_left _).bind_left _))), hhanded⟩

/-- A worker that found the entry stale is held up before its `XCLAIM`. Whenever it goes on and the
entry is stale again, it claims it and hands it to `handle_message`. -/
theorem traced_suspended (ha : OnClaims allowed) (hm : m.fields.get "data" = none) {deliveries : ℕ}
    (hstale : Stale env s m deliveries) (hlive : (deliveries : ℤ) < env.cfg.pelMaxDeliveries)
    (consumer : Str) (log : List workerSig.Event) :
    ∃ q log₁, Solo ((lifetime env).restrict allowed).traced (run env consumer 1) (s, log) q
        (s, log₁) ∧ handed m.id log₁ = handed m.id log ∧
      ∀ s' log' deliveries', Stale env s' m deliveries' →
        allowed (.xclaim consumer [m.id]) s' (.ok [m]) →
        ∃ q' log₂, Solo ((lifetime env).restrict allowed).traced q (s', log') q'
          (s'.claimed m consumer deliveries', log₂) ∧
          handed m.id log₂ = handed m.id log' + 1 := by
  obtain ⟨holder, deliveredAt, hg, hidle⟩ := hstale.group
  have hinfos : [⟨m.id, deliveries⟩] = (Group.held m holder deliveredAt deliveries).pendingRange
      s.now env.cfg.pelMinIdleMs env.cfg.pelSweepBatch := by
    rw [← Int.toNat_of_nonneg hstale.minIdle, pendingRange_held hidle hstale.batch]
  have hnot : ¬env.cfg.pelMaxDeliveries ≤ deliveries := not_le.mpr hlive
  have hsame : s = { s with condemned := s.condemned ++ poisonIds env.cfg [⟨m.id, deliveries⟩] } := by
    simp [poisonIds, hnot]
  have hpending : Executes env .xpendingRange s [⟨m.id, deliveries⟩] s := by
    nth_rewrite 2 [hsame]
    exact .xpendingRange hg hinfos
  let log₀ : List workerSig.Event := log ++ [⟨.xgroupCreate, .error .busyGroup⟩]
  let log₁ : List workerSig.Event := log₀ ++ [⟨.xpendingRange, .ok [⟨m.id, deliveries⟩]⟩]
  have hbusy : Solo ((lifetime env).restrict allowed).traced (ask .xgroupCreate) (s, log)
      (.raise .busyGroup) (s, log₀) := traced_raise (.busyGroup hg) (ha _ _ _ (by simp))
  have hask : Solo ((lifetime env).restrict allowed).traced (ask .xpendingRange) (s, log₀)
      (.ret [⟨m.id, deliveries⟩]) (s, log₁) := traced_ask hpending (ha _ _ _ (by simp))
  -- what is left of `claim_stale` once the reply is there
  have hfound : ∃ ids, ids = [m.id] ∧ Solo ((lifetime env).restrict allowed).traced
      (StreamReader.claimStale env.cfg consumer) (s, log₀)
      (do
        let claimed ← ask (.xclaim consumer ids)
        return (claimed, [])) (s, log₁) := by
    refine ⟨([⟨m.id, deliveries⟩].filter fun e : PendingInfo =>
      decide ((e.times_delivered : ℤ) < env.cfg.pelMaxDeliveries)).map PendingInfo.message_id,
      by simp [hlive], .bind hask ?_⟩
    simp only [List.isEmpty_cons, List.filter_cons, hnot, hlive, decide_false, decide_true,
      List.filter_nil, StreamReader.fetchPoison, Prog.pure_eq, Prog.ret_bind, Bool.false_eq_true,
      if_false, if_true]
    exact .here _ _
  obtain ⟨ids, rfl, hfound⟩ := hfound
  have hhanded : handed m.id log₁ = handed m.id log := by
    show handed m.id (log₀ ++ [_]) = _
    rw [handed_snoc]
    exact handed_snoc _ _ _
  refine ⟨_, log₁, .bind (.bind hbusy.attempt (.here _ _))
    ((hfound.attempt.bind_left _).bind_left _), hhanded, ?_⟩
  intro s' log' deliveries' hstale' hallowed
  obtain ⟨holder', deliveredAt', hg', hidle'⟩ := hstale'.group
  have hheld : (Group.held m holder' deliveredAt' deliveries').claim s'.stream s'.now
      env.cfg.pelMinIdleMs consumer [m.id] = (.held m consumer s'.now (deliveries' + 1), [m]) := by
    rw [hstale'.stream, ← Int.toNat_of_nonneg hstale'.minIdle, claim_held hidle']
  have hclaim : Executes env (.xclaim consumer [m.id]) s' [m]
      (s'.claimed m consumer deliveries') := by
    have h : Executes env (.xclaim consumer [m.id]) s' _ _ := .xclaim hg'
    rw [hheld] at h
    exact h
  obtain ⟨q', log₂, hhandle, hhanded'⟩ := traced_handleAll (s'.claimed m consumer deliveries')
    (log' ++ [⟨.xclaim consumer [m.id], .ok [m]⟩]) ha hm
  have hclaimed : Solo ((lifetime env).restrict allowed).traced (do
      let claimed ← ask (.xclaim consumer [m.id])
      return (claimed, [])) (s', log')
      (.ret (([m], []) : List Message × List StreamReader.PoisonEntry))
      (s'.claimed m consumer deliveries', log' ++ [⟨.xclaim consumer [m.id], .ok [m]⟩]) :=
    .bind (traced_ask hclaim hallowed) (.here _ _)
  refine ⟨_, log₂, Solo.bind_left (Solo.bind hclaimed.attempt
    (hhandle.bind_left fun _ => pure none)) _, ?_⟩
  rw [hhanded', handed_snoc]
  rfl

variable (env) in
/-- The first worker reads the one entry and does not get it parsed. -/
theorem reach_first (ha : OnClaims allowed) (hm : m.fields.get "data" = none)
    (hpos : toLex (0, 0) < m.id) (consumer : Str) :
    ∃ log, Reach ((lifetime env).restrict allowed).traced (IsWorker env)
        (Config.idle (Shared.initial, [])) (Config.idle (Shared.received [m] consumer, log)) ∧
      handed m.id log = 1 := by
  obtain ⟨q, log, hfirst, hhanded⟩ := traced_first env ha hm hpos consumer
  have hadd : ((lifetime env).restrict allowed).traced.drift (Shared.initial, [])
      (Shared.added [m], []) := ⟨⟨.xadd hpos (by simp [Shared.initial]), fun h => absurd rfl h⟩, rfl⟩
  exact ⟨log, (Reach.drift_idle hadd).trans (hfirst.visit ⟨consumer, 1, rfl⟩), hhanded⟩

/-- After the idle time an entry that was claimed is stale. -/
theorem stale_claimed (hstale : Stale env s m n) (consumer : Str) :
    Stale env { s.claimed m consumer n with
      now := (s.claimed m consumer n).now + env.cfg.pelMinIdleMs.toNat } m (n + 1) :=
  ⟨hstale.stream, ⟨consumer, s.now, rfl, le_refl _⟩, hstale.minIdle, hstale.batch⟩

variable (env) in
/-- After the idle time a second worker claims the entry, and does not get it parsed either. -/
theorem reach_second (ha : OnClaims allowed) (hm : m.fields.get "data" = none)
    (hpos : toLex (0, 0) < m.id) (hidle : 0 ≤ env.cfg.pelMinIdleMs)
    (hbatch : 0 < env.cfg.pelSweepBatch) (hlimit : 1 < env.cfg.pelMaxDeliveries) (consumer : Str)
    (hallowed : allowed (.xclaim consumer [m.id]) { Shared.received [m] consumer with
      now := (Shared.received [m] consumer).now + env.cfg.pelMinIdleMs.toNat } (.ok [m])) :
    ∃ cfg, Reach ((lifetime env).restrict allowed).traced (IsWorker env)
        (Config.idle (Shared.initial, [])) cfg ∧ handed m.id cfg.state.2 = 2 := by
  obtain ⟨log, hfirst, hhanded⟩ := reach_first env ha hm hpos consumer
  let s₁ : Shared := { Shared.received [m] consumer with
    now := (Shared.received [m] consumer).now + env.cfg.pelMinIdleMs.toNat }
  have hstale : Stale env s₁ m 1 := ⟨rfl, ⟨consumer, 0, rfl, le_refl _⟩, hidle, hbatch⟩
  have htick : ((lifetime env).restrict allowed).traced.drift (Shared.received [m] consumer, log)
      (s₁, log) := ⟨⟨.tick _, fun h => h⟩, rfl⟩
  obtain ⟨q, log₁, hup, hhanded₁, hlater⟩ :=
    traced_suspended ha hm hstale (by simpa using hlimit) consumer log
  obtain ⟨q', log₂, hclaims, hhanded₂⟩ := hlater s₁ log₁ 1 hstale hallowed
  refine ⟨_, (hfirst.trans (Reach.drift_idle htick)).trans
    ((hup.trans hclaims).visit ⟨consumer, 1, rfl⟩), ?_⟩
  show handed m.id log₂ = 2
  omega

variable (env) in
/-- One worker finds the entry stale and is held up; another one claims it and does not get it
parsed either; then the first one goes on. With a limit of two, the entry is handed out three
times. -/
theorem reach_exceeded (hm : m.fields.get "data" = none) (hpos : toLex (0, 0) < m.id)
    (hidle : 0 ≤ env.cfg.pelMinIdleMs) (hbatch : 0 < env.cfg.pelSweepBatch)
    (hlimit : 1 < env.cfg.pelMaxDeliveries) (consumer : Str) :
    ∃ cfg, Reach ((lifetime env).restrict everything).traced (IsWorker env)
        (Config.idle (Shared.initial, [])) cfg ∧ handed m.id cfg.state.2 = 3 := by
  have ha : OnClaims everything := fun _ _ _ _ => trivial
  obtain ⟨log, hfirst, hhanded⟩ := reach_first env ha hm hpos consumer
  let s₁ : Shared := { Shared.received [m] consumer with
    now := (Shared.received [m] consumer).now + env.cfg.pelMinIdleMs.toNat }
  have hstale₁ : Stale env s₁ m 1 := ⟨rfl, ⟨consumer, 0, rfl, le_refl _⟩, hidle, hbatch⟩
  -- the worker that is held up, and the one that is not
  obtain ⟨q, log₁, hup, hhanded₁, hlater⟩ :=
    traced_suspended ha hm hstale₁ (by simpa using hlimit) consumer log
  obtain ⟨r, log₂, hother, hhanded₂, hnow⟩ :=
    traced_suspended ha hm hstale₁ (by simpa using hlimit) consumer log₁
  obtain ⟨r', log₃, hclaims, hhanded₃⟩ := hnow s₁ log₂ 1 hstale₁ trivial
  have hstale₂ := stale_claimed hstale₁ consumer
  obtain ⟨q', log₄, hresumes, hhanded₄⟩ := hlater _ log₃ 2 hstale₂ trivial
  have htick : ∀ (s : Shared) (log : List workerSig.Event),
      ((lifetime env).restrict everything).traced.drift (s, log)
        ({ s with now := s.now + env.cfg.pelMinIdleMs.toNat }, log) :=
    fun s log => ⟨⟨.tick _, fun h => h⟩, rfl⟩
  -- the process table, step by step
  let c₁ : Config workerSig (Shared × List workerSig.Event) Unit := Config.idle (s₁, log)
  let c₂ := c₁.setProc 0 (some (run env consumer 1))
  let c₃ := (c₂.setState (s₁, log₁)).setProc 0 (some q)
  let c₄ := c₃.setProc 1 (some (run env consumer 1))
  let c₅ := (c₄.setState (s₁.claimed m consumer 1, log₃)).setProc 1 (some r')
  let c₆ := c₅.setState ({ s₁.claimed m consumer 1 with
    now := (s₁.claimed m consumer 1).now + env.cfg.pelMinIdleMs.toNat }, log₃)
  have hstarted : IsWorker env (run env consumer 1) := ⟨consumer, 1, rfl⟩
  have hfree : c₃.procs 1 = none := by simp [c₃, c₂, c₁, Config.setProc_of_ne]
  have hheld : c₆.procs 0 = some q := by
    simp [c₆, c₅, c₄, c₃, Config.setProc_of_ne]
  have h₁ := hfirst.trans (Reach.drift_idle (htick _ log))
  have h₃ := (h₁.tail (.spawn (w := 0) rfl hstarted)).trans (hup.reach rfl (c₁.setProc_self 0 _))
  have h₅ := (h₃.tail (.spawn hfree hstarted)).trans
    ((hother.trans hclaims).reach rfl (c₃.setProc_self 1 _))
  have h₆ := h₅.tail (.drift (htick (s₁.claimed m consumer 1) log₃))
  refine ⟨_, h₆.trans (hresumes.reach rfl hheld), ?_⟩
  show handed m.id log₄ = 3
  omega

end

/-! ## The bound -/

/-- **Bounded attempts.** While one group lives, and if no `XCLAIM` reaches a row that is at the
limit, an entry is handed to `handle_message` at most as often as the limit says. -/
theorem attempts_bounded (hlimit : 1 ≤ env.cfg.pelMaxDeliveries)
    {cfg : Config workerSig (Shared × List workerSig.Event) Unit}
    (h : Reach ((lifetime env).restrict (BelowLimit env)).traced (IsWorker env)
      (Config.idle (Shared.initial, [])) cfg) (id : StreamId) :
    (handed id cfg.state.2 : ℤ) ≤ env.cfg.pelMaxDeliveries := by
  have hspent : handed id cfg.state.2 ≤ (attempts id).gained cfg.state.2 :=
    Account.solvent (fun p ⟨consumer, n, hp⟩ => hp ▸ affords_run consumer n) h
  have hinitial : (deliveryContract env id).inv (Shared.initial, []) :=
    ⟨List.Pairwise.nil, by simp [Shared.initial], fun _ => rfl, by rintro _ ⟨⟩⟩
  have hsound : (deliveryContract env id).Sound ((lifetime env).restrict (BelowLimit env)).traced :=
    deliveryContract_sound hlimit
  have hwithin : cfg.state.1.Within env id ((attempts id).gained cfg.state.2) :=
    (hsound.reach (fun p ⟨consumer, n, hp⟩ _ _ => hp ▸ delivery_run consumer n) hinitial h).1
  cases hgroup : cfg.state.1.group with
  | none =>
    have := hwithin.unborn hgroup
    omega
  | some g =>
    have := (hwithin.group g hgroup).bound
    omega

namespace Sample

/-- An entry without a payload. -/
def dataless : Message := ⟨toLex (1, 0), []⟩

/-- The environment with a limit of two deliveries. -/
def limitTwo : Env := { Sample.env with cfg := { cfg with pelMaxDeliveries := 2 } }

end Sample

/-- An entry without a payload, read by the first worker and claimed by the second one while its
row is below the limit. -/
theorem attempts_bounded_claimed : ∃ cfg,
    Reach ((lifetime Sample.limitTwo).restrict (BelowLimit Sample.limitTwo)).traced
      (IsWorker Sample.limitTwo) (Config.idle (Shared.initial, [])) cfg ∧
    handed Sample.dataless.id cfg.state.2 = 2 ∧
    (handed Sample.dataless.id cfg.state.2 : ℤ) ≤ Sample.limitTwo.cfg.pelMaxDeliveries := by
  have ha : OnClaims (BelowLimit Sample.limitTwo) := by
    intro c s r hc
    cases c with
    | xclaim consumer ids => exact absurd rfl (hc consumer ids)
    | _ => trivial
  have hbelow : ∀ now r, BelowLimit Sample.limitTwo
      (.xclaim (str "worker-1") [Sample.dataless.id])
      { Shared.received [Sample.dataless] (str "worker-1") with now := now } r := by
    rintro now r _ ⟨⟩ p hp - -
    rw [List.mem_singleton.mp hp]
    decide
  obtain ⟨log, hreach, hhanded⟩ := reach_second Sample.limitTwo (m := Sample.dataless) ha rfl
    (by decide) (by decide) (by decide) (by decide) (str "worker-1") (hbelow _ _)
  exact ⟨_, hreach, hhanded, attempts_bounded (by decide) hreach Sample.dataless.id⟩

/-- With a limit of two, the entry is handed to `handle_message` three times. -/
theorem attempts_exceeded : ¬∀ env : Env, 1 ≤ env.cfg.pelMaxDeliveries → ∀ cfg,
    Reach (lifetime env).traced (IsWorker env) (Config.idle (Shared.initial, [])) cfg →
      ∀ id, (handed id cfg.state.2 : ℤ) ≤ env.cfg.pelMaxDeliveries := by
  intro h
  obtain ⟨cfg, hreach, hhanded⟩ := reach_exceeded Sample.limitTwo (m := Sample.dataless)
    rfl (by decide) (by decide) (by decide) (by decide) (str "worker-1")
  have hle := h Sample.limitTwo (by decide) cfg hreach.of_restrict_traced Sample.dataless.id
  rw [hhanded] at hle
  revert hle
  decide

end SecurityAudit
