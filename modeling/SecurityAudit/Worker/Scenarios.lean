import SecurityAudit.Worker.Runs

/-!
# Scenarios

Runs of several workers, put together from the stretches of `Runs`: an entry is handled; an
entry is written and the worker killed before the acknowledgement; a second event comes
under the first one's `event_id`; an entry is parsed twice; an entry is delivered as often as
the limit allows and quarantined. They hold for every environment and every entry that can be
recorded. `Sample` is an environment with concrete functions to apply them to.
-/

namespace SecurityAudit

section Scenarios

variable {env : Env} {allowed : (c : Call) → Shared → workerSig.Answer c → Prop}
  {s t : Shared} {m m' : Message} {e e' : AuditEvent} {stored stored' : AuditRow}

/-- Reached by an allowed run after which no worker is running. -/
def Quiet (env : Env) (allowed : (c : Call) → Shared → workerSig.Answer c → Prop) (s : Shared) :
    Prop :=
  Reach ((world env).restrict allowed) (IsWorker env) (Config.idle Shared.initial) (Config.idle s)

namespace Quiet

theorem reachableWhen (h : Quiet env allowed s) : ReachableWhen env allowed s := ⟨_, h, rfl⟩

theorem added {ms : List Message} (hpos : ∀ m ∈ ms, toLex (0, 0) < m.id)
    (hms : ms.Pairwise fun a b => a.id < b.id) : Quiet env allowed (Shared.added ms) :=
  reach_added (fun h => h) hpos hms

/-- Time passes. -/
theorem tick (h : Quiet env allowed s) (ms : ℕ) : Quiet env allowed { s with now := s.now + ms } :=
  h.trans (Reach.drift_idle (Drift.tick ms))

/-- A worker is started, makes some calls and is killed. -/
theorem visit (h : Quiet env allowed s) {consumer : Str} {n : ℕ}
    (hrun : ∃ q, Solo ((world env).restrict allowed) (run env consumer n) s q t) :
    Quiet env allowed t :=
  have ⟨_, hrun⟩ := hrun
  h.trans (hrun.visit ⟨consumer, n, rfl⟩)

end Quiet

/-! ## One entry -/

/-- The state after the first worker wrote the row of the one entry, and no more. -/
def Shared.written (m : Message) (e : AuditEvent) (stored : AuditRow) (consumer : Str) : Shared :=
  { (Shared.received [m] consumer).parse m e with auditEvents := [(m.id, stored)] }

/-- The write of the one entry, into an empty table. -/
theorem solo_sinkWrite_first (h : Recorded env m e stored) (consumer : Str)
    (hcommit : ∀ (s : Shared) row, s.Untouched →
      allowed (.commitAuditEvent m.id e (m.classify env e) row) s (.ok ())) :
    Solo ((world env).restrict allowed) (Sink.write env m.id e (m.classify env e))
      ((Shared.received [m] consumer).parse m e) (.ret true)
      (Shared.written m e stored consumer) :=
  solo_sinkWrite_new h (by rintro r ⟨⟩) fun row => hcommit _ row ⟨rfl, rfl⟩

/-- The one entry is handled by the first worker. -/
theorem Quiet.handled (ha : Lenient allowed) (h : Recorded env m e stored)
    (hpos : toLex (0, 0) < m.id)
    (hpending : ∀ s : Shared, s.Untouched → allowed .xpendingRange s (.ok []))
    (hcommit : ∀ (s : Shared) row, s.Untouched →
      allowed (.commitAuditEvent m.id e (m.classify env e) row) s (.ok ())) (consumer : Str) :
    Quiet env allowed ((Shared.written m e stored consumer).ack m.id
      (.handled e (m.classify env e))) :=
  (Quiet.added (by simpa using hpos) (List.pairwise_singleton _ m)).visit (solo_run_first ha
    (by simp) (by simpa using hpos) (by simp) hpending
    ((solo_handleMessage ha h.parses (solo_sinkWrite_first h consumer hcommit)).bind_left _
      |>.bind_left _))

/-- The first worker is killed between the commit of the one entry's row and its
acknowledgement. -/
theorem Quiet.written (ha : Lenient allowed) (h : Recorded env m e stored)
    (hpos : toLex (0, 0) < m.id)
    (hpending : ∀ s : Shared, s.Untouched → allowed .xpendingRange s (.ok []))
    (hcommit : ∀ (s : Shared) row, s.Untouched →
      allowed (.commitAuditEvent m.id e (m.classify env e) row) s (.ok ())) (consumer : Str) :
    Quiet env allowed (Shared.written m e stored consumer) := by
  obtain ⟨q, hq⟩ := solo_handleMessage_write ha h.parses (solo_sinkWrite_first h consumer hcommit)
  exact (Quiet.added (by simpa using hpos) (List.pairwise_singleton _ m)).visit (solo_run_first ha
    (by simp) (by simpa using hpos) (by simp) hpending ((hq.bind_left _).bind_left _))

/-! ## Two rows where there should be one, and one where there should be two -/

/-- The runs nothing is asked of. -/
def everything : (c : Call) → Shared → workerSig.Answer c → Prop := fun _ _ _ => True

theorem lenient_everything : Lenient everything := fun _ _ _ _ => trivial

/-- A second entry comes under the `event_id` of the first. Both are acknowledged, and there
is one row. -/
theorem Quiet.collision (h : Recorded env m e stored) (h' : Recorded env m' e' stored')
    (hid : e'.event_id = e.event_id) (hpos : toLex (0, 0) < m.id) (hlt : m.id < m'.id)
    (consumer : Str) :
    ∃ s, Quiet env everything s ∧ s.auditEvents = [(m.id, stored)] ∧
      (m'.id, .handled e' (m'.classify env e')) ∈ s.acked := by
  let s₁ : Shared := { (Shared.received [m, m'] consumer).parse m e with
    auditEvents := [(m.id, stored)] }
  let s₂ : Shared := (s₁.ack m.id (.handled e (m.classify env e))).parse m' e'
  have hfirst := solo_handleMessage lenient_everything h.parses
    (solo_sinkWrite_new (s := (Shared.received [m, m'] consumer).parse m e) h (by rintro r ⟨⟩)
      fun _ => trivial)
  have hsecond := solo_handleMessage lenient_everything h'.parses
    (solo_sinkWrite_taken (s := s₂) lenient_everything h' (List.mem_singleton.mpr rfl)
      (h.event_id.trans hid.symm) fun _ => trivial)
  have hadded : Quiet env everything (Shared.added [m, m']) :=
    Quiet.added (by simpa using ⟨hpos, hpos.trans hlt⟩) (by simpa using hlt)
  refine ⟨_, hadded.visit (solo_run_first lenient_everything (by simp)
    (by simpa using ⟨hpos, hpos.trans hlt⟩) (by simp) (fun _ _ => trivial)
    (.forEach_cons (.bind hfirst (.here _ _)) (.forEach_cons (.bind hsecond (.here _ _))
      (.here _ _)))), rfl, ?_⟩
  exact List.mem_append_right _ (List.mem_singleton.mpr rfl)

/-- After the first worker was killed and the idle time has passed, the entry is stale. -/
theorem stale_written (hidle : 0 ≤ env.cfg.pelMinIdleMs) (hbatch : 0 < env.cfg.pelSweepBatch)
    (consumer : Str) :
    Stale env { Shared.written m e stored consumer with
      now := (Shared.written m e stored consumer).now + env.cfg.pelMinIdleMs.toNat } m 1 :=
  ⟨rfl, ⟨consumer, 0, rfl, le_refl _⟩, hidle, hbatch⟩

/-- The first worker is killed after its commit, and a second one parses the entry again, into
an event with another id. The one entry has two rows. -/
theorem Quiet.reparsed (h : Recorded env m e stored) (h' : Recorded env m e' stored')
    (hid : e'.event_id ≠ e.event_id) (hpos : toLex (0, 0) < m.id)
    (hidle : 0 ≤ env.cfg.pelMinIdleMs) (hbatch : 0 < env.cfg.pelSweepBatch)
    (hmax : 1 < env.cfg.pelMaxDeliveries) (consumer consumer' : Str) :
    ∃ s, Quiet env everything s ∧ s.history = [m] ∧
      s.auditEvents = [(m.id, stored), (m.id, stored')] := by
  have hwritten : Quiet env everything (Shared.written m e stored consumer) :=
    .written lenient_everything h hpos (fun _ _ => trivial) (fun _ _ _ => trivial) consumer
  have hfree : ∀ r ∈ [(m.id, stored)], r.2.event_id ≠ e'.event_id := by
    intro r hr
    rw [List.mem_singleton.mp hr]
    exact fun heq => hid (heq.symm.trans h.event_id)
  let s₁ : Shared := { Shared.written m e stored consumer with
    now := (Shared.written m e stored consumer).now + env.cfg.pelMinIdleMs.toNat }
  have hagain := solo_handleMessage lenient_everything h'.parses
    (solo_sinkWrite_new (s := (s₁.claimed m consumer' 1).parse m e') h' hfree fun _ => trivial)
  refine ⟨_, (hwritten.tick _).visit (solo_run_claim lenient_everything
    (stale_written hidle hbatch consumer) (by simpa using hmax) trivial
    ((hagain.bind_left _).bind_left _)), rfl, rfl⟩

/-- A stale entry below its limit is claimed by a worker that is killed at once, and goes
stale again. -/
theorem Quiet.lostDelivery {deliveries : ℕ} (h : Quiet env everything s)
    (hstale : Stale env s m deliveries) (hlive : (deliveries : ℤ) < env.cfg.pelMaxDeliveries)
    (consumer : Str) :
    ∃ t, Quiet env everything t ∧ Stale env t m (deliveries + 1) ∧
      t.auditEvents = s.auditEvents ∧ t.quarantined = s.quarantined := by
  have hvisit : Quiet env everything (s.claimed m consumer deliveries) :=
    h.visit (solo_run_claim lenient_everything hstale hlive trivial (.here _ _))
  exact ⟨_, hvisit.tick env.cfg.pelMinIdleMs.toNat, ⟨hstale.stream, ⟨consumer, s.now, rfl, le_refl _⟩,
    hstale.minIdle, hstale.batch⟩, rfl, rfl⟩

/-- It goes on like that up to the limit. -/
theorem Quiet.exhausted (h : Quiet env everything s) (hstale : Stale env s m 1) (consumer : Str)
    {deliveries : ℕ} (hle : ((1 + deliveries : ℕ) : ℤ) ≤ env.cfg.pelMaxDeliveries) :
    ∃ t, Quiet env everything t ∧ Stale env t m (1 + deliveries) ∧
      t.auditEvents = s.auditEvents ∧ t.quarantined = s.quarantined := by
  induction deliveries with
  | zero => exact ⟨s, h, hstale, rfl, rfl⟩
  | succ n ih =>
    obtain ⟨t, ht, hstale, hrows, hquarantined⟩ := ih (by push_cast at hle ⊢; omega)
    obtain ⟨u, hu, hstale, hrows', hquarantined'⟩ :=
      ht.lostDelivery hstale (by push_cast at hle ⊢; omega) consumer
    exact ⟨u, hu, hstale, hrows'.trans hrows, hquarantined'.trans hquarantined⟩

/-- The first worker is killed after its commit, each later one right after its claim, until
the entry is at its limit and is quarantined. It has a row in both tables. -/
theorem Quiet.quarantined_written (h : Recorded env m e stored) (hpos : toLex (0, 0) < m.id)
    (hidle : 0 ≤ env.cfg.pelMinIdleMs) (hbatch : 0 < env.cfg.pelSweepBatch) (deliveries : ℕ)
    (hmax : env.cfg.pelMaxDeliveries = (1 + deliveries : ℕ)) {row : QuarantineRow}
    (hrow : quarantineRecord env m.id.text m.fields (1 + deliveries) = .ok row) (hfits : row.Fits)
    (consumer : Str) :
    ∃ s, Quiet env everything s ∧ s.auditEvents = [(m.id, stored)] ∧ s.quarantined = [row] := by
  have hwritten : Quiet env everything (Shared.written m e stored consumer) :=
    .written lenient_everything h hpos (fun _ _ => trivial) (fun _ _ _ => trivial) consumer
  obtain ⟨t, ht, hstale, hrows, hquarantined⟩ := (hwritten.tick _).exhausted
    (stale_written hidle hbatch consumer) consumer hmax.ge
  have hnone : t.quarantined = [] := hquarantined
  refine ⟨_, ht.visit (solo_run_poison lenient_everything hstale hmax.le hrow hfits
    (by simp [hnone]) trivial consumer), hrows, ?_⟩
  simp [hnone]

/-! ## A concrete environment -/

/-- Parse an entry, with the given outcome of the default factories, and store its row. -/
def record? (env : Env) (uuid : Str) (utcnow : Naive) (m : Message) :
    Option (AuditEvent × AuditRow) :=
  match parseAuditEvent env uuid utcnow (m.fields.get "data") with
  | .error _ => none
  | .ok e =>
    match sinkRecord env e (m.classify env e) with
    | .error _ => none
    | .ok row => if row.Fits then row.stored?.map fun stored => (e, stored) else none

theorem recorded_of_record? {uuid : Str} {utcnow : Naive}
    (h : record? env uuid utcnow m = some (e, stored)) : Recorded env m e stored := by
  unfold record? at h
  split at h
  · cases h
  · next e' hparse =>
    split at h
    · cases h
    · next row hrow =>
      split_ifs at h with hfits
      obtain ⟨stored', hstored, heq⟩ := Option.map_eq_some_iff.mp h
      cases heq
      exact ⟨⟨uuid, utcnow, hparse⟩, row, hrow, hfits, hstored⟩

/-- Running it shows that an entry can be recorded, and as what. -/
theorem exists_recorded (uuid : Str) (utcnow : Naive) (p : AuditEvent → AuditRow → Bool)
    (h : ((record? env uuid utcnow m).any fun r => p r.1 r.2) = true) :
    ∃ e stored, Recorded env m e stored ∧ p e stored = true := by
  cases hrecord : record? env uuid utcnow m with
  | none => simp [hrecord] at h
  | some r => exact ⟨r.1, r.2, recorded_of_record? hrecord, by simpa [hrecord] using h⟩

end Scenarios

namespace Sample

/-- Digests that spell the message out in digits. -/
def crypto : Crypto where
  sha256 _ := []
  hmacSha256 _ message := cp '0' :: message.text.flatMap fun c => padded 7 c.val
  hexdigest_ne_nil _ _ := by simp
  hexdigest_ascii _ message := by
    have hdigit : ∀ c : CodePoint, isDigit c = true → c.val < 0x80 := by
      intro c hc
      have := of_decide_eq_true hc
      omega
    rw [isAscii, List.all_eq_true]
    intro c hc
    rw [decide_eq_true_eq]
    rcases List.mem_cons.mp hc with rfl | hc
    · decide
    · obtain ⟨_, -, hc⟩ := List.mem_flatMap.mp hc
      exact hdigit c (isDigit_of_mem_padded hc)

/-- Digests that spell the message out tell messages apart. -/
theorem crypto_injective (key : Bytes) :
    Function.Injective (crypto.hmacSha256 key) := by
  have hflat : ∀ a b : Str, (a.flatMap fun c => padded 7 c.val) =
      (b.flatMap fun c => padded 7 c.val) → a = b := by
    intro a
    induction a with
    | nil =>
      intro b h
      cases b with
      | nil => rfl
      | cons c b =>
        have hlength := congrArg List.length h
        simp at hlength
        omega
    | cons c a ih =>
      intro b h
      cases b with
      | nil =>
        have hlength := congrArg List.length h
        simp at hlength
      | cons d b =>
        rw [List.flatMap_cons, List.flatMap_cons] at h
        obtain ⟨hpadded, hrest⟩ := List.append_inj h (by simp)
        have hbound : ∀ c : CodePoint, c.val < 10 ^ 7 := fun c => by omega
        rw [Fin.ext (padded_inj (hbound c) (hbound d) hpadded), ih b hrest]
  intro m₁ m₂ h
  have htext := hflat _ _ (List.cons.inj h).2
  cases m₁
  cases m₂
  cases htext
  rfl

/-- The default configuration, with a record integrity key. -/
def cfg : AuditConfig where
  streamName := str "audit:events"
  eventSigningSecret := str "change-me"
  recordIntegrityKey := some (str "0123456789abcdef0123456789abcdef")
  recordIntegrityKeyId := some (str "2026-01")
  pelMinIdleMs := 30000
  pelMaxDeliveries := 5
  pelSweepBatch := 100
  workerAutoRecreateStreamOnNogroup := false
  workerNogroupRetryBackoffMs := 2000

/-- The payloads below have no timestamp, so nothing asks for one to be read. -/
def env : Env := ⟨cfg, crypto, fun _ => none⟩

theorem utcnow_lt : 63902822400000000 < endOfTime := by decide

/-- 2026-01-01T00:00:00. -/
def utcnow : Naive := ⟨63902822400000000, utcnow_lt⟩

/-- An entry whose payload names its own event. -/
def namedData : Str :=
  str "\x7b\"event_id\": \"evt-1\", \"service\": \"gateway\", \"event_type\": \"login\"\x7d"

/-- The same `event_id` from somebody else. -/
def forgedData : Str :=
  str "\x7b\"event_id\": \"evt-1\", \"service\": \"intruder\", \"event_type\": \"noop\"\x7d"

/-- A payload without an `event_id`. -/
def anonymousData : Str := str "\x7b\"service\": \"gateway\", \"event_type\": \"login\"\x7d"

/-- The producer's signature of `namedData`. -/
def namedSig : Str :=
  match Signing.signAuditEvent crypto (str "gateway") (some namedData) cfg.eventSigningSecret with
  | .ok sig => sig
  | .error _ => []

def named : Message := ⟨toLex (2, 0), [(str "data", namedData), (str "sig", namedSig)]⟩

def forged : Message := ⟨toLex (1, 0), [(str "data", forgedData)]⟩

def anonymous : Message := ⟨toLex (1, 0), [(str "data", anonymousData)]⟩

theorem recorded_named : ∃ e stored, Recorded env named e stored ∧
    decide (e.event_id = str "evt-1" ∧ e.service = str "gateway" ∧
      stored.integrity_status = IntegrityStatus.valid.text) = true :=
  exists_recorded [] utcnow (fun e stored => decide (e.event_id = str "evt-1" ∧
    e.service = str "gateway" ∧ stored.integrity_status = IntegrityStatus.valid.text))
    (by decide +kernel)

theorem recorded_forged : ∃ e stored, Recorded env forged e stored ∧
    decide (e.event_id = str "evt-1" ∧ stored.service = str "intruder") = true :=
  exists_recorded [] utcnow (fun e stored => decide (e.event_id = str "evt-1" ∧
    stored.service = str "intruder")) (by decide +kernel)

/-- A row of `audit_events` with a given stored hash. -/
def rowWithHash (hash : Option Str) : AuditRow where
  event_id := str "evt-1"
  timestamp := utcnow
  service := str "gateway"
  event_type := str "login"
  user_id := none
  organization_id := none
  tenant_scope := TenantScope.text .unknown
  action := []
  resource := none
  decision := none
  reason := none
  trace_id := none
  context := .obj []
  integrity_status := IntegrityStatus.text .unsigned
  record_integrity_hash := hash
  integrity_key_id := some (str "2026-01")

/-- Two outcomes of `uuid4`. -/
def uuids : Str × Str :=
  (str "6f9619ff-8b86-4011-b42d-00c04fc964ff", str "0e984725-c51c-4bf4-9960-e1c80e27aba0")

/-- Parsed twice, the anonymous payload gets two ids. -/
theorem recorded_anonymous (uuid : Str) (h : uuid = uuids.1 ∨ uuid = uuids.2) :
    ∃ e stored, Recorded env anonymous e stored ∧ decide (e.event_id = uuid) = true := by
  refine exists_recorded uuid utcnow (fun e _ => decide (e.event_id = uuid)) ?_
  rcases h with rfl | rfl <;> decide +kernel

end Sample

end SecurityAudit
