import SecurityAudit.Worker.Contract
import SecurityAudit.Worker.Footprint

/-!
# The worker programs keep to the contract

One lemma for each function of the worker, in the order of the calls: what it may be started
with and what it leaves behind. Only three of them carry an argument. A write returns
normally only with evidence for its event (`safe_sinkWrite`, `safe_quarantineWrite`), the
evidence survives whatever the others do until the acknowledgement
(`safe_handleMessage`, `safe_quarantineAndAck`), and `claim_stale` returns entries of the
stream and condemned entries only (`safe_claimStale`). `inv_of_reachableWhen` is what the
results about runs start from.
-/

namespace SecurityAudit

variable {env : Env} {covers : AuditRow → AuditEvent → IntegrityStatus → Prop} {s t : Shared}

/-- A call without a precondition. -/
theorem safe_ask {c : Call} (hpre : ∀ t, CallPre env covers c t)
    {Q : Except Exc c.Reply → Shared → Prop}
    (hpost : ∀ r t, Extends s t → CallPost env covers c r t → Q r t) :
    Safe (workerContract env covers) (ask c) Q s :=
  Safe.perform (fun t _ _ => hpre t) fun r t hext _ hq => hpost r t hext hq

/-- Dealing with a missing group asks for nothing. -/
theorem callPre_of_recreates {c : Call} (h : c.Recreates) (t : Shared) : CallPre env covers c t := by
  cases c <;> trivial

theorem safe_ensureGroup :
    Safe (workerContract env covers) StreamReader.ensureGroup (fun _ _ => True) s :=
  .of_all calls_ensureGroup (fun _ t hc => callPre_of_recreates hc t) s

theorem safe_handleNogroup (context : Str) (last : LastAttempt) :
    Safe (workerContract env covers) (handleNogroup env context last) (fun _ _ => True) s :=
  .of_all (calls_handleNogroup env context last) (fun _ t hc => callPre_of_recreates hc t) s

/-- `Sink.write` returns only with evidence for the event. -/
theorem safe_sinkWrite {m : Message} {e : AuditEvent} (hm : m ∈ s.history)
    (hparsed : (m.id, e) ∈ s.parsed) :
    Safe (workerContract env covers) (Sink.write env m.id e (m.classify env e))
      (fun r t => ∀ b, r = .ok b → Evidence env covers t m.id (.handled e (m.classify env e))) s := by
  refine Safe.bind (R := fun r t => r = sinkRecord env e (m.classify env e) ∧ t = s)
    (Safe.ofExcept ⟨rfl, rfl⟩) ?_ (fun _ _ _ _ h => by cases h)
  rintro row _ ⟨hrow, rfl⟩
  -- committed, or refused because the key is taken: either way a row covers the event
  refine Safe.bind (R := fun o t => o = .ok (.ok ()) ∨ o = .ok (.error .integrityError) →
      Evidence env covers t m.id (.handled e (m.classify env e)))
    (Safe.attempt (Safe.perform ?_ ?_)) ?_ (fun _ _ _ _ h => by cases h)
  · intro t hext _
    exact ⟨⟨m, hext.history hm, rfl, rfl⟩, hext.parsed hparsed, hrow.symm⟩
  · rintro r t hext - hpost (h | h) <;> obtain rfl := Except.ok.inj h <;>
      exact ⟨⟨m, hext.history hm, rfl, rfl⟩, hext.parsed hparsed, hpost⟩
  · rintro (ex | _) t hR
    · cases ex
      case integrityError =>
        have hevidence := hR (.inr rfl)
        exact Safe.bind
          (R := fun _ u => Evidence env covers u m.id (.handled e (m.classify env e)))
          (safe_ask (fun _ => by trivial) fun _ u hext _ => hevidence.mono hext)
          (fun _ _ h _ _ => h) (fun _ _ _ _ h => by cases h)
      all_goals exact fun _ h => by cases h
    · exact fun _ _ => hR (.inl rfl)

/-- The `try`/`except`/`finally` around a write: whatever `print` and `close` do, a returned
success still has what the write had. -/
theorem safe_withSession {write : Worker Bool} {failed : Exc → Line} {J : Shared → Prop}
    (hJ : ∀ {t u}, J t → Extends t u → J u)
    (hwrite : Safe (workerContract env covers) write (fun r t => ∀ b, r = .ok b → J t) s) :
    Safe (workerContract env covers) (Prog.ensuring (tryWrite write failed) (ask .closeSession))
      (fun r t => r = .ok true → J t) s := by
  refine Safe.ensuring (R := fun r t => r = .ok true → J t) ?_ ?_
  · refine Safe.bind (R := fun o t => ∀ b, o = .ok (.ok b) → J t) (Safe.attempt (hwrite.mono ?_)) ?_
      (fun _ _ _ h => by cases h)
    · rintro r t h b hb
      exact h b (Except.ok.inj hb)
    rintro (e | b) t hR
    · -- a failure is printed, and is no success
      exact Safe.bind (R := fun _ _ => True) (safe_ask (fun _ => by trivial) fun _ _ _ _ => trivial)
        (fun _ _ _ h => by cases h) (fun _ _ _ h => by cases h)
    · exact fun _ => hR b rfl
  · intro r t hR
    refine safe_ask (fun _ => by trivial) ?_
    rintro (ex | _) u hext -
    · exact fun h => by cases h
    · exact fun h => hJ (hR h) hext

theorem safe_handleMessage {m : Message} (hm : m ∈ s.history) :
    Safe (workerContract env covers) (handleMessage env m) (fun _ _ => True) s := by
  refine Safe.bind (R := fun o t => m ∈ t.history ∧ ∀ e, o = .ok (.ok e) → (m.id, e) ∈ t.parsed)
    (Safe.attempt (Safe.perform ?_ ?_)) ?_ (fun _ _ _ => trivial)
  · exact fun t hext _ => ⟨m, hext.history hm, rfl, rfl⟩
  · intro r t hext _ hpost
    refine ⟨hext.history hm, ?_⟩
    rintro e ⟨⟩
    exact hpost
  rintro (_ | e) t ⟨hm, hparsed⟩
  · exact Safe.bind (R := fun _ _ => True) (safe_ask (fun _ => by trivial) fun _ _ _ _ => trivial)
      (fun _ _ _ => trivial) (fun _ _ _ => trivial)
  have hparsed := hparsed e rfl
  -- neither the warning nor the session changes anything
  have hstable : ∀ {u v : Shared}, (m ∈ u.history ∧ (m.id, e) ∈ u.parsed) → Extends u v →
      m ∈ v.history ∧ (m.id, e) ∈ v.parsed :=
    fun h hext => ⟨hext.history h.1, hext.parsed h.2⟩
  have hwarned : Safe (workerContract env covers) (warnInvalid m.id e (m.classify env e))
      (fun _ _ => True) t :=
    .of_all (calls_warnInvalid (P := Call.Recreates) (fun _ => trivial) _ _ _)
      (fun _ u hc => callPre_of_recreates hc u) t
  refine (hwarned.carry hstable ⟨hm, hparsed⟩).bind ?_ (fun _ _ _ => trivial)
  rintro - u ⟨-, hheld⟩
  refine Safe.bind (R := fun _ v => m ∈ v.history ∧ (m.id, e) ∈ v.parsed)
    (safe_ask (fun _ => by trivial) fun _ v hext _ => hstable hheld hext) ?_ (fun _ _ _ => trivial)
  rintro - v ⟨hm, hparsed⟩
  -- the write leaves evidence, and nothing can undo it before the acknowledgement
  refine Safe.bind (safe_withSession (fun h hext => h.mono hext) (safe_sinkWrite hm hparsed)) ?_
    (fun _ _ _ => trivial)
  rintro (_ | _) w hw
  · trivial
  · exact Safe.bind (R := fun _ _ => True)
      (Safe.perform (fun x hext _ => (hw rfl).mono hext) fun _ _ _ _ _ => trivial)
      (fun _ _ _ => trivial) (fun _ _ _ => trivial)

theorem safe_handleAll {ms : List Message} (hi : Inv env covers s) (hms : s.Known ms) :
    Safe (workerContract env covers) (handleAll env ms) (fun _ _ => True) s := by
  refine Safe.forEach (J := fun t => t.Known ms)
    (fun {t u} (h : t.Known ms) (hext : Extends t u) m hm => hext.history (h m hm))
    (fun m hm t _ hknown => ?_) hi hms
  exact Safe.bind (safe_handleMessage (hknown m hm)) (fun _ _ _ => trivial) (fun _ _ _ => trivial)

/-- `QuarantineSink.write` returns only with a row for the entry. -/
theorem safe_quarantineWrite {id : StreamId} {fields : Fields} {attempts : ℕ}
    (hid : id ∈ s.condemned) :
    Safe (workerContract env covers) (QuarantineSink.write env id fields attempts)
      (fun r t => ∀ b, r = .ok b → Evidence env covers t id .quarantined) s := by
  refine Safe.bind
    (R := fun r t => r = quarantineRecord env id.text fields attempts ∧ t = s)
    (Safe.ofExcept ⟨rfl, rfl⟩) ?_ (fun _ _ _ _ h => by cases h)
  rintro row _ ⟨hrow, rfl⟩
  have hmessage : row.stream_message_id = id.text := by
    obtain ⟨_, _, _, -, -, rfl⟩ := quarantineRecord_eq_ok hrow.symm
    rfl
  -- the alert comes after the row, and does not undo it
  refine Safe.bind (R := fun r t => r = .ok () → Evidence env covers t id .quarantined) ?_ ?_
    (fun _ _ _ _ h => by cases h)
  · refine Safe.bind (R := fun o t => o = .ok (.ok ()) ∨ o = .ok (.error .integrityError) →
        Evidence env covers t id .quarantined)
      (Safe.attempt (Safe.perform ?_ ?_)) ?_ (fun _ _ _ h => by cases h)
    · exact fun t hext _ => ⟨hext.condemned hid, hmessage, id, fields, attempts, hrow.symm⟩
    · rintro r t hext - hpost (h | h) <;> obtain rfl := Except.ok.inj h <;>
        (obtain ⟨q, hq, heq⟩ := hpost; exact ⟨q, hq, heq.trans hmessage⟩)
    · rintro (ex | _) t hR
      · cases ex
        case integrityError =>
          exact safe_ask (fun _ => by trivial) fun _ u hext _ _ => (hR (.inr rfl)).mono hext
        all_goals exact fun h => by cases h
      · exact fun _ => hR (.inl rfl)
  · rintro _ t hR
    exact Safe.bind (R := fun _ u => Evidence env covers u id .quarantined)
      (safe_ask (fun _ => by trivial) fun _ u hext _ => (hR rfl).mono hext)
      (fun _ _ h _ _ => h) (fun _ _ _ _ h => by cases h)

theorem safe_quarantineAndAck {entry : StreamReader.PoisonEntry}
    (hid : entry.message_id ∈ s.condemned) :
    Safe (workerContract env covers) (quarantineAndAck env entry) (fun _ _ => True) s := by
  refine Safe.bind (R := fun _ t => entry.message_id ∈ t.condemned)
    (safe_ask (fun _ => by trivial) fun _ t hext _ => hext.condemned hid) ?_ (fun _ _ _ => trivial)
  rintro - t hid
  refine Safe.bind (safe_withSession (fun h hext => h.mono hext) (safe_quarantineWrite hid)) ?_
    (fun _ _ _ => trivial)
  rintro (_ | _) v hv
  · trivial
  · refine Safe.bind (R := fun _ _ => True)
      (Safe.perform (fun w hext _ => (hv rfl).mono hext) fun _ _ _ _ _ => trivial) ?_
      (fun _ _ _ => trivial)
    exact fun _ w _ => Safe.bind (R := fun _ _ => True)
      (safe_ask (fun _ => by trivial) fun _ _ _ _ => trivial)
      (fun _ _ _ => trivial) (fun _ _ _ => trivial)

/-- The poison entries are the ones that were asked for. -/
theorem safe_fetchPoison (infos : List PendingInfo) :
    Safe (workerContract env covers) (StreamReader.fetchPoison infos)
      (fun r t => Extends s t ∧ ∀ entries, r = .ok entries →
        entries.map StreamReader.PoisonEntry.message_id = infos.map PendingInfo.message_id) s := by
  induction infos generalizing s with
  | nil => exact ⟨.refl s, by rintro _ ⟨⟩; rfl⟩
  | cons e rest ih =>
    refine Safe.bind (R := fun _ t => Extends s t)
      (safe_ask (fun _ => by trivial) fun _ t hext _ => hext) ?_
      (fun _ _ hext => ⟨hext, fun _ h => by cases h⟩)
    intro range t hext
    refine Safe.bind (ih (s := t)) ?_ (fun _ _ h => ⟨hext.trans h.1, fun _ h => by cases h⟩)
    rintro others u ⟨hext', hothers⟩
    refine ⟨hext.trans hext', ?_⟩
    rintro _ ⟨⟩
    rw [List.map_cons, List.map_cons, hothers others rfl]

/-- What `claim_stale` returns: entries of the stream to handle, and condemned ones. -/
theorem safe_claimStale {consumer : Str} :
    Safe (workerContract env covers) (StreamReader.claimStale env.cfg consumer)
      (fun r t => ∀ claimed poison, r = .ok (claimed, poison) → t.Known claimed ∧
        ∀ entry ∈ poison, entry.message_id ∈ t.condemned) s := by
  refine Safe.bind (R := fun r t => ∀ infos, r = .ok infos → ∀ id ∈ poisonIds env.cfg infos,
      id ∈ t.condemned) (safe_ask (fun _ => by trivial) ?_) ?_ (fun _ _ _ _ _ h => by cases h)
  · rintro r t - hpost infos rfl
    exact hpost
  intro stale t hstale
  have hstale := hstale stale rfl
  split_ifs with hempty
  · rintro _ _ ⟨⟩
    exact ⟨by simp [Shared.Known], by simp⟩
  -- the poison entries are condemned, and stay so while the others are claimed
  refine Safe.bind (R := fun r u => ∀ entries, r = .ok entries →
      ∀ entry ∈ entries, entry.message_id ∈ u.condemned) ((safe_fetchPoison _).mono ?_) ?_
    (fun _ _ _ _ _ h => by cases h)
  · rintro r u ⟨hext, hids⟩ entries hr entry hentry
    refine hext.condemned (hstale _ ?_)
    have hmem := List.mem_map_of_mem (f := StreamReader.PoisonEntry.message_id) hentry
    rw [hids entries hr] at hmem
    exact hmem
  intro poison u hpoison
  have hpoison := hpoison poison rfl
  split_ifs with hnone
  · rintro _ _ ⟨⟩
    exact ⟨by simp [Shared.Known], hpoison⟩
  · refine Safe.bind (R := fun r v => ∀ claimed, r = .ok claimed → v.Known claimed ∧
        ∀ entry ∈ poison, entry.message_id ∈ v.condemned) (safe_ask (fun _ => by trivial) ?_) ?_
      (fun _ _ _ _ _ h => by cases h)
    · rintro r v hext hpost claimed rfl
      exact ⟨hpost, fun entry hentry => hext.condemned (hpoison entry hentry)⟩
    · rintro claimed v hclaimed _ _ ⟨⟩
      exact hclaimed claimed rfl

theorem safe_sweepPending (hi : Inv env covers s) (consumer : Str) (last : LastAttempt) :
    Safe (workerContract env covers) (sweepPending env consumer last) (fun _ _ => True) s := by
  refine Safe.bind (R := fun o t => Inv env covers t ∧ ∀ claimed poison,
      o = .ok (.ok (claimed, poison)) → t.Known claimed ∧
        ∀ entry ∈ poison, entry.message_id ∈ t.condemned)
    (Safe.attempt ((safe_claimStale.frame hi).mono ?_)) ?_ (fun _ _ _ => trivial)
  · rintro r t ⟨h, -, hi'⟩
    refine ⟨hi', ?_⟩
    rintro claimed poison hr
    exact h claimed poison (Except.ok.inj hr)
  rintro (e | ⟨claimed, poison⟩) t ⟨hi, h⟩
  · refine Safe.bind (R := fun _ _ => True) (safe_ask (fun _ => by trivial) fun _ _ _ _ => trivial)
      ?_ (fun _ _ _ => trivial)
    intro _ u _
    cases e
    case noGroup => exact safe_handleNogroup _ last
    all_goals trivial
  · obtain ⟨hclaimed, hpoison⟩ := h claimed poison rfl
    refine Safe.bind (R := fun _ u => Inv env covers u ∧ u.Known claimed)
      (((Safe.forEach (J := fun u => ∀ entry ∈ poison, entry.message_id ∈ u.condemned)
        (fun {t u} h (hext : Extends t u) entry hentry => hext.condemned (h entry hentry))
        (fun entry hentry u _ hJ => ?_) hi hpoison).frame hi).mono ?_) ?_ (fun _ _ _ => trivial)
    · exact Safe.bind (safe_quarantineAndAck (hJ entry hentry)) (fun _ _ _ => trivial)
        (fun _ _ _ => trivial)
    · rintro r u ⟨-, hext, hi'⟩
      exact ⟨hi', fun m hm => hext.history (hclaimed m hm)⟩
    · rintro - u ⟨hi, hclaimed⟩
      exact Safe.bind (safe_handleAll hi hclaimed) (fun _ _ _ => trivial) (fun _ _ _ => trivial)

theorem safe_readNew (consumer : Str) (last : LastAttempt) :
    Safe (workerContract env covers) (readNew env consumer last)
      (fun r t => ∀ response last', r = .ok (response, last') → t.StreamsKnown response) s := by
  have hnone : ∀ t : Shared, t.StreamsKnown [] := fun t stream h => by cases h
  refine Safe.bind (R := fun o t => ∀ response, o = .ok (.ok response) → t.StreamsKnown response)
    (Safe.attempt (safe_ask (fun _ => by trivial) ?_)) ?_ (fun _ _ _ _ _ h => by cases h)
  · rintro r t - hpost response hr
    obtain rfl := Except.ok.inj hr
    exact hpost
  rintro (e | response) t h
  · have hprint : ∀ line u, Safe (workerContract env covers) (ask (.print line))
        (fun _ _ => True) u :=
      fun _ _ => safe_ask (fun _ => by trivial) fun _ _ _ _ => trivial
    cases e
    case redisTimeoutError =>
      rintro _ _ ⟨⟩
      exact hnone t
    case noGroup =>
      refine Safe.bind (hprint _ t) ?_ (fun _ _ _ _ _ h => by cases h)
      rintro - u -
      refine Safe.bind (safe_handleNogroup _ last) ?_ (fun _ _ _ _ _ h => by cases h)
      rintro last' v -
      refine Safe.bind (R := fun _ _ => True)
        (safe_ask (fun _ => by trivial) fun _ _ _ _ => trivial) ?_ (fun _ _ _ _ _ h => by cases h)
      rintro - w - _ _ ⟨⟩
      exact hnone w
    all_goals
      refine Safe.bind (hprint _ t) ?_ (fun _ _ _ _ _ h => by cases h)
      rintro - u - _ _ ⟨⟩
      exact hnone u
  · rintro _ _ ⟨⟩
    exact h response rfl

theorem safe_runLoop (hi : Inv env covers s) (consumer : Str) (iterations : ℕ)
    (last : LastAttempt) :
    Safe (workerContract env covers) (runLoop env consumer iterations last)
      (fun _ _ => True) s := by
  induction iterations generalizing s last with
  | zero => trivial
  | succ iterations ih =>
    refine Safe.bind ((safe_sweepPending hi consumer last).frame hi) ?_ (fun _ _ _ => trivial)
    rintro last t ⟨-, -, hi⟩
    refine Safe.bind ((safe_readNew consumer last).frame hi) ?_ (fun _ _ _ => trivial)
    rintro ⟨response, last⟩ u ⟨hknown, -, hi⟩
    refine Safe.bind ((Safe.forEach (J := fun v => v.StreamsKnown response)
        (fun {t u} h (hext : Extends t u) stream hs m hm => hext.history (h stream hs m hm))
        (fun stream hs _ hi hknown => safe_handleAll hi (hknown stream hs)) hi
        (hknown response last rfl)).frame hi) ?_ (fun _ _ _ => trivial)
    rintro - v ⟨-, -, hi⟩
    exact ih hi last

/-- Every worker keeps to the contract. -/
theorem safe_worker {p : Worker Unit} (hp : IsWorker env p) (hi : Inv env covers s) :
    Safe (workerContract env covers) p (fun _ _ => True) s := by
  obtain ⟨consumer, iterations, rfl⟩ := hp
  refine Safe.bind (safe_ensureGroup.frame hi) ?_ (fun _ _ _ => trivial)
  rintro - t ⟨-, -, hi⟩
  exact safe_runLoop hi consumer iterations none

theorem inv_initial : Inv env covers Shared.initial := by
  refine ⟨.nil, ?_, ?_, ?_, .nil, ?_, ?_, .nil, ?_⟩ <;> simp [Shared.initial]

/-- **The invariant of every run.** -/
theorem inv_of_reachableWhen {allowed : (c : Call) → Shared → workerSig.Answer c → Prop}
    (hnew : ∀ {e status row stored}, sinkRecord env e status = .ok row →
      row.stored? = some stored → covers stored e status)
    (hdup : ∀ {s source e status row r}, allowed (.commitAuditEvent source e status row) s
      (.error .integrityError) → r ∈ s.auditEvents → r.2.event_id = row.event_id →
      sinkRecord env e status = .ok row → covers r.2 e status)
    (h : ReachableWhen env allowed s) : Inv env covers s := by
  obtain ⟨cfg, hreach, rfl⟩ := h
  exact ((world_sound hnew hdup).reach (fun p hp t hi => safe_worker hp hi) inv_initial hreach).1

end SecurityAudit
