import SecurityAudit.Prog.Trace
import SecurityAudit.Worker.Scenarios

/-!
# Surviving failures

A worker is to survive every exception of Redis and of the database. Reads, claims, writes and
rollbacks are tried; an acknowledgement, opening and closing a session, and everything that is
printed, also inside an `except` clause, stand outside of every `try` (`Call.Uncaught`). So a
sweep returns, and a run completes its iterations, exactly if none of these raised, and then every
message of every batch had its turn (`survives_unless_uncaught`).
-/

namespace SecurityAudit

open Prog

/-- The calls whose exceptions nothing catches. Only the alert about a quarantined entry is emitted
inside of a `try`, that of its write. -/
def Call.Uncaught : Call → Prop
  | .xack _ _ | .openSession | .closeSession | .print _ | .alert (.groupMissing _)
  | .alert (.groupRecreated _) => True
  | _ => False

/-- Reading the clock and pausing, which do not raise. -/
def Call.Clock : Call → Prop
  | .monotonic | .sleep _ => True
  | _ => False

variable (env : Env)

/-- A sweep: if `claim_stale` returned, each poison entry and each claimed message had its
turn. -/
def Swept (consumer : Str) (log : List workerSig.Event) : Prop :=
  ∃ claiming rest result, log = claiming ++ rest ∧
    Transcript (StreamReader.claimStale env.cfg consumer) claiming result ∧
    ∀ claimed poison, result = .ok (claimed, poison) →
      ∃ quarantining handling, rest = quarantining ++ handling ∧
        Attempted (quarantineAndAck env) poison quarantining ∧
        Attempted (handleMessage env) claimed handling

/-- So many iterations: a sweep, a group read that is dealt with, and a turn for each message
that was read. -/
def Iterated (consumer : Str) : ℕ → List workerSig.Event → Prop
  | 0, log => log = []
  | iterations + 1, log => ∃ sweep reading handling rest last response last',
      log = sweep ++ (reading ++ (handling ++ rest)) ∧ Swept env consumer sweep ∧
      Transcript (readNew env consumer last) reading (.ok (response, last')) ∧
      Attempted (handleMessage env) (response.flatMap Prod.snd) handling ∧
      Iterated consumer iterations rest

/-- A run: start-up, and so many iterations. -/
def Completed (consumer : Str) (iterations : ℕ) (log : List workerSig.Event) : Prop :=
  ∃ startup rest, log = startup ++ rest ∧
    Transcript StreamReader.ensureGroup startup (.ok ()) ∧ Iterated env consumer iterations rest

/-! ## What is tried -/

variable {env}

theorem caught_ensureGroup : StreamReader.ensureGroup.All fun c : Call => ¬c.Uncaught := by
  refine All.bind (All.attempt (all_perform id)) fun o => ?_
  rcases o with e | _
  · cases e <;> trivial
  · trivial

theorem caught_claimStale (consumer : Str) :
    (StreamReader.claimStale env.cfg consumer).All fun c : Call => ¬c.Uncaught := by
  have hfetch : ∀ infos, (StreamReader.fetchPoison infos).All fun c : Call => ¬c.Uncaught := by
    intro infos
    induction infos with
    | nil => trivial
    | cons e rest ih => exact All.bind (all_perform id) fun _ => ih.bind fun _ => trivial
  refine All.bind (all_perform id) fun stale => ?_
  split_ifs
  · trivial
  · refine All.bind (hfetch _) fun poison => ?_
    split_ifs
    · trivial
    · exact All.bind (all_perform id) fun _ => trivial

/-- Both sinks: build a row, try to commit it, and roll back if the key is taken. -/
theorem caught_sinkWrite (source : StreamId) (e : AuditEvent) (status : IntegrityStatus) :
    (Sink.write env source e status).All fun c : Call => ¬c.Uncaught := by
  refine All.bind (all_ofExcept _) fun row => All.bind (All.attempt (all_perform id)) fun o => ?_
  rcases o with ex | _
  · cases ex <;> try trivial
    exact All.bind (all_perform id) fun _ => trivial
  · trivial

theorem caught_quarantineWrite (id : StreamId) (fields : Fields) (attempts : ℕ) :
    (QuarantineSink.write env id fields attempts).All fun c : Call => ¬c.Uncaught := by
  refine All.bind (all_ofExcept _) fun row => All.bind ?_ fun _ =>
    All.bind (all_perform fun h => h) fun _ => trivial
  refine All.bind (All.attempt (all_perform fun h => h)) fun o => ?_
  rcases o with ex | _
  · cases ex <;> try trivial
    exact all_perform fun h => h
  · trivial

/-! ## What is left outside -/

/-- A line is printed, and the program goes on. -/
theorem settles_print {α : Type} {line : Line} {next : Worker α}
    (h : Settles Call.Uncaught Call.Clock next) :
    Settles Call.Uncaught Call.Clock (do ask (.print line); next) :=
  Settles.bind (.perform (.inl trivial)) fun _ => h

theorem settles_handleNogroup (context : Str) (last : LastAttempt) :
    Settles Call.Uncaught Call.Clock (handleNogroup env context last) := by
  refine settles_print (Settles.bind (.perform (.inl trivial)) fun _ => ?_)
  split_ifs
  · trivial
  · refine Settles.bind (.perform (.inr trivial)) fun now => ?_
    split_ifs
    · trivial
    · refine Settles.bind (.attempt caught_ensureGroup) fun o => ?_
      rcases o with e | _
      · exact settles_print trivial
      · exact settles_print (Settles.bind (.perform (.inl trivial)) fun _ => trivial)

theorem settles_warnInvalid (id : StreamId) (e : AuditEvent) (status : IntegrityStatus) :
    Settles Call.Uncaught Call.Clock (warnInvalid id e status) := by
  cases status with
  | invalid => exact .perform (.inl trivial)
  | _ => trivial

/-- A write in its session: where it fails, the line is printed before the session is closed. -/
theorem settles_withSession {write : Worker Bool} {failed : Exc → Line}
    (h : write.All fun c : Call => ¬c.Uncaught) :
    Settles Call.Uncaught Call.Clock
      (Prog.ensuring (tryWrite write failed) (ask .closeSession)) := by
  refine .ensuring (Settles.bind (.attempt h) fun o => ?_) (.perform (.inl trivial))
  rcases o with e | _
  · exact settles_print trivial
  · trivial

theorem settles_handleMessage (m : Message) :
    Settles Call.Uncaught Call.Clock (handleMessage env m) := by
  refine Settles.bind (.attempt (all_perform id)) fun o => ?_
  rcases o with e | event
  · exact settles_print trivial
  refine (settles_warnInvalid _ _ _).bind fun _ => ?_
  refine Settles.bind (.perform (.inl trivial)) fun _ => ?_
  refine (settles_withSession (caught_sinkWrite _ _ _)).bind fun written => ?_
  cases written with
  | false => trivial
  | true => exact Settles.bind (.perform (.inl trivial)) fun _ => trivial

theorem settles_quarantineAndAck (entry : StreamReader.PoisonEntry) :
    Settles Call.Uncaught Call.Clock (quarantineAndAck env entry) := by
  refine Settles.bind (.perform (.inl trivial)) fun _ => ?_
  refine (settles_withSession (caught_quarantineWrite _ _ _)).bind fun written => ?_
  cases written with
  | false => trivial
  | true => exact Settles.bind (.perform (.inl trivial)) fun _ => settles_print trivial

theorem settles_handleAll (ms : List Message) :
    Settles Call.Uncaught Call.Clock (handleAll env ms) :=
  .forEach fun m _ => (settles_handleMessage m).bind fun _ => trivial

theorem settles_sweepPending (consumer : Str) (last : LastAttempt) :
    Settles Call.Uncaught Call.Clock (sweepPending env consumer last) := by
  refine Settles.bind (.attempt (caught_claimStale consumer)) fun o => ?_
  rcases o with e | ⟨claimed, poison⟩
  · refine settles_print ?_
    cases e <;> try trivial
    exact settles_handleNogroup _ last
  · refine Settles.bind (.forEach fun entry _ =>
      (settles_quarantineAndAck entry).bind fun _ => trivial) fun _ => ?_
    exact (settles_handleAll claimed).bind fun _ => trivial

theorem settles_readNew (consumer : Str) (last : LastAttempt) :
    Settles Call.Uncaught Call.Clock (readNew env consumer last) := by
  refine Settles.bind (.attempt (all_perform id)) fun o => ?_
  rcases o with e | response
  · cases e with
    | redisTimeoutError => trivial
    | noGroup =>
      refine settles_print ((settles_handleNogroup _ last).bind fun _ => ?_)
      exact Settles.bind (.perform (.inr trivial)) fun _ => trivial
    | _ => exact settles_print trivial
  · trivial

theorem settles_runLoop (consumer : Str) (iterations : ℕ) (last : LastAttempt) :
    Settles Call.Uncaught Call.Clock (runLoop env consumer iterations last) := by
  induction iterations generalizing last with
  | zero => trivial
  | succ iterations ih =>
    refine (settles_sweepPending consumer last).bind fun last => ?_
    refine (settles_readNew consumer last).bind fun read => ?_
    refine Settles.bind (.forEach fun stream _ => settles_handleAll stream.2) fun _ => ?_
    exact ih _

/-! ## Every message has its turn -/

theorem attempted_handleAll {ms : List Message} {log : List workerSig.Event}
    (h : Transcript (handleAll env ms) log (.ok ())) : Attempted (handleMessage env) ms log :=
  h.of_forEach fun _ => rfl

theorem swept_of_returned {consumer : Str} {last last' : LastAttempt} {log : List workerSig.Event}
    (h : Transcript (sweepPending env consumer last) log (.ok last')) : Swept env consumer log := by
  obtain ⟨r, claiming, rest, rfl, hclaim, h⟩ := h.of_bind_ok
  obtain ⟨result, hr, hclaim⟩ := hclaim.of_attempt
  cases hr
  refine ⟨claiming, rest, _, rfl, hclaim, ?_⟩
  rintro claimed poison rfl
  obtain ⟨_, quarantining, rest', rfl, hpoison, h⟩ := Transcript.of_bind_ok h
  obtain ⟨_, handling, nothing, rfl, hclaimed, h⟩ := Transcript.of_bind_ok h
  cases h
  rw [List.append_nil]
  exact ⟨quarantining, handling, rfl, hpoison.of_forEach fun _ => rfl, attempted_handleAll hclaimed⟩

/-- The streams of one response, message by message. -/
theorem attempted_streams {response : List (Str × List Message)} {log : List workerSig.Event}
    (h : Transcript (forEach (fun stream => handleAll env stream.2) response) log (.ok ())) :
    Attempted (handleMessage env) (response.flatMap Prod.snd) log := by
  induction response generalizing log with
  | nil =>
    cases h
    exact ⟨[], rfl, .nil⟩
  | cons stream response ih =>
    obtain ⟨_, first, rest, rfl, hfirst, hrest⟩ := Transcript.of_bind_ok h
    exact (attempted_handleAll hfirst).append (ih hrest)

theorem iterated_of_returned {consumer : Str} {iterations : ℕ} {last : LastAttempt}
    {log : List workerSig.Event}
    (h : Transcript (runLoop env consumer iterations last) log (.ok ())) :
    Iterated env consumer iterations log := by
  induction iterations generalizing last log with
  | zero =>
    cases h
    rfl
  | succ iterations ih =>
    obtain ⟨last₁, sweep, rest, rfl, hsweep, h⟩ := h.of_bind_ok
    obtain ⟨⟨response, last₂⟩, reading, rest', rfl, hread, h⟩ := Transcript.of_bind_ok h
    obtain ⟨_, handling, rest, rfl, hbatch, h⟩ := Transcript.of_bind_ok h
    exact ⟨sweep, reading, handling, rest, last₁, response, last₂, rfl, swept_of_returned hsweep,
      hread, attempted_streams hbatch, ih h⟩

/-! ## What a worker survives -/

variable (env) in
/-- **A worker survives every exception but those of an acknowledgement, of opening or closing a
session, and of its own output.** However its calls are answered, a sweep
returns, having given each message its turn, and a run that got through start-up completes its
iterations, exactly if none of these raised. -/
theorem survives_unless_uncaught (consumer : Str) (last : LastAttempt) (iterations : ℕ)
    (before : List workerSig.Event) (answer : workerSig.Answering)
    (hclock : ∀ before (c : Call), c.Clock → (answer before c).isOk = true) :
    let sweep := (sweepPending env consumer last).play answer before
    let whole := (run env consumer iterations).play answer []
    ((∃ last', sweep.2 = .ok last') ∧ Swept env consumer sweep.1 ↔
      Unraised Call.Uncaught sweep.1) ∧
    ((StreamReader.ensureGroup.play answer []).2 = .ok () →
      (whole.2 = .ok () ∧ Completed env consumer iterations whole.1 ↔
        Unraised Call.Uncaught whole.1)) := by
  intro sweep whole
  constructor
  · have hiff := (@settles_sweepPending env consumer last).play_returns_iff hclock before
    constructor
    · rintro ⟨hret, -⟩
      exact hiff.mp hret
    · intro hcaught
      obtain ⟨last', hret⟩ := hiff.mpr hcaught
      have hsweep := transcript_play answer before (sweepPending env consumer last)
      rw [hret] at hsweep
      exact ⟨⟨last', hret⟩, swept_of_returned hsweep⟩
  · intro hstart
    have hstartup := transcript_play answer [] StreamReader.ensureGroup
    rw [hstart] at hstartup
    let startup := (StreamReader.ensureGroup.play answer []).1
    let rest := (runLoop env consumer iterations none).play answer startup
    have hwhole : whole = (startup ++ rest.1, rest.2) := play_bind hstart
    have hiff := (@settles_runLoop env consumer iterations none).play_returns_iff hclock
      startup
    have hcaught : Unraised Call.Uncaught whole.1 ↔ Unraised Call.Uncaught rest.1 := by
      rw [hwhole, Unraised.append]
      exact and_iff_right fun e he hc => absurd hc (hstartup.all caught_ensureGroup e he)
    rw [hcaught, ← hiff, hwhole]
    constructor
    · rintro ⟨hret, -⟩
      exact ⟨(), hret⟩
    · rintro ⟨_, hret⟩
      have hloop := transcript_play answer startup (runLoop env consumer iterations none)
      rw [hret] at hloop
      exact ⟨hret, startup, rest.1, rfl, hstartup, iterated_of_returned hloop⟩

/-! ## One sweep -/

section

variable {e : AuditEvent} {row : AuditRow} {m : Message}

theorem transcript_ask {c : Call} (r : workerSig.Answer c) : Transcript (ask c) [⟨c, r⟩] r :=
  .perform r

/-- What `handle_message` prints about the signature. -/
def warned (id : StreamId) (e : AuditEvent) : IntegrityStatus → List workerSig.Event
  | .invalid => [⟨.print (.signatureInvalid id e.service e.event_id), .ok ()⟩]
  | _ => []

theorem transcript_warnInvalid (id : StreamId) (e : AuditEvent) (status : IntegrityStatus) :
    Transcript (warnInvalid id e status) (warned id e status) (.ok ()) := by
  cases status with
  | invalid => exact transcript_ask (c := .print _) (.ok ())
  | _ => exact .ret ()

/-- The calls of a message that is persisted, up to its acknowledgement. -/
def persisted (env : Env) (m : Message) (e : AuditEvent) (row : AuditRow)
    (acked : Except Exc Unit) : List workerSig.Event :=
  ⟨.parse m.id (m.fields.get "data"), .ok e⟩ :: (warned m.id e (m.classify env e) ++
    [⟨.openSession, .ok ()⟩, ⟨.commitAuditEvent m.id e (m.classify env e) row, .ok ()⟩,
      ⟨.closeSession, .ok ()⟩, ⟨.xack m.id (.handled e (m.classify env e)), acked⟩])

theorem transcript_handleMessage (hrow : sinkRecord env e (m.classify env e) = .ok row)
    (acked : Except Exc Unit) :
    Transcript (handleMessage env m) (persisted env m e row acked) (acked.map fun _ => true) := by
  have hwrite : Transcript (Sink.write env m.id e (m.classify env e))
      [⟨.commitAuditEvent m.id e (m.classify env e) row, .ok ()⟩] (.ok true) := by
    unfold Sink.write
    rw [hrow]
    refine Transcript.call _ ?_
    exact .ret true
  have htried : Transcript (tryWrite (Sink.write env m.id e (m.classify env e))
      (.persistFailed m.id)) [⟨.commitAuditEvent m.id e (m.classify env e) row, .ok ()⟩]
      (.ok true) := hwrite.attempt.bind (.ret true)
  have hack : Transcript (do StreamReader.ack m.id (.handled e (m.classify env e)); return true)
      [⟨.xack m.id (.handled e (m.classify env e)), acked⟩] (acked.map fun _ => true) := by
    cases acked
    · exact .call _ (.raise _)
    · exact .call _ (.ret true)
  refine Transcript.call _ ((transcript_warnInvalid m.id e _).bind (Transcript.call _ ?_))
  show Transcript (Prog.bind (Prog.ensuring (tryWrite (Sink.write env m.id e (m.classify env e))
    (.persistFailed m.id)) (ask .closeSession)) _) _ _
  refine Transcript.bind (Transcript.ensuring htried
    (transcript_ask (c := .closeSession) (.ok ()))) ?_
  exact hack

/-- A sweep that claims one message and persists it. -/
theorem transcript_sweepPending (hrow : sinkRecord env e (m.classify env e) = .ok row)
    (hlive : (1 : ℤ) < env.cfg.pelMaxDeliveries) (consumer : Str) (last : LastAttempt)
    (acked : Except Exc Unit) :
    Transcript (sweepPending env consumer last)
      (⟨.xpendingRange, .ok [⟨m.id, 1⟩]⟩ :: ⟨.xclaim consumer [m.id], .ok [m]⟩ ::
        persisted env m e row acked) (acked.map fun _ => last) := by
  have hreclaimable : ([⟨m.id, 1⟩] : List PendingInfo).filter (fun i =>
      decide ((i.times_delivered : ℤ) < env.cfg.pelMaxDeliveries)) = [⟨m.id, 1⟩] := by
    simpa using hlive
  have hpoison : ([⟨m.id, 1⟩] : List PendingInfo).filter (fun i =>
      decide (env.cfg.pelMaxDeliveries ≤ (i.times_delivered : ℤ))) = [] := by
    simpa using hlive
  have hids : ((([⟨m.id, 1⟩] : List PendingInfo).filter fun i =>
      decide ((i.times_delivered : ℤ) < env.cfg.pelMaxDeliveries)).map PendingInfo.message_id) =
        [m.id] := by
    rw [hreclaimable]
    rfl
  have hsome : (([⟨m.id, 1⟩] : List PendingInfo).filter fun i =>
      decide ((i.times_delivered : ℤ) < env.cfg.pelMaxDeliveries)).isEmpty = false := by
    rw [hreclaimable]
    rfl
  have hclaim : Transcript (StreamReader.claimStale env.cfg consumer)
      [⟨.xpendingRange, .ok [⟨m.id, 1⟩]⟩, ⟨.xclaim consumer [m.id], .ok [m]⟩]
      (.ok ([m], [])) := by
    -- the call is made with the filtered list, so the filter goes only once it was answered
    rw [← hids]
    refine Transcript.bind (transcript_ask (c := .xpendingRange) (.ok [⟨m.id, 1⟩])) ?_
    simp only [List.isEmpty_cons, hsome, hpoison, StreamReader.fetchPoison, Prog.pure_eq,
      Prog.ret_bind, Bool.false_eq_true, if_false]
    exact Transcript.bind (f := fun claimed => .ret (claimed, [])) (transcript_ask _) (.ret _)
  have hrest : Transcript (do handleAll env [m]; return last) (persisted env m e row acked)
      (acked.map fun _ => last) := by
    have hturn := transcript_handleMessage hrow acked
    cases acked with
    | error ex =>
      refine Transcript.bind_error ?_
      exact Transcript.bind_error (Transcript.bind_error hturn)
    | ok _ =>
      have hall : Transcript (handleAll env [m]) _ (.ok ()) :=
        (hturn.bind (f := fun _ => .ret ()) (.ret ())).bind (f := fun _ => .ret ()) (.ret ())
      rw [List.append_nil, List.append_nil] at hall
      rw [← List.append_nil (persisted env m e row (.ok _))]
      exact hall.bind (f := fun _ => .ret last) (.ret last)
  exact Transcript.bind hclaim.attempt hrest

end

namespace Sample

/-- A pending list with one entry that is due, whose payload is `e`; what is not about it is
answered, and acknowledgements end with `acked`. -/
def oneStale (m : Message) (e : AuditEvent) (acked : Except Exc Unit) : workerSig.Answering :=
  fun _ c => match c with
    | .xpendingRange => .ok [⟨m.id, 1⟩]
    | .xclaim _ _ => .ok [m]
    | .parse _ _ => .ok e
    | .xack _ _ => acked
    | .xreadgroup _ => .ok []
    | .xrange _ => .ok []
    | .monotonic => .ok (0 : ℕ)
    | .xgroupCreate | .openSession | .closeSession | .commitAuditEvent _ _ _ _
    | .commitQuarantined _ _ | .rollback | .sleep _ | .print _ | .alert _ => .ok ()

end Sample

/-- With every call answered, a run of one iteration completes. -/
theorem survives_unless_uncaught_quiet : ∃ e,
    let whole := (run Sample.env (str "worker-1") 1).play
      (Sample.oneStale Sample.named e (.ok ())) []
    whole.2 = .ok () ∧ Completed Sample.env (str "worker-1") 1 whole.1 := by
  obtain ⟨e, stored, hrec, -⟩ := Sample.recorded_named
  have hanswered : ∀ before (c : Call),
      (Sample.oneStale Sample.named e (.ok ()) before c).isOk = true := by
    intro before c
    cases c <;> rfl
  have hrun := (survives_unless_uncaught Sample.env (str "worker-1") none 1 []
    (Sample.oneStale Sample.named e (.ok ())) fun before c _ => hanswered before c).2 rfl
  exact ⟨e, hrun.mpr (unraised_play (fun before c _ => hanswered before c) _ _)⟩

/-- The acknowledgement of a persisted message times out, and `sweep_pending` raises. -/
theorem ack_timeout_escapes : ¬∀ (env : Env) (consumer : Str) (last : LastAttempt)
    (answer : workerSig.Answering),
    (∀ before (c : Call), c.Clock ∨ c.Output → (answer before c).isOk = true) →
      ∃ last', ((sweepPending env consumer last).play answer []).2 = .ok last' := by
  intro h
  obtain ⟨e, stored, hrec, -⟩ := Sample.recorded_named
  obtain ⟨row, hrow, -⟩ := hrec.writes
  obtain ⟨last', hret⟩ := h Sample.env (str "worker-1") none
    (Sample.oneStale Sample.named e (.error .redisTimeoutError))
    (fun before c hc => by cases c <;> first | rfl | exact (hc.elim id id).elim)
  have hsweep := transcript_sweepPending hrow (by decide) (str "worker-1") none
    (.error .redisTimeoutError)
  have hanswered : ∀ x ∈ persisted Sample.env Sample.named e row (.error .redisTimeoutError),
      ∀ before, Sample.oneStale Sample.named e (.error .redisTimeoutError) before x.1 = x.2 := by
    have hwarned : ∀ x ∈ warned Sample.named.id e (Sample.named.classify Sample.env e),
        ∀ before, Sample.oneStale Sample.named e (.error .redisTimeoutError) before x.1 = x.2 := by
      cases Sample.named.classify Sample.env e <;> simp [warned, Sample.oneStale]
    simp only [persisted, List.forall_mem_cons, List.forall_mem_append]
    exact ⟨fun _ => rfl, hwarned, fun _ => rfl, fun _ => rfl, fun _ => rfl, fun _ => rfl, by simp⟩
  have hplay := hsweep.eq_play (Sample.oneStale Sample.named e (.error .redisTimeoutError))
    (by simp only [List.forall_mem_cons]; exact ⟨fun _ => rfl, fun _ => rfl, hanswered⟩) []
  rw [hplay] at hret
  cases hret

end SecurityAudit
