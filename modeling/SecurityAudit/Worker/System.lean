import SecurityAudit.Worker.Main

/-!
# The world of the workers

One Redis stream with one consumer group, one database with the two tables, a clock, and the
history a statement about runs needs. `Executes` says what each call does when it is carried
out, `Fails` which exceptions it may raise without having done anything, and `Answers` puts
them together: a remote call may also have been carried out and its reply lost. A command is sent
once; redis-py's own retries are left out. Producers, trimming, the clock and the loss of the
group move the state on their own (`Drift`).

Entry ids never repeat: a new entry has a larger id than every entry before it, also when the
stream was deleted in between. `XCLAIM` follows Redis 7, which drops a pending id whose entry
is gone. Two primary keys are the same if they are the same text, as under a binary collation; the
migrations leave the collation to the server.
-/

namespace SecurityAudit

/-! ## Redis -/

/-- A row of the pending entries list. -/
structure Pending where
  id : StreamId
  consumer : Str
  deliveredAt : ℕ
  deliveries : ℕ

/-- The consumer group: its cursor and its pending entries list, in id order. -/
structure Group where
  lastDelivered : StreamId
  pel : List Pending

namespace Group

/-- `XGROUP CREATE ... 0-0`. -/
def fresh : Group := ⟨toLex (0, 0), []⟩

/-- The entries a group read hands out. -/
def newMessages (g : Group) (stream : List Message) : List Message :=
  (stream.filter fun m => g.lastDelivered < m.id).take 10

/-- The group after it handed them out. -/
def deliver (g : Group) (now : ℕ) (consumer : Str) (new : List Message) : Group where
  lastDelivered := (new.getLast?.map Message.id).getD g.lastDelivered
  pel := g.pel ++ new.map fun m => ⟨m.id, consumer, now, 1⟩

/-- Idle at least `minIdle`. -/
def idle (now : ℕ) (minIdle : ℤ) (p : Pending) : Bool :=
  decide (minIdle ≤ (now : ℤ) - p.deliveredAt)

/-- The reply to `XPENDING`. -/
def pendingRange (g : Group) (now : ℕ) (minIdle : ℤ) (count : ℕ) : List PendingInfo :=
  ((g.pel.filter (idle now minIdle)).take count).map fun p => ⟨p.id, p.deliveries⟩

/-- `XCLAIM` of one id: the entry if it is pending and was idle long enough. An id whose entry
does not exist any more is not pending afterwards, however short it was idle. -/
def claimOne (stream : List Message) (now : ℕ) (minIdle : ℤ) (consumer : Str)
    (acc : Group × List Message) (id : StreamId) : Group × List Message :=
  let (g, claimed) := acc
  match stream.find? fun m => m.id = id with
  | none => ({ g with pel := g.pel.filter fun p => p.id ≠ id }, claimed)
  | some m =>
    if ∃ p ∈ g.pel, p.id = id ∧ idle now minIdle p = true then
      ({ g with pel := g.pel.map fun p =>
          if p.id = id then ⟨id, consumer, now, p.deliveries + 1⟩ else p }, claimed ++ [m])
    else acc

/-- `XCLAIM`. -/
def claim (g : Group) (stream : List Message) (now : ℕ) (minIdle : ℤ) (consumer : Str)
    (ids : List StreamId) : Group × List Message :=
  ids.foldl (claimOne stream now minIdle consumer) (g, [])

/-- `XACK`. -/
def ack (g : Group) (id : StreamId) : Group := { g with pel := g.pel.filter fun p => p.id ≠ id }

/-- Only entries of the stream are claimed. -/
theorem mem_claim {g : Group} {stream : List Message} {now : ℕ} {minIdle : ℤ} {consumer : Str}
    {ids : List StreamId} {m : Message} (h : m ∈ (g.claim stream now minIdle consumer ids).2) :
    m ∈ stream := by
  suffices H : ∀ (acc : Group × List Message), (∀ m ∈ acc.2, m ∈ stream) →
      ∀ m ∈ (ids.foldl (claimOne stream now minIdle consumer) acc).2, m ∈ stream from
    H (g, []) (by simp) m h
  clear h
  induction ids with
  | nil => exact fun acc hacc => hacc
  | cons id ids ih =>
    intro acc hacc
    refine ih (claimOne stream now minIdle consumer acc id) fun m hm => ?_
    unfold claimOne at hm
    dsimp only at hm
    split at hm
    · exact hacc m hm
    · next m' hfind =>
      split_ifs at hm
      · rcases List.mem_append.mp hm with hm | hm
        · exact hacc m hm
        · rw [List.mem_singleton.mp hm]
          exact List.mem_of_find?_eq_some hfind
      · exact hacc m hm

theorem mem_newMessages {g : Group} {stream : List Message} {m : Message}
    (h : m ∈ g.newMessages stream) : m ∈ stream :=
  List.mem_of_mem_filter (List.mem_of_mem_take h)

end Group

/-! ## The shared state -/

/-- The state the workers share. The last four fields are history: every entry ever added,
every event parsed and from which entry, every id acknowledged and why, and every id a
pending list has shown at or above the delivery limit. A row of `audit_events` is kept with
the entry it was written for. -/
structure Shared where
  now : ℕ
  stream : List Message
  group : Option Group
  auditEvents : List (StreamId × AuditRow)
  quarantined : List QuarantineRow
  history : List Message
  parsed : List (StreamId × AuditEvent)
  acked : List (StreamId × AckReason)
  condemned : List StreamId

/-- Nothing was ever added, written or acknowledged. -/
def Shared.initial : Shared where
  now := 0
  stream := []
  group := none
  auditEvents := []
  quarantined := []
  history := []
  parsed := []
  acked := []
  condemned := []

/-- The pending rows at or above the delivery limit. -/
def poisonIds (cfg : AuditConfig) (infos : List PendingInfo) : List StreamId :=
  (infos.filter fun e => decide (cfg.pelMaxDeliveries ≤ e.times_delivered)).map
    PendingInfo.message_id

/-- The reply to a group read: nothing, or the stream with its new messages. -/
def groupReply (streamName : Str) (new : List Message) : List (Str × List Message) :=
  if new.isEmpty then [] else [(streamName, new)]

variable (env : Env)

/-- `Executes env c s v s'`: carried out in `s`, the call `c` answers `v` and leaves `s'`. -/
inductive Executes : (c : Call) → Shared → c.Reply → Shared → Prop where
  | xgroupCreate {s : Shared} (free : s.group = none) :
      Executes .xgroupCreate s () { s with group := some .fresh }
  | xreadgroup {s : Shared} {g : Group} {consumer : Str} (hg : s.group = some g) :
      Executes (.xreadgroup consumer) s (groupReply env.cfg.streamName (g.newMessages s.stream))
        { s with group := some (g.deliver s.now consumer (g.newMessages s.stream)) }
  | xpendingRange {s : Shared} {g : Group} {infos : List PendingInfo} (hg : s.group = some g)
      (hinfos : infos = g.pendingRange s.now env.cfg.pelMinIdleMs env.cfg.pelSweepBatch) :
      Executes .xpendingRange s infos
        { s with condemned := s.condemned ++ poisonIds env.cfg infos }
  | xrange {s : Shared} {id : StreamId} :
      Executes (.xrange id) s (s.stream.filter fun m => m.id = id) s
  | xclaim {s : Shared} {g : Group} {consumer : Str} {ids : List StreamId}
      (hg : s.group = some g) :
      Executes (.xclaim consumer ids) s
        (g.claim s.stream s.now env.cfg.pelMinIdleMs consumer ids).2
        { s with group := some (g.claim s.stream s.now env.cfg.pelMinIdleMs consumer ids).1 }
  | xack {s : Shared} {id : StreamId} {reason : AckReason} :
      Executes (.xack id reason) s ()
        { s with group := s.group.map fun g => g.ack id, acked := s.acked ++ [(id, reason)] }
  | parse {s : Shared} {source : StreamId} {raw : Option Str} {uuid : Str} {utcnow : Naive}
      {e : AuditEvent} (accepted : parseAuditEvent env uuid utcnow raw = .ok e) :
      Executes (.parse source raw) s e { s with parsed := s.parsed ++ [(source, e)] }
  | openSession {s : Shared} : Executes .openSession s () s
  | closeSession {s : Shared} : Executes .closeSession s () s
  | commitAuditEvent {s : Shared} {source : StreamId} {e : AuditEvent} {status : IntegrityStatus}
      {row stored : AuditRow} (fits : row.Fits) (hstored : row.stored? = some stored)
      (free : ∀ r ∈ s.auditEvents, r.2.event_id ≠ row.event_id) :
      Executes (.commitAuditEvent source e status row) s ()
        { s with auditEvents := s.auditEvents ++ [(source, stored)] }
  | commitQuarantined {s : Shared} {source : StreamId} {row : QuarantineRow} (fits : row.Fits)
      (free : ∀ r ∈ s.quarantined, r.stream_message_id ≠ row.stream_message_id) :
      Executes (.commitQuarantined source row) s ()
        { s with quarantined := s.quarantined ++ [row] }
  | rollback {s : Shared} : Executes .rollback s () s
  | monotonic {s : Shared} : Executes .monotonic s s.now s
  | sleep {s : Shared} {ms : ℕ} : Executes (.sleep ms) s () s
  | print {s : Shared} {line : Line} : Executes (.print line) s () s
  | alert {s : Shared} {alert : Alert} : Executes (.alert alert) s () s

/-- How a call that left this process can fail for no reason of its own. -/
def Call.TransportError : Call → Exc → Prop
  | .xgroupCreate, e | .xreadgroup _, e | .xpendingRange, e | .xrange _, e | .xclaim _ _, e
  | .xack _ _, e => e = .redisError ∨ e = .redisTimeoutError
  | .openSession, e | .closeSession, e | .rollback, e | .commitAuditEvent _ _ _ _, e
  | .commitQuarantined _ _, e => e = .sqlAlchemyError
  | .parse _ _, _ | .monotonic, _ | .sleep _, _ | .print _, _ | .alert _, _ => False

/-- The calls that put a text together and write it somewhere. -/
def Call.Output : Call → Prop
  | .print _ | .alert _ => True
  | _ => False

/-- `Fails env c s e`: the call `c` made in `s` may raise `e` and change nothing. A primary
key that is already there is the one reason for an `IntegrityError` of a `commit`. Output may
raise anything: a `RecursionError` while the text is formatted, an error of the stream. -/
inductive Fails : Call → Shared → Exc → Prop where
  | transport {c : Call} {s : Shared} {e : Exc} (h : c.TransportError e) : Fails c s e
  | busyGroup {s : Shared} {g : Group} (hg : s.group = some g) : Fails .xgroupCreate s .busyGroup
  | readNoGroup {s : Shared} {consumer : Str} (hg : s.group = none) :
      Fails (.xreadgroup consumer) s .noGroup
  | pendingNoGroup {s : Shared} (hg : s.group = none) : Fails .xpendingRange s .noGroup
  | claimNoGroup {s : Shared} {consumer : Str} {ids : List StreamId} (hg : s.group = none) :
      Fails (.xclaim consumer ids) s .noGroup
  | rejected {s : Shared} {source : StreamId} {raw : Option Str} {uuid : Str} {utcnow : Naive}
      {e : Exc} (h : parseAuditEvent env uuid utcnow raw = .error e) :
      Fails (.parse source raw) s e
  | duplicateEvent {s : Shared} {source : StreamId} {e : AuditEvent} {status : IntegrityStatus}
      {row : AuditRow} {r : StreamId × AuditRow} (hr : r ∈ s.auditEvents)
      (hid : r.2.event_id = row.event_id) :
      Fails (.commitAuditEvent source e status row) s .integrityError
  | duplicateQuarantined {s : Shared} {source : StreamId} {row r : QuarantineRow}
      (hr : r ∈ s.quarantined) (hid : r.stream_message_id = row.stream_message_id) :
      Fails (.commitQuarantined source row) s .integrityError
  | output {c : Call} {s : Shared} {e : Exc} (h : c.Output) : Fails c s e

/-- How a call is answered. -/
inductive Answers : (c : Call) → Shared → workerSig.Answer c → Shared → Prop where
  | done {c : Call} {s s' : Shared} {v : c.Reply} (h : Executes env c s v s') :
      Answers c s (.ok v) s'
  | lost {c : Call} {s s' : Shared} {v : c.Reply} {e : Exc} (h : Executes env c s v s')
      (he : c.TransportError e) : Answers c s (.error e) s'
  | refused {c : Call} {s : Shared} {e : Exc} (h : Fails env c s e) : Answers c s (.error e) s

/-- What happens without any worker: time passes, a producer adds an entry, entries are
trimmed or deleted, the group is lost. -/
inductive Drift : Shared → Shared → Prop where
  | tick {s : Shared} (ms : ℕ) : Drift s { s with now := s.now + ms }
  | xadd {s : Shared} {m : Message} (positive : toLex (0, 0) < m.id)
      (newer : ∀ m' ∈ s.history, m'.id < m.id) :
      Drift s { s with stream := s.stream ++ [m], history := s.history ++ [m] }
  | trim {s : Shared} {kept : List Message} (h : kept.Sublist s.stream) :
      Drift s { s with stream := kept }
  | groupLost {s : Shared} : Drift s { s with group := none }

/-- The world of the workers. -/
def world : World workerSig Shared where
  answers := Answers env
  drift := Drift

/-- Any number of workers, each started as its own consumer for any number of iterations. -/
def IsWorker (p : Worker Unit) : Prop := ∃ consumer iterations, p = run env consumer iterations

/-- The states some run of the workers reaches from the empty state. -/
def Reachable (s : Shared) : Prop :=
  ∃ cfg, Reach (world env) (IsWorker env) (Config.idle Shared.initial) cfg ∧ cfg.state = s

/-- The states reached by runs in which every answered call meets `allowed`. -/
def ReachableWhen (allowed : (c : Call) → Shared → workerSig.Answer c → Prop) (s : Shared) :
    Prop :=
  ∃ cfg, Reach ((world env).restrict allowed) (IsWorker env) (Config.idle Shared.initial) cfg ∧
    cfg.state = s

theorem ReachableWhen.reachable {env : Env}
    {allowed : (c : Call) → Shared → workerSig.Answer c → Prop} {s : Shared}
    (h : ReachableWhen env allowed s) : Reachable env s :=
  have ⟨cfg, hreach, hs⟩ := h
  ⟨cfg, Reach.of_restrict hreach, hs⟩

/-- A run is a run in which everything is allowed. -/
theorem Reachable.when {env : Env} {s : Shared} (h : Reachable env s) :
    ReachableWhen env (fun _ _ _ => True) s :=
  have ⟨cfg, hreach, hs⟩ := h
  ⟨cfg, Reach.restrict_true hreach, hs⟩

end SecurityAudit
