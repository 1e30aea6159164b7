import SecurityAudit.Audit.Logger
import SecurityAudit.Audit.Record
import SecurityAudit.Prog.Observed
import SecurityAudit.Worker.Scenarios

/-!
# From the producer to the ledger

What `AuditLogger.log` publishes, a worker with the same secret writes down: `handle_message`
reads the event back from the published text, finds its signature valid and inserts a row with
the event's own columns. `Working` leaves the world as it is and forbids only that a call to
Redis or the database fails. Time, producers and the loss of the group go on between the calls.
-/

namespace SecurityAudit

open RecordIntegrity

/-- No infrastructure call fails. A primary key that is taken and a payload that is refused are
no such failures. -/
def Working : (c : Call) → Shared → workerSig.Answer c → Prop
  | c, _, .error ex => ¬c.TransportError ex
  | _, _, .ok _ => True

variable {env : Env} {s t : Shared} {e : AuditEvent} {datetimeText : DateTime → Str}

/-- A call that only the infrastructure can make fail is carried out. -/
theorem executes_of_working {c : Call} {r : workerSig.Answer c}
    (h : ((world env).restrict Working).answers c s r t)
    (hsteady : ∀ ex, Fails env c s ex → c.TransportError ex) :
    ∃ v, r = .ok v ∧ Executes env c s v t := by
  obtain ⟨hanswer, hworking⟩ := h
  have hanswer : Answers env c s r t := hanswer
  cases hanswer with
  | done h => exact ⟨_, rfl, h⟩
  | lost _ he => exact absurd he hworking
  | refused h => exact absurd (hsteady _ h) hworking

/-- What goes on without a worker changes neither the ledger nor the acknowledgements. -/
theorem ledger_of_drifts (h : Relation.ReflTransGen Drift s t) :
    t.auditEvents = s.auditEvents ∧ t.acked = s.acked := by
  induction h with
  | refl => exact ⟨rfl, rfl⟩
  | tail _ hstep ih => cases hstep <;> exact ih

/-- A call to the infrastructure that nothing else can make fail. -/
def Call.Steady (env : Env) (c : Call) : Prop := ∀ s ex, Fails env c s ex → c.TransportError ex

/-- Such a call, and what is done with its result. -/
theorem runs_steady {α : Type} {c : Call} (hsteady : c.Steady env) {f : c.Reply → Worker α}
    {o : Except Exc α} {trace : List (Entry workerSig Shared)}
    (h : Runs ((world env).restrict Working) (ask c >>= f) s trace o t) :
    ∃ v u s' rest, trace = ⟨u, ⟨c, .ok v⟩, s'⟩ :: rest ∧ Relation.ReflTransGen Drift s u ∧
      Executes env c u v s' ∧ Runs ((world env).restrict Working) (f v) s' rest o t := by
  obtain ⟨ex, -, hcall⟩ | ⟨v, first, rest, s', rfl, hcall, hrest⟩ := h.of_bind
  · obtain ⟨u, -, hanswer, -⟩ := hcall.of_perform
    obtain ⟨_, hnone, -⟩ := executes_of_working hanswer (hsteady u)
    cases hnone
  · obtain ⟨u, hdrift, hanswer, rfl⟩ := hcall.of_perform
    obtain ⟨_, hv, hexec⟩ := executes_of_working hanswer (hsteady u)
    cases hv
    exact ⟨v, u, s', rest, rfl, hdrift, hexec, hrest⟩

/-- A call that is carried out. -/
theorem runs_ask {c : Call} {v : c.Reply} (h : Executes env c s v t) :
    Runs ((world env).restrict Working) (ask c) s [⟨s, ⟨c, .ok v⟩, t⟩] (.ok v) t :=
  Runs.perform (σ := workerSig) (r := .ok v) ⟨.done h, trivial⟩

theorem steady_openSession : Call.Steady env .openSession := by
  rintro s ex h
  cases h with
  | transport h => exact h
  | output h => exact h.elim

theorem steady_closeSession : Call.Steady env .closeSession := by
  rintro s ex h
  cases h with
  | transport h => exact h
  | output h => exact h.elim

theorem steady_xack (id : StreamId) (reason : AckReason) : Call.Steady env (.xack id reason) := by
  rintro s ex h
  cases h with
  | transport h => exact h
  | output h => exact h.elim

/-! ## The row can be hashed -/

theorem clean_keyId {keyId : Str} (h : AuditConfig.keyIdFormat keyId = true) :
    JVal.Clean keyId := by
  intro c hc
  unfold AuditConfig.keyIdFormat at h
  rw [Bool.and_eq_true, List.all_eq_true] at h
  have hchar := h.2 c hc
  simp only [AuditConfig.isKeyIdChar, isDigit, Bool.or_eq_true, decide_eq_true_eq] at hchar
  rcases hchar with (hletter | hdigit) | rfl | rfl | rfl
  · rw [isSurrogate, decide_eq_false_iff_not]
    omega
  · rw [isSurrogate, decide_eq_false_iff_not]
    omega
  all_goals exact isSurrogate_cp _

/-- Such a key id fits its column. -/
theorem length_keyId {keyId : Str} (h : AuditConfig.keyIdFormat keyId = true) :
    keyId.length ≤ 64 := by
  unfold AuditConfig.keyIdFormat at h
  rw [Bool.and_eq_true, decide_eq_true_eq] at h
  exact h.1.2

theorem clean_scope (scope : TenantScope) : JVal.Clean scope.text := by
  cases scope <;> exact clean_str _

/-- Unicode text and a timestamp in range have a canonical message. -/
theorem canonical_eventRow (hnative : e.Native) {time stored : Naive}
    (hstored : time.storeSecond? = some stored) (status : IntegrityStatus) {key keyId : Str}
    (hkey : JVal.Clean key) (hkeyId : JVal.Clean keyId) :
    (eventRow e time status).record.Canonical auditEventFieldNames key (some keyId) where
  secret := hkey
  keyId := by simpa using hkeyId
  fields := by
    have hstatus : JVal.Clean status.text := by
      cases status <;> exact clean_str _
    simp only [auditEventFieldNames, List.forall_mem_cons]
    refine ⟨?_, ?_, ?_, ?_, ?_, ?_, ?_, ?_, ?_, ?_, ?_, ?_, ?_, ?_, by simp⟩
    · exact fun s hs => Option.mem_some_iff.mp hs ▸ hnative.event_id
    · exact ⟨time, stored, rfl, hstored⟩
    · exact fun s hs => Option.mem_some_iff.mp hs ▸ hnative.service
    · exact fun s hs => Option.mem_some_iff.mp hs ▸ hnative.event_type
    · exact hnative.user_id
    · exact hnative.organization_id
    · exact fun s hs => Option.mem_some_iff.mp hs ▸ clean_scope e.tenant_scope
    · exact fun s hs => Option.mem_some_iff.mp hs ▸ hnative.action
    · exact hnative.resource
    · exact hnative.decision
    · exact hnative.reason
    · exact hnative.trace_id
    · trivial
    · exact fun s hs => Option.mem_some_iff.mp hs ▸ hstatus

/-- A valid key can hash the row of such an event. -/
theorem hash_eventRow (hnative : e.Native) {time stored : Naive}
    (hstored : time.storeSecond? = some stored) (status : IntegrityStatus) {key keyId : Str}
    (hkey : env.cfg.requireRecordIntegrityKey = .ok (key, keyId)) :
    ∃ hash, computeAuditEventHash env.crypto (eventRow e time status) key (some keyId) =
      .ok hash := by
  obtain ⟨-, -, hformat, -, bytes, hbytes, -⟩ := AuditConfig.requireRecordIntegrityKey_spec hkey
  have hclean : JVal.Clean key := encode_isOk.mp ⟨bytes, hbytes⟩
  exact (recordHash_isOk env.crypto false).mpr
    (canonical_eventRow hnative hstored status hclean (clean_keyId hformat))

/-! ## The message -/

/-- The payload of an event of Unicode text is JSON. -/
theorem native_modelDump (hnative : e.Native) (hdatetime : JVal.Clean (datetimeText e.timestamp)) :
    JVal.JsonNative (.obj (AuditLogger.modelDump datetimeText e)) := by
  have hoptional : ∀ {v : Option Str}, CleanOptional v →
      JVal.JsonNative (AuditLogger.optionalValue v) := by
    intro v hv
    cases v with
    | none => exact .null
    | some s => exact .str (hv s rfl)
  refine .obj (AuditLogger.keys_modelDump e) ?_ ?_
  · simp only [AuditLogger.modelDump, List.forall_mem_cons]
    exact ⟨clean_str _, clean_str _, clean_str _, clean_str _, clean_str _, clean_str _,
      clean_str _, clean_str _, clean_str _, clean_str _, clean_str _, clean_str _, clean_str _,
      by simp⟩
  · simp only [AuditLogger.modelDump, List.forall_mem_cons]
    exact ⟨.str hnative.event_id, .str hdatetime, .str hnative.service, .str hnative.event_type,
      hoptional hnative.user_id, hoptional hnative.organization_id, .str (clean_scope e.tenant_scope),
      .str hnative.action, hoptional hnative.resource, hoptional hnative.decision,
      hoptional hnative.reason, hoptional hnative.trace_id, hnative.context, by simp⟩

/-- The published entry is parsed as the event, and its signature is the right one. -/
theorem read_published {m : Message} (hservice : e.service ≠ []) (hnative : e.Native)
    (hdatetime : JVal.Clean (datetimeText e.timestamp))
    (hparse : env.parseDatetime (.str (datetimeText e.timestamp)) = some e.timestamp)
    (hlog : AuditLogger.log datetimeText env.crypto env.cfg.eventSigningSecret e =
      some m.fields) :
    (∀ uuid utcnow, parseAuditEvent env uuid utcnow (m.fields.get "data") = .ok e) ∧
      m.classify env e = .valid := by
  obtain ⟨data, sig, hdata, hsig, hfields⟩ := AuditLogger.fields_of_log hservice hlog
  have hget : m.fields.get "data" = some data ∧ m.fields.get "sig" = some sig := by
    have hne : str "data" ≠ str "sig" := by decide
    rw [hfields]
    simp [Fields.get, hne]
  constructor
  · intro uuid utcnow
    rw [hget.1]
    exact parseAuditEvent_eq_ok.mpr ⟨data, _, rfl,
      loads_jsonDumps (native_modelDump hnative hdatetime) hdata,
      AuditLogger.validate_modelDump hparse⟩
  · have hverify := (Signing.verifyAuditEvent_iff env.crypto e.service (some data) sig
      env.cfg.eventSigningSecret).mpr hsig
    have hne : sig ≠ [] := by
      rintro rfl
      simp [Signing.verifyAuditEvent] at hverify
    unfold Message.classify classifyEventIntegrity
    rw [hget.1, hget.2]
    simp [hne, hverify]

/-! ## The run -/

/-- The row of an event under a key, with its hash. -/
def hashedRow (e : AuditEvent) (time : Naive) (status : IntegrityStatus) (hash keyId : Str) :
    AuditRow :=
  { eventRow e time status with
    record_integrity_hash := some hash
    integrity_key_id := some keyId }

/-- What the sink adds to a row of plain columns fits. -/
theorem fits_hashedRow {time : Naive} {status : IntegrityStatus} {key keyId : Str}
    (hkey : env.cfg.requireRecordIntegrityKey = .ok (key, keyId))
    (h : (eventRow e time status).Fits) (hash : Str) : (hashedRow e time status hash keyId).Fits := by
  obtain ⟨-, -, hformat, -⟩ := AuditConfig.requireRecordIntegrityKey_spec hkey
  obtain ⟨h₁, h₂, h₃, h₄, h₅, h₆, h₇, h₈, h₉, h₁₀, h₁₁, h₁₂, -⟩ := h
  exact ⟨h₁, h₂, h₃, h₄, h₅, h₆, h₇, h₈, h₉, h₁₀, h₁₁, h₁₂,
    fun s hs => Option.mem_some_iff.mp hs ▸ length_keyId hformat⟩

section Run

variable {m : Message} {row stored : AuditRow} {trace : List (Entry workerSig Shared)}

/-- Every run of `Sink.write` inserts the row. -/
theorem sinkWrite_working {status : IntegrityStatus} {o : Except Exc Bool}
    (hrow : sinkRecord env e status = .ok row) (hstored : row.stored? = some stored)
    (free : ∀ r ∈ s.auditEvents, r.2.event_id ≠ row.event_id)
    (h : Runs ((world env).restrict Working) (Sink.write env m.id e status) s trace o t) :
    o = .ok true ∧
      (∃ x ∈ trace, x.event = ⟨.commitAuditEvent m.id e status row, .ok ()⟩) ∧
      t.auditEvents = s.auditEvents ++ [(m.id, stored)] ∧ t.acked = s.acked := by
  unfold Sink.write at h
  rw [hrow, Prog.ofExcept_ok, Prog.ret_bind] at h
  obtain ⟨r, first, rest, u, rfl, hcommit, hrest⟩ := h.of_attempt_bind
  obtain ⟨v, hdrift, hanswer, rfl⟩ := hcommit.of_perform
  obtain ⟨hrows, hacked⟩ := ledger_of_drifts hdrift
  obtain ⟨_, rfl, hexec⟩ := executes_of_working hanswer fun ex hfail => by
    cases hfail with
    | transport h => exact h
    | duplicateEvent hr hid =>
      rw [hrows] at hr
      exact absurd hid (free _ hr)
    | output h => exact h.elim
  cases hexec with
  | commitAuditEvent hfits hstored' hfree =>
    obtain rfl := Option.some.inj (hstored.symm.trans hstored')
    obtain ⟨rfl, rfl, rfl⟩ := hrest.of_ret
    exact ⟨rfl, ⟨_, List.mem_append_left _ List.mem_cons_self, rfl⟩, by rw [← hrows], hacked⟩

/-- The session around it is closed. -/
theorem session_working {status : IntegrityStatus} {o : Except Exc Bool}
    (hrow : sinkRecord env e status = .ok row) (hstored : row.stored? = some stored)
    (free : ∀ r ∈ s.auditEvents, r.2.event_id ≠ row.event_id)
    (h : Runs ((world env).restrict Working)
      (Prog.ensuring (tryWrite (Sink.write env m.id e status) (.persistFailed m.id))
        (ask .closeSession)) s trace o t) :
    o = .ok true ∧
      (∃ x ∈ trace, x.event = ⟨.commitAuditEvent m.id e status row, .ok ()⟩) ∧
      t.auditEvents = s.auditEvents ++ [(m.id, stored)] ∧ t.acked = s.acked := by
  obtain ⟨o', r, first, last, u, rfl, htry, hclose, hok, -⟩ := h.of_ensuring
  obtain ⟨outcome, writing, printing, w, rfl, hwrite, hprint⟩ := htry.of_attempt_bind
  obtain ⟨rfl, ⟨x, hx, hcommit⟩, hrows, hacked⟩ := sinkWrite_working hrow hstored free hwrite
  obtain ⟨rfl, rfl, rfl⟩ := hprint.of_ret
  obtain ⟨v, hdrift, hanswer, rfl⟩ := hclose.of_perform
  obtain ⟨hrows', hacked'⟩ := ledger_of_drifts hdrift
  obtain ⟨_, rfl, hexec⟩ := executes_of_working hanswer (steady_closeSession v)
  cases hexec
  exact ⟨hok rfl, ⟨x, List.mem_append_left _ (List.mem_append_left _ hx), hcommit⟩,
    hrows'.trans hrows, hacked'.trans hacked⟩

/-- Every run of `handle_message` on a message that can be read and recorded, into a ledger
without its `event_id`, inserts its row and acknowledges it. -/
theorem handleMessage_working {o : Except Exc Bool}
    (hreads : ∀ uuid utcnow, parseAuditEvent env uuid utcnow (m.fields.get "data") = .ok e)
    (hvalid : m.classify env e = .valid) (hrow : sinkRecord env e .valid = .ok row)
    (hstored : row.stored? = some stored) (free : ∀ r ∈ s.auditEvents, r.2.event_id ≠ e.event_id)
    (h : Runs ((world env).restrict Working) (handleMessage env m) s trace o t) :
    o = .ok true ∧
      (∃ x ∈ trace, x.event = ⟨.commitAuditEvent m.id e .valid row, .ok ()⟩) ∧
      t.auditEvents = s.auditEvents ++ [(m.id, stored)] ∧
      t.acked = s.acked ++ [(m.id, .handled e .valid)] := by
  obtain ⟨r, parsing, handling, s₁, rfl, hparse, hhandle⟩ := h.of_attempt_bind
  obtain ⟨u₁, hdrift₁, hanswer₁, rfl⟩ := hparse.of_perform
  -- the payload is accepted, whatever the default factories draw
  obtain ⟨e', rfl, hexec₁⟩ := executes_of_working hanswer₁ fun ex hfail => by
    cases hfail with
    | transport h => exact h
    | rejected h => rw [hreads] at h; cases h
    | output h => exact h.elim
  cases hexec₁ with
  | parse accepted =>
    rw [hreads] at accepted
    obtain rfl := Except.ok.inj accepted
    -- a valid signature is not warned about
    have hclass : classifyEventIntegrity env.crypto e.service (m.fields.get "sig")
        (m.fields.get "data") env.cfg.eventSigningSecret = .valid := hvalid
    dsimp only at hhandle
    rw [hclass] at hhandle
    obtain ⟨hrows₁, hacked₁⟩ := ledger_of_drifts hdrift₁
    obtain ⟨_, u₂, _, inside, rfl, hdrift₂, hexec₂, hinside⟩ := runs_steady steady_openSession hhandle
    cases hexec₂
    obtain ⟨hrows₂, hacked₂⟩ := ledger_of_drifts hdrift₂
    have hrows : u₂.auditEvents = s.auditEvents := hrows₂.trans hrows₁
    have hacked : u₂.acked = s.acked := hacked₂.trans hacked₁
    have hfree : ∀ r ∈ u₂.auditEvents, r.2.event_id ≠ row.event_id := by
      rw [hrows, event_id_of_sinkRecord hrow]
      exact free
    obtain ⟨ex, -, hsession⟩ | ⟨_, writing, acking, s₃, rfl, hsession, hack⟩ := hinside.of_bind
    · cases (session_working hrow hstored hfree hsession).1
    · obtain ⟨hwritten, ⟨x, hx, hcommit⟩, hrows₃, hacked₃⟩ :=
        session_working hrow hstored hfree hsession
      cases hwritten
      obtain ⟨_, u₄, _, nothing, rfl, hdrift₄, hexec₄, hend⟩ := runs_steady (steady_xack _ _) hack
      cases hexec₄
      obtain ⟨hrows₄, hacked₄⟩ := ledger_of_drifts hdrift₄
      obtain ⟨rfl, rfl, rfl⟩ := hend.of_ret
      refine ⟨rfl, ⟨x, by simp [hx], hcommit⟩, ?_, ?_⟩
      · show u₄.auditEvents = _
        rw [hrows₄, hrows₃, hrows]
      · show u₄.acked ++ _ = _
        rw [hacked₄, hacked₃, hacked]

/-- And there is such a run. -/
theorem exists_handleMessage (hreads : ∀ uuid utcnow,
      parseAuditEvent env uuid utcnow (m.fields.get "data") = .ok e)
    (hvalid : m.classify env e = .valid) (hrow : sinkRecord env e .valid = .ok row)
    (hfits : row.Fits) (hstored : row.stored? = some stored)
    (free : ∀ r ∈ s.auditEvents, r.2.event_id ≠ e.event_id) (uuid : Str) (utcnow : Naive) :
    ∃ trace t, Runs ((world env).restrict Working) (handleMessage env m) s trace (.ok true) t := by
  have hfree : ∀ r ∈ s.auditEvents, r.2.event_id ≠ row.event_id := by
    rw [event_id_of_sinkRecord hrow]
    exact free
  have hsink : ∃ trace, Runs ((world env).restrict Working) (Sink.write env m.id e .valid)
      (s.parse m e) trace (.ok true) { s.parse m e with
        auditEvents := s.auditEvents ++ [(m.id, stored)] } := by
    unfold Sink.write
    rw [hrow, Prog.ofExcept_ok, Prog.ret_bind]
    have hcommit : Executes env (.commitAuditEvent m.id e .valid row) (s.parse m e) ()
        { s.parse m e with auditEvents := s.auditEvents ++ [(m.id, stored)] } :=
      .commitAuditEvent hfits hstored hfree
    exact ⟨_, (runs_ask hcommit).attempt.bind (.ret true _)⟩
  obtain ⟨writing, hsink⟩ := hsink
  have hwritten : Runs ((world env).restrict Working)
      (tryWrite (Sink.write env m.id e .valid) (.persistFailed m.id)) (s.parse m e) _ (.ok true) _ :=
    hsink.attempt.bind (.ret true _)
  have hclass : classifyEventIntegrity env.crypto e.service (m.fields.get "sig")
      (m.fields.get "data") env.cfg.eventSigningSecret = .valid := hvalid
  have hparse : Runs ((world env).restrict Working) (ask (.parse m.id (m.fields.get "data"))) s _
      (.ok e) (s.parse m e) := runs_ask (.parse (hreads uuid utcnow))
  unfold handleMessage
  apply Exists.intro
  apply Exists.intro
  apply Runs.bind hparse.attempt
  dsimp only
  rw [hclass]
  exact .bind (.ret () _) (.bind (runs_ask .openSession)
    (.bind (Runs.ensuring hwritten (runs_ask .closeSession))
      (.bind (runs_ask .xack) (.ret true _))))

end Run

/-- **From the producer to the ledger.** An event of Unicode text and JSON that fits the columns,
with a service and a timestamp in range whose text is read back as that timestamp, is published
by `AuditLogger.log`. A worker with the same secret and a valid record key handles the entry, in
a world where no call to the infrastructure fails, with a ledger that does not hold its
`event_id`. However it goes, it ends: the message is acknowledged, and the one row that was
inserted has the event's own columns, its timestamp in naive UTC and the status `"valid"`. The
table keeps it with the nearest second. -/
theorem published_persisted {m : Message} {key keyId : Str} {time stored : Naive}
    (hservice : e.service ≠ []) (hnative : e.Native)
    (hdatetime : JVal.Clean (datetimeText e.timestamp))
    (hparse : env.parseDatetime (.str (datetimeText e.timestamp)) = some e.timestamp)
    (hlog : AuditLogger.log datetimeText env.crypto env.cfg.eventSigningSecret e = some m.fields)
    (hkey : env.cfg.requireRecordIntegrityKey = .ok (key, keyId))
    (htime : toNaiveUtc e.timestamp = .ok time) (hstored : time.storeSecond? = some stored)
    (hfits : (eventRow e time .valid).Fits)
    (free : ∀ r ∈ s.auditEvents, r.2.event_id ≠ e.event_id) :
    ∃ hash, computeAuditEventHash env.crypto (eventRow e time .valid) key (some keyId) = .ok hash ∧
      (∃ trace t, Runs ((world env).restrict Working) (handleMessage env m) s trace (.ok true) t) ∧
      ∀ trace o t, Runs ((world env).restrict Working) (handleMessage env m) s trace o t →
        o = .ok true ∧
        (∃ x ∈ trace, x.event =
          ⟨.commitAuditEvent m.id e .valid (hashedRow e time .valid hash keyId), .ok ()⟩) ∧
        t.auditEvents = s.auditEvents ++ [(m.id, hashedRow e stored .valid hash keyId)] ∧
        t.acked = s.acked ++ [(m.id, .handled e .valid)] := by
  obtain ⟨hreads, hvalid⟩ := read_published hservice hnative hdatetime hparse hlog
  obtain ⟨hash, hhash⟩ := hash_eventRow hnative hstored .valid hkey
  have hrow : sinkRecord env e .valid = .ok (hashedRow e time .valid hash keyId) :=
    bind_eq_ok.mpr ⟨_, hkey, bind_eq_ok.mpr ⟨time, htime, bind_eq_ok.mpr ⟨hash, hhash, rfl⟩⟩⟩
  have hkept : (hashedRow e time .valid hash keyId).stored? =
      some (hashedRow e stored .valid hash keyId) := by
    rw [AuditRow.stored?]
    show time.storeSecond?.map _ = _
    rw [hstored]
    rfl
  exact ⟨hash, hhash,
    exists_handleMessage hreads hvalid hrow (fits_hashedRow hkey hfits hash) hkept free [] stored,
    fun trace o t hrun => handleMessage_working hreads hvalid hrow hkept free hrun⟩

namespace Sample

/-- What pydantic writes for the timestamp below. -/
def istText : Str := str "2026-01-01T05:30:00+05:30"

/-- 2026-01-01T05:30:00+05:30. -/
def ist : DateTime := .aware ⟨⟨63902842200000000, by decide⟩, 19800000000, by decide⟩

def istEnv : Env where
  cfg := cfg
  crypto := crypto
  parseDatetime
    | .str s => if s = istText then some ist else none
    | _ => none

/-- A login in an organization, with a nested context. -/
def login : AuditEvent where
  event_id := str "evt-1"
  timestamp := ist
  service := str "gateway"
  event_type := str "login"
  user_id := some (str "zoë")
  organization_id := some (str "42")
  tenant_scope := .organization
  action := str "login"
  resource := none
  decision := some (str "allow")
  reason := none
  trace_id := some (str "t-1")
  context := [(str "attempts", .arr [.int 1, .bool true, .null])]
  scope_ok := by simp [AuditFields.Scoped]

theorem native_login : login.Native where
  event_id := clean_str _
  service := clean_str _
  event_type := clean_str _
  user_id := by simpa [CleanOptional, login] using clean_str "zoë"
  organization_id := by simpa [CleanOptional, login] using clean_str "42"
  action := clean_str _
  resource := by simp [CleanOptional, login]
  decision := by simpa [CleanOptional, login] using clean_str "allow"
  reason := by simp [CleanOptional, login]
  trace_id := by simpa [CleanOptional, login] using clean_str "t-1"
  context := by
    refine .obj (by decide) ?_ ?_
    · simpa [login] using clean_str "attempts"
    · simp only [login, List.forall_mem_singleton]
      refine .arr ?_
      simp only [List.forall_mem_cons]
      exact ⟨.int 1, .bool true, .null, by simp⟩

end Sample

/-- The login is published and written down. -/
theorem published_persisted_login : ∃ published,
    AuditLogger.log (fun _ => Sample.istText) Sample.crypto Sample.cfg.eventSigningSecret
      Sample.login = some published ∧
    ∃ hash, computeAuditEventHash Sample.crypto (eventRow Sample.login Sample.utcnow .valid)
        (str "0123456789abcdef0123456789abcdef") (some (str "2026-01")) = .ok hash ∧
      (∃ trace t, Runs ((world Sample.istEnv).restrict Working)
        (handleMessage Sample.istEnv ⟨toLex (1, 0), published⟩) Shared.initial trace (.ok true) t) ∧
      ∀ trace o t, Runs ((world Sample.istEnv).restrict Working)
          (handleMessage Sample.istEnv ⟨toLex (1, 0), published⟩) Shared.initial trace o t →
        o = .ok true ∧
        (∃ x ∈ trace, x.event = ⟨.commitAuditEvent (toLex (1, 0)) Sample.login .valid
          (hashedRow Sample.login Sample.utcnow .valid hash (str "2026-01")), .ok ()⟩) ∧
        t.auditEvents = [(toLex (1, 0), hashedRow Sample.login Sample.utcnow .valid hash
          (str "2026-01"))] ∧
        t.acked = [(toLex (1, 0), .handled Sample.login .valid)] := by
  have hlog : (AuditLogger.log (fun _ => Sample.istText) Sample.crypto
      Sample.cfg.eventSigningSecret Sample.login).isSome = true := by decide +kernel
  obtain ⟨published, hpublished⟩ := Option.isSome_iff_exists.mp hlog
  have hparse : Sample.istEnv.parseDatetime (.str Sample.istText) = some Sample.ist := by
    show (if Sample.istText = Sample.istText then some Sample.ist else none) = _
    rw [if_pos rfl]
  have hkey : Sample.cfg.requireRecordIntegrityKey =
      .ok (str "0123456789abcdef0123456789abcdef", str "2026-01") := by decide +kernel
  have htime : toNaiveUtc Sample.ist = .ok Sample.utcnow := by decide +kernel
  have hstored : Sample.utcnow.storeSecond? = some Sample.utcnow :=
    Naive.storeSecond?_of_whole (by decide)
  exact ⟨published, hpublished, @published_persisted Sample.istEnv _ _ _ ⟨_, published⟩ _ _ _ _
    (by decide) Sample.native_login (clean_str _) hparse hpublished hkey htime hstored
    (by decide +kernel) (by rintro r ⟨⟩)⟩

end SecurityAudit
