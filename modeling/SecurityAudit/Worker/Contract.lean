import SecurityAudit.Worker.System

/-!
# What the workers keep

One invariant of the shared state (`Inv`) and one contract serve every result about runs. The
contract is parameterised by `covers row event status`, what a stored row has to say about an
event before the event's entry may be acknowledged. An acknowledgement needs its evidence
first, a row needs an entry it was parsed from and the columns `Sink.write` gives it, and
nothing is ever taken back: `Extends` is the order every move climbs.
-/

namespace SecurityAudit

variable (env : Env)

/-- The classification of an event parsed from the entry `m`. -/
def Message.classify (m : Message) (e : AuditEvent) : IntegrityStatus :=
  classifyEventIntegrity env.crypto e.service (m.fields.get "sig") (m.fields.get "data")
    env.cfg.eventSigningSecret

/-- The entry `m` was parsed into the event `e`, with some outcome of the default factories. -/
def Message.ParsesTo (m : Message) (e : AuditEvent) : Prop :=
  ∃ uuid utcnow, parseAuditEvent env uuid utcnow (m.fields.get "data") = .ok e

/-- The stored row was written for an event parsed from an entry with this id. -/
structure Written (s : Shared) (source : StreamId) (stored : AuditRow) : Prop where
  intro ::
  exists_source : ∃ m ∈ s.history, ∃ e row, m.id = source ∧ (source, e) ∈ s.parsed ∧
    sinkRecord env e (m.classify env e) = .ok row ∧ row.stored? = some stored

/-- The quarantine row is one `QuarantineSink.write` builds. -/
def QuarantineWritten (row : QuarantineRow) : Prop :=
  ∃ (id : StreamId) (fields : Fields) (attempts : ℕ),
    quarantineRecord env id.text fields attempts = .ok row

/-- What has to be there when an id is acknowledged. -/
def Evidence (covers : AuditRow → AuditEvent → IntegrityStatus → Prop) (s : Shared)
    (id : StreamId) : AckReason → Prop
  | .handled e status => (∃ m ∈ s.history, m.id = id ∧ status = m.classify env e) ∧
    (id, e) ∈ s.parsed ∧ ∃ r ∈ s.auditEvents, covers r.2 e status
  | .quarantined => ∃ q ∈ s.quarantined, q.stream_message_id = id.text

/-- The invariant of the shared state. -/
structure Inv (covers : AuditRow → AuditEvent → IntegrityStatus → Prop) (s : Shared) : Prop where
  ids : s.history.Pairwise fun a b => a.id < b.id
  stream : ∀ m ∈ s.stream, m ∈ s.history
  parsed : ∀ p ∈ s.parsed, ∃ m ∈ s.history, m.id = p.1 ∧ m.ParsesTo env p.2
  rows : ∀ r ∈ s.auditEvents, Written env s r.1 r.2
  eventIds : (s.auditEvents.map fun r => r.2.event_id).Nodup
  condemned : ∀ q ∈ s.quarantined, ∃ id ∈ s.condemned, q.stream_message_id = id.text
  quarantined : ∀ q ∈ s.quarantined, QuarantineWritten env q
  messageIds : (s.quarantined.map QuarantineRow.stream_message_id).Nodup
  acked : ∀ a ∈ s.acked, Evidence env covers s a.1 a.2

/-- Nothing is taken back. -/
structure Extends (s t : Shared) : Prop where
  history : s.history ⊆ t.history
  parsed : s.parsed ⊆ t.parsed
  auditEvents : s.auditEvents ⊆ t.auditEvents
  quarantined : s.quarantined ⊆ t.quarantined
  condemned : s.condemned ⊆ t.condemned

theorem Extends.refl (s : Shared) : Extends s s :=
  ⟨List.Subset.refl _, List.Subset.refl _, List.Subset.refl _, List.Subset.refl _,
    List.Subset.refl _⟩

theorem Extends.trans {s t u : Shared} (h : Extends s t) (h' : Extends t u) : Extends s u :=
  ⟨List.Subset.trans h.history h'.history, List.Subset.trans h.parsed h'.parsed,
    List.Subset.trans h.auditEvents h'.auditEvents,
    List.Subset.trans h.quarantined h'.quarantined, List.Subset.trans h.condemned h'.condemned⟩

/-- When a call may be made. -/
def CallPre (covers : AuditRow → AuditEvent → IntegrityStatus → Prop) : Call → Shared → Prop
  | .parse source raw, s => ∃ m ∈ s.history, m.id = source ∧ m.fields.get "data" = raw
  | .commitAuditEvent source e status row, s =>
    (∃ m ∈ s.history, m.id = source ∧ status = m.classify env e) ∧ (source, e) ∈ s.parsed ∧
      sinkRecord env e status = .ok row
  | .commitQuarantined source row, s =>
    source ∈ s.condemned ∧ row.stream_message_id = source.text ∧ QuarantineWritten env row
  | .xack id reason, s => Evidence env covers s id reason
  | _, _ => True

/-- Messages that are entries of the stream, now or formerly. -/
def Shared.Known (s : Shared) (ms : List Message) : Prop := ∀ m ∈ ms, m ∈ s.history

/-- A reply to a group read that has only such messages. -/
def Shared.StreamsKnown (s : Shared) (streams : List (Str × List Message)) : Prop :=
  ∀ stream ∈ streams, s.Known stream.2

/-- What holds once a call was answered. -/
def CallPost (covers : AuditRow → AuditEvent → IntegrityStatus → Prop) :
    (c : Call) → workerSig.Answer c → Shared → Prop
  | .xreadgroup _, .ok streams, s => s.StreamsKnown streams
  | .xpendingRange, .ok infos, s => ∀ id ∈ poisonIds env.cfg infos, id ∈ s.condemned
  | .xclaim _ _, .ok claimed, s => s.Known claimed
  | .parse source _, .ok e, s => (source, e) ∈ s.parsed
  | .commitAuditEvent _ e status _, .ok _, s => ∃ r ∈ s.auditEvents, covers r.2 e status
  | .commitAuditEvent _ e status _, .error .integrityError, s =>
    ∃ r ∈ s.auditEvents, covers r.2 e status
  | .commitQuarantined _ row, .ok _, s =>
    ∃ q ∈ s.quarantined, q.stream_message_id = row.stream_message_id
  | .commitQuarantined _ row, .error .integrityError, s =>
    ∃ q ∈ s.quarantined, q.stream_message_id = row.stream_message_id
  | _, _, _ => True

/-- The contract of the workers. -/
def workerContract (covers : AuditRow → AuditEvent → IntegrityStatus → Prop) :
    Contract workerSig Shared where
  inv := Inv env covers
  rely := Extends
  pre := CallPre env covers
  post := CallPost env covers
  rely_refl := Extends.refl
  rely_trans := Extends.trans

variable {env} {covers : AuditRow → AuditEvent → IntegrityStatus → Prop} {s t : Shared}

/-! ## What nothing can undo -/

theorem Written.mono {source : StreamId} {stored : AuditRow} (h : Written env s source stored)
    (hst : Extends s t) : Written env t source stored := by
  obtain ⟨m, hm, e, row, hid, hparsed, hrow, hstored⟩ := h.exists_source
  exact ⟨m, hst.history hm, e, row, hid, hst.parsed hparsed, hrow, hstored⟩

theorem Evidence.mono {id : StreamId} {reason : AckReason} (h : Evidence env covers s id reason)
    (hst : Extends s t) : Evidence env covers t id reason := by
  cases reason with
  | handled e status =>
    obtain ⟨⟨m, hm, hid, hstatus⟩, hparsed, r, hr, hcovers⟩ := h
    exact ⟨⟨m, hst.history hm, hid, hstatus⟩, hst.parsed hparsed, r, hst.auditEvents hr, hcovers⟩
  | quarantined =>
    obtain ⟨q, hq, hid⟩ := h
    exact ⟨q, hst.quarantined hq, hid⟩

/-- Entries are identified by their ids. -/
theorem Inv.message_unique (h : Inv env covers s) {m m' : Message} (hm : m ∈ s.history)
    (hm' : m' ∈ s.history) (hid : m.id = m'.id) : m = m' := by
  have hnodup : (s.history.map Message.id).Nodup :=
    List.pairwise_map.mpr (h.ids.imp fun hab => hab.ne)
  exact List.inj_on_of_nodup_map hnodup hm hm' hid

/-- Event ids are a key of the table. -/
theorem Inv.row_unique (h : Inv env covers s) {r r' : StreamId × AuditRow}
    (hr : r ∈ s.auditEvents) (hr' : r' ∈ s.auditEvents)
    (hid : r.2.event_id = r'.2.event_id) : r = r' :=
  List.inj_on_of_nodup_map h.eventIds hr hr' hid

/-- The entry of a row: the row was written for an event parsed from that entry. -/
theorem Inv.row_parsed (h : Inv env covers s) {m : Message} {r : StreamId × AuditRow}
    (hm : m ∈ s.history) (hr : r ∈ s.auditEvents) (hid : r.1 = m.id) :
    ∃ e row, m.ParsesTo env e ∧ sinkRecord env e (m.classify env e) = .ok row ∧
      row.stored? = some r.2 := by
  obtain ⟨m₁, hm₁, e, row, hid₁, hparsed, hrow, hstored⟩ := (h.rows r hr).exists_source
  obtain ⟨m₂, hm₂, hid₂, hparses⟩ := h.parsed _ hparsed
  obtain rfl := h.message_unique hm hm₁ (hid.symm.trans hid₁.symm)
  obtain rfl := h.message_unique hm hm₂ (hid.symm.trans hid₂.symm)
  exact ⟨e, row, hparses, hrow, hstored⟩

/-- The part of the invariant that reads only the history and the tables survives a change of
everything else. -/
theorem Inv.of_eq (h : Inv env covers s) (hstream : ∀ m ∈ t.stream, m ∈ s.history)
    (hhistory : t.history = s.history) (hparsed : t.parsed = s.parsed)
    (hrows : t.auditEvents = s.auditEvents) (hquarantined : t.quarantined = s.quarantined)
    (hcondemned : s.condemned ⊆ t.condemned) (hacked : t.acked = s.acked) :
    Inv env covers t ∧ Extends s t := by
  have hext : Extends s t :=
    ⟨by rw [hhistory]; exact List.Subset.refl _, by rw [hparsed]; exact List.Subset.refl _,
      by rw [hrows]; exact List.Subset.refl _, by rw [hquarantined]; exact List.Subset.refl _,
      hcondemned⟩
  refine ⟨⟨?_, ?_, ?_, ?_, ?_, ?_, ?_, ?_, ?_⟩, hext⟩
  · rw [hhistory]
    exact h.ids
  · rw [hhistory]
    exact hstream
  · rw [hparsed, hhistory]
    exact h.parsed
  · rw [hrows]
    exact fun r hr => (h.rows r hr).mono hext
  · rw [hrows]
    exact h.eventIds
  · rw [hquarantined]
    intro q hq
    obtain ⟨id, hid, htext⟩ := h.condemned q hq
    exact ⟨id, hcondemned hid, htext⟩
  · rw [hquarantined]
    exact h.quarantined
  · rw [hquarantined]
    exact h.messageIds
  · rw [hacked]
    exact fun a ha => (h.acked a ha).mono hext

/-! ## The world keeps the contract -/

/-- What a carried out call preserves. -/
theorem executes_sound
    (hnew : ∀ {e status row stored}, sinkRecord env e status = .ok row →
      row.stored? = some stored → covers stored e status)
    {c : Call} {v : c.Reply} (hi : Inv env covers s) (hpre : CallPre env covers c s)
    (h : Executes env c s v t) :
    Inv env covers t ∧ Extends s t ∧ CallPost env covers c (.ok v) t := by
  cases h with
  | xgroupCreate free =>
    obtain ⟨h₁, h₂⟩ := hi.of_eq (t := { s with group := some .fresh }) hi.stream rfl rfl rfl rfl
      (List.Subset.refl _) rfl
    exact ⟨h₁, h₂, trivial⟩
  | @xreadgroup _ g consumer hg =>
    obtain ⟨h₁, h₂⟩ := hi.of_eq
      (t := { s with group := some (g.deliver s.now consumer (g.newMessages s.stream)) })
      hi.stream rfl rfl rfl rfl (List.Subset.refl _) rfl
    refine ⟨h₁, h₂, fun stream hstream m hm => ?_⟩
    unfold groupReply at hstream
    split_ifs at hstream
    · cases hstream
    · rw [List.mem_singleton.mp hstream] at hm
      exact hi.stream m (Group.mem_newMessages hm)
  | @xpendingRange _ g infos hg hinfos =>
    obtain ⟨h₁, h₂⟩ := hi.of_eq
      (t := { s with condemned := s.condemned ++ poisonIds env.cfg infos })
      hi.stream rfl rfl rfl rfl (List.subset_append_left _ _) rfl
    exact ⟨h₁, h₂, fun id hid => List.mem_append_right _ hid⟩
  | xrange => exact ⟨hi, .refl s, trivial⟩
  | @xclaim _ g consumer ids hg =>
    obtain ⟨h₁, h₂⟩ := hi.of_eq
      (t := { s with
        group := some (g.claim s.stream s.now env.cfg.pelMinIdleMs consumer ids).1 })
      hi.stream rfl rfl rfl rfl (List.Subset.refl _) rfl
    exact ⟨h₁, h₂, fun m hm => hi.stream m (Group.mem_claim hm)⟩
  | @xack _ id reason =>
    have hext : Extends s
        { s with group := s.group.map fun g => g.ack id, acked := s.acked ++ [(id, reason)] } :=
      ⟨List.Subset.refl _, List.Subset.refl _, List.Subset.refl _, List.Subset.refl _,
        List.Subset.refl _⟩
    refine ⟨⟨hi.ids, hi.stream, hi.parsed, fun r hr => (hi.rows r hr).mono hext, hi.eventIds,
      hi.condemned, hi.quarantined, hi.messageIds, fun a ha => ?_⟩, hext, trivial⟩
    rcases List.mem_append.mp ha with ha | ha
    · exact (hi.acked a ha).mono hext
    · obtain rfl := List.mem_singleton.mp ha
      exact Evidence.mono hpre hext
  | @parse _ source raw uuid utcnow e accepted =>
    have hext : Extends s { s with parsed := s.parsed ++ [(source, e)] } :=
      ⟨List.Subset.refl _, List.subset_append_left _ _, List.Subset.refl _, List.Subset.refl _,
        List.Subset.refl _⟩
    refine ⟨⟨hi.ids, hi.stream, fun p hp => ?_, fun r hr => (hi.rows r hr).mono hext,
      hi.eventIds, hi.condemned, hi.quarantined, hi.messageIds,
      fun a ha => (hi.acked a ha).mono hext⟩, hext,
      List.mem_append_right _ (List.mem_singleton.mpr rfl)⟩
    rcases List.mem_append.mp hp with hp | hp
    · exact hi.parsed p hp
    · obtain rfl := List.mem_singleton.mp hp
      obtain ⟨m, hm, hid, hdata⟩ := hpre
      exact ⟨m, hm, hid, uuid, utcnow, by rw [hdata]; exact accepted⟩
  | @commitAuditEvent _ source e status row stored _ hstored free =>
    have hext : Extends s { s with auditEvents := s.auditEvents ++ [(source, stored)] } :=
      ⟨List.Subset.refl _, List.Subset.refl _, List.subset_append_left _ _,
        List.Subset.refl _, List.Subset.refl _⟩
    obtain ⟨⟨m, hm, hid, rfl⟩, hparsed, hrow⟩ := hpre
    have hstored_id : stored.event_id = row.event_id := by
      obtain ⟨_, -, rfl⟩ := AuditRow.stored?_eq hstored
      rfl
    refine ⟨⟨hi.ids, hi.stream, hi.parsed, fun r hr => ?_, ?_, hi.condemned,
      hi.quarantined, hi.messageIds, fun a ha => (hi.acked a ha).mono hext⟩, hext, ?_⟩
    · rcases List.mem_append.mp hr with hr | hr
      · exact (hi.rows r hr).mono hext
      · obtain rfl := List.mem_singleton.mp hr
        exact ⟨m, hm, e, row, hid, hparsed, hrow, hstored⟩
    · rw [List.map_append, List.nodup_append]
      refine ⟨hi.eventIds, by simp, fun a ha b hb => ?_⟩
      obtain ⟨r, hr, rfl⟩ := List.mem_map.mp ha
      obtain rfl : b = stored.event_id := by simpa using hb
      rw [hstored_id]
      exact free r hr
    · exact ⟨(source, stored), List.mem_append_right _ (List.mem_singleton.mpr rfl),
        hnew hrow hstored⟩
  | @commitQuarantined _ source row _ free =>
    have hext : Extends s { s with quarantined := s.quarantined ++ [row] } :=
      ⟨List.Subset.refl _, List.Subset.refl _, List.Subset.refl _,
        List.subset_append_left _ _, List.Subset.refl _⟩
    refine ⟨⟨hi.ids, hi.stream, hi.parsed, fun r hr => (hi.rows r hr).mono hext, hi.eventIds,
      fun q hq => ?_, fun q hq => ?_, ?_, fun a ha => (hi.acked a ha).mono hext⟩, hext,
      row, List.mem_append_right _ (List.mem_singleton.mpr rfl), rfl⟩
    · rcases List.mem_append.mp hq with hq | hq
      · exact hi.condemned q hq
      · obtain rfl := List.mem_singleton.mp hq
        exact ⟨source, hpre.1, hpre.2.1⟩
    · rcases List.mem_append.mp hq with hq | hq
      · exact hi.quarantined q hq
      · obtain rfl := List.mem_singleton.mp hq
        exact hpre.2.2
    · rw [List.map_append, List.nodup_append]
      refine ⟨hi.messageIds, by simp, fun a ha b hb => ?_⟩
      obtain ⟨q, hq, rfl⟩ := List.mem_map.mp ha
      obtain rfl : b = row.stream_message_id := by simpa using hb
      exact free q hq
  | _ => exact ⟨hi, .refl _, trivial⟩

/-- After an error other than an `IntegrityError` nothing is known. -/
theorem callPost_error {c : Call} {e : Exc} (he : e ≠ .integrityError) :
    CallPost env covers c (.error e) s := by
  unfold CallPost
  split <;> first | trivial | simp_all

theorem transportError_ne {c : Call} {e : Exc} (h : c.TransportError e) : e ≠ .integrityError := by
  rintro rfl
  cases c <;> simp [Call.TransportError] at h

theorem drift_sound (hi : Inv env covers s) (h : Drift s t) :
    Inv env covers t ∧ Extends s t := by
  cases h with
  | tick ms => exact hi.of_eq hi.stream rfl rfl rfl rfl (List.Subset.refl _) rfl
  | @xadd m _ newer =>
    have hext : Extends s { s with stream := s.stream ++ [m], history := s.history ++ [m] } :=
      ⟨List.subset_append_left _ _, List.Subset.refl _, List.Subset.refl _,
        List.Subset.refl _, List.Subset.refl _⟩
    refine ⟨⟨?_, fun m' hm' => ?_, fun p hp => ?_, fun r hr => (hi.rows r hr).mono hext,
      hi.eventIds, hi.condemned, hi.quarantined, hi.messageIds,
      fun a ha => (hi.acked a ha).mono hext⟩, hext⟩
    · rw [List.pairwise_append]
      exact ⟨hi.ids, by simp, fun a ha b hb => by
        obtain rfl := List.mem_singleton.mp hb
        exact newer a ha⟩
    · rcases List.mem_append.mp hm' with hm' | hm'
      · exact List.mem_append_left _ (hi.stream m' hm')
      · exact List.mem_append_right _ hm'
    · obtain ⟨m', hm', hid, hparses⟩ := hi.parsed p hp
      exact ⟨m', List.mem_append_left _ hm', hid, hparses⟩
  | @trim kept h =>
    exact hi.of_eq (fun m hm => hi.stream m (h.subset hm)) rfl rfl rfl rfl
      (List.Subset.refl _) rfl
  | groupLost => exact hi.of_eq hi.stream rfl rfl rfl rfl (List.Subset.refl _) rfl

/-- **The world keeps the contract.** Two things are asked of `covers`: a row written for an
event covers it, and where a run meets a primary key that is taken, the row that has it
does. -/
theorem world_sound {allowed : (c : Call) → Shared → workerSig.Answer c → Prop}
    (hnew : ∀ {e status row stored}, sinkRecord env e status = .ok row →
      row.stored? = some stored → covers stored e status)
    (hdup : ∀ {s source e status row r}, allowed (.commitAuditEvent source e status row) s
      (.error .integrityError) → r ∈ s.auditEvents → r.2.event_id = row.event_id →
      sinkRecord env e status = .ok row → covers r.2 e status) :
    (workerContract env covers).Sound ((world env).restrict allowed) where
  drift hi h := drift_sound hi h
  call := by
    rintro c s r t hi hpre ⟨h, hallowed⟩
    cases h with
    | done h => exact executes_sound hnew hi hpre h
    | lost h he =>
      obtain ⟨hi', hext, -⟩ := executes_sound hnew hi hpre h
      exact ⟨hi', hext, callPost_error (transportError_ne he)⟩
    | refused h =>
      refine ⟨hi, .refl s, ?_⟩
      cases h with
      | transport he => exact callPost_error (transportError_ne he)
      | busyGroup => trivial
      | readNoGroup => trivial
      | pendingNoGroup => trivial
      | claimNoGroup => trivial
      | rejected => trivial
      | @duplicateEvent _ source e status row r hr hid =>
        exact ⟨r, hr, hdup hallowed hr hid hpre.2.2⟩
      | @duplicateQuarantined _ source row r hr hid => exact ⟨r, hr, hid⟩
      | output hc => cases c <;> trivial

end SecurityAudit
