import SecurityAudit.Worker.Programs
import SecurityAudit.Worker.Scenarios

/-!
# An acknowledged entry has left evidence

The acknowledgement is the last thing either path does, and both write first. So an
acknowledged id has a row: of the event that was parsed from it, or of its quarantine. The
row of an event is found by its `event_id` only. `Sink.write` takes a primary key that is
already there for a copy of its own event, which it is as long as nobody uses an `event_id`
for two events: then the row carries the event itself.
-/

namespace SecurityAudit

variable {env : Env} {s : Shared}

/-! ## Some row -/

/-- **Acknowledged means durable.** Every acknowledged id has a row of `audit_events` under the
`event_id` of an event that was parsed from that entry, or a row of
`quarantined_audit_events` under the id itself. -/
theorem acked_durable (h : Reachable env s) {id : StreamId} {reason : AckReason}
    (ha : (id, reason) ∈ s.acked) :
    (∃ m ∈ s.history, m.id = id ∧ ∃ e, (id, e) ∈ s.parsed ∧ m.ParsesTo env e ∧
      ∃ r ∈ s.auditEvents, r.2.event_id = e.event_id) ∨
    ∃ q ∈ s.quarantined, q.stream_message_id = id.text := by
  have hi : Inv env (fun row e _ => row.event_id = e.event_id) s := by
    refine inv_of_reachableWhen ?_ ?_ h.when
    · intro e status row stored hrow hstored
      obtain ⟨_, _, -, -, rfl⟩ := sinkRecord_stored hrow hstored
      rfl
    · intro _ _ e status row r _ _ hid hrow
      rw [hid, event_id_of_sinkRecord hrow]
  have hevidence := hi.acked _ ha
  cases reason with
  | handled e status =>
    obtain ⟨-, hparsed, hrow⟩ := hevidence
    obtain ⟨m, hm, hid, hparses⟩ := hi.parsed _ hparsed
    exact .inl ⟨m, hm, hid, e, hparsed, hparses, hrow⟩
  | quarantined => exact .inr hevidence

/-- A handled entry is acknowledged, and its event has a row. -/
theorem acked_durable_named : ∃ s, Reachable Sample.env s ∧ ∃ reason,
    (Sample.named.id, reason) ∈ s.acked ∧
      ((∃ m ∈ s.history, m.id = Sample.named.id ∧ ∃ e, (Sample.named.id, e) ∈ s.parsed ∧
        m.ParsesTo Sample.env e ∧ ∃ r ∈ s.auditEvents, r.2.event_id = e.event_id) ∨
      ∃ q ∈ s.quarantined, q.stream_message_id = Sample.named.id.text) := by
  obtain ⟨e, stored, h, -⟩ := Sample.recorded_named
  have hrun : Reachable Sample.env _ := (Quiet.handled lenient_everything h (by decide)
    (fun _ _ => trivial) (fun _ _ _ => trivial) (str "worker-1")).reachableWhen.reachable
  exact ⟨_, hrun, _, List.mem_singleton.mpr rfl, acked_durable hrun (List.mem_singleton.mpr rfl)⟩

/-! ## Its own row -/

/-- The row says what the event says, under the classification `status`: every column a
producer's event determines. -/
structure Carries (row : AuditRow) (e : AuditEvent) (status : IntegrityStatus) : Prop where
  timestamp : ∃ t, RecordIntegrity.toNaiveUtc e.timestamp = .ok t ∧
    t.storeSecond? = some row.timestamp
  service : row.service = e.service
  event_type : row.event_type = e.event_type
  user_id : row.user_id = e.user_id
  organization_id : row.organization_id = e.organization_id
  tenant_scope : row.tenant_scope = e.tenant_scope.text
  action : row.action = e.action
  resource : row.resource = e.resource
  decision : row.decision = e.decision
  reason : row.reason = e.reason
  trace_id : row.trace_id = e.trace_id
  context : JVal.SameJson row.context (.obj e.context)
  integrity_status : row.integrity_status = status.text

/-- A row `Sink.write` stores carries the event it was built from. -/
theorem carries_of_stored {e : AuditEvent} {status : IntegrityStatus} {row stored : AuditRow}
    (h : sinkRecord env e status = .ok row) (hs : row.stored? = some stored) :
    Carries stored e status := by
  obtain ⟨t, u, ht, hu, rfl⟩ := sinkRecord_stored h hs
  exact ⟨⟨t, ht, hu⟩, rfl, rfl, rfl, rfl, rfl, rfl, rfl, rfl, rfl, rfl, .refl _, rfl⟩

/-- Where a row is already stored under the `event_id` of the event that is about to be
written, it carries that event. -/
def SameEventIfTaken : (c : Call) → Shared → workerSig.Answer c → Prop
  | .commitAuditEvent _ e status _, s, _ =>
    ∀ r ∈ s.auditEvents, r.2.event_id = e.event_id → Carries r.2 e status
  | _, _, _ => True

/-- **Acknowledged means carried.** In a run that never writes an event over another event's
`event_id`, an entry acknowledged by `handle_message` has a row that carries the event
parsed from that entry and its classification. -/
theorem acked_own_evidence (h : ReachableWhen env SameEventIfTaken s) {id : StreamId}
    {e : AuditEvent} {status : IntegrityStatus} (ha : (id, .handled e status) ∈ s.acked) :
    ∃ m ∈ s.history, m.id = id ∧ m.ParsesTo env e ∧ status = m.classify env e ∧
      ∃ r ∈ s.auditEvents, Carries r.2 e status := by
  have hi : Inv env Carries s := by
    refine inv_of_reachableWhen carries_of_stored ?_ h
    intro _ _ e status row r hallowed hr hid hrow
    exact hallowed r hr (hid.trans (event_id_of_sinkRecord hrow))
  obtain ⟨⟨m, hm, hid, hstatus⟩, hparsed, hrow⟩ := hi.acked _ ha
  obtain ⟨m', hm', hid', hparses⟩ := hi.parsed _ hparsed
  obtain rfl := hi.message_unique hm hm' (hid.trans hid'.symm)
  exact ⟨m, hm, hid, hparses, hstatus, hrow⟩

/-- One handled entry meets the condition. -/
theorem acked_own_evidence_named : ∃ s, ReachableWhen Sample.env SameEventIfTaken s ∧
    ∃ e status, (Sample.named.id, .handled e status) ∈ s.acked ∧
      ∃ m ∈ s.history, m.id = Sample.named.id ∧ m.ParsesTo Sample.env e ∧
        status = m.classify Sample.env e ∧ ∃ r ∈ s.auditEvents, Carries r.2 e status := by
  obtain ⟨e, stored, h, -⟩ := Sample.recorded_named
  have hlenient : Lenient SameEventIfTaken := by
    intro c s r hc
    cases c <;> first | trivial | exact absurd trivial hc
  have hrun := (Quiet.handled hlenient h (by decide) (fun _ _ => trivial)
    (fun s row hnone r hr => by rw [hnone.1] at hr; cases hr) (str "worker-1")).reachableWhen
  exact ⟨_, hrun, e, _, List.mem_singleton.mpr rfl,
    acked_own_evidence hrun (List.mem_singleton.mpr rfl)⟩

/-- An unsigned entry that came first under the same `event_id` takes the place of the event
that is signed: that entry is acknowledged, and no row carries its event. -/
theorem evidence_suppressed : ∃ s, Reachable Sample.env s ∧ ∃ e status,
    (Sample.named.id, .handled e status) ∈ s.acked ∧ Sample.named.ParsesTo Sample.env e ∧
      ¬∃ r ∈ s.auditEvents, Carries r.2 e status := by
  obtain ⟨e, stored, h, hchecked⟩ := Sample.recorded_forged
  obtain ⟨e', stored', h', hchecked'⟩ := Sample.recorded_named
  obtain ⟨hid, hservice⟩ := of_decide_eq_true hchecked
  obtain ⟨hid', hservice', -⟩ := of_decide_eq_true hchecked'
  obtain ⟨s, hrun, hrows, hacked⟩ := Quiet.collision h h' (hid'.trans hid.symm) (by decide)
    (by decide) (str "worker-1")
  refine ⟨s, hrun.reachableWhen.reachable, e', _, hacked, h'.parses, ?_⟩
  rintro ⟨r, hr, hcarries⟩
  rw [hrows, List.mem_singleton] at hr
  have hsame := hcarries.service
  rw [hr, hservice, hservice'] at hsame
  revert hsame
  decide

end SecurityAudit
