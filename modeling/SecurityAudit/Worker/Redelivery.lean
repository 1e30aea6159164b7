import SecurityAudit.Worker.Programs
import SecurityAudit.Worker.Scenarios

/-!
# One row for one entry

However often an entry is delivered, parsed and written, and by however many workers, its
rows all carry the `event_id` of an event parsed from it. Where the payload names the event,
every parse finds that name, and the primary key leaves room for one row. Where it does not,
`AuditEvent` draws a fresh id for each parse.
-/

namespace SecurityAudit

variable {env : Env} {s : Shared} {m : Message}

/-- The payload is a JSON object that has the key `event_id`. -/
def Message.NamesEvent (m : Message) : Prop :=
  ∃ raw kvs, m.fields.get "data" = some raw ∧ JVal.loads raw = .ok (.obj kvs) ∧
    (JVal.lookup (str "event_id") kvs).isSome = true

/-- Every parse of such a payload finds the same `event_id`. -/
theorem Message.NamesEvent.event_id_unique (h : m.NamesEvent) {e e' : AuditEvent}
    (he : m.ParsesTo env e) (he' : m.ParsesTo env e') : e.event_id = e'.event_id := by
  obtain ⟨raw, kvs, hdata, hloads, hid⟩ := h
  obtain ⟨v, hv⟩ := Option.isSome_iff_exists.mp hid
  have hread : ∀ {f : AuditEvent}, m.ParsesTo env f → AuditEvent.strField v = .ok f.event_id := by
    rintro f ⟨uuid, utcnow, hf⟩
    obtain ⟨raw', kvs', hdata', hloads', hf⟩ := parseAuditEvent_eq_ok.mp hf
    obtain rfl : raw = raw' := Option.some.inj (hdata.symm.trans hdata')
    have hkvs : JVal.obj kvs = .obj kvs' := Except.ok.inj (hloads.symm.trans hloads')
    rw [JVal.obj.injEq] at hkvs
    subst hkvs
    exact AuditEvent.event_id_of_validate hv hf
  exact Except.ok.inj ((hread he).symm.trans (hread he'))

/-- A list without duplicates whose elements are all the same has at most one. -/
theorem length_le_one_of_nodup {α : Type} {l : List α} (hnodup : l.Nodup)
    (hsame : ∀ a ∈ l, ∀ b ∈ l, a = b) : l.length ≤ 1 := by
  match l, hnodup, hsame with
  | [], _, _ => simp
  | [_], _, _ => simp
  | a :: b :: l, hnodup, hsame =>
    have hab : a = b := hsame a (by simp) b (by simp)
    simp [hab] at hnodup

/-- **One row for one entry.** In every reachable state the table has at most one row that was
written for an entry whose payload names its event. -/
theorem one_row_per_message (h : Reachable env s) (hm : m ∈ s.history) (hnames : m.NamesEvent) :
    (s.auditEvents.filter fun r => r.1 = m.id).length ≤ 1 := by
  have hi : Inv env (fun _ _ _ => True) s :=
    inv_of_reachableWhen (fun _ _ => trivial) (fun _ _ _ _ => trivial) h.when
  have hid : ∀ r ∈ s.auditEvents, r.1 = m.id → ∃ e, m.ParsesTo env e ∧ r.2.event_id = e.event_id := by
    intro r hr hsource
    obtain ⟨e, row, hparses, hrow, hstored⟩ := hi.row_parsed hm hr hsource
    obtain ⟨_, _, -, -, hstored⟩ := sinkRecord_stored hrow hstored
    exact ⟨e, hparses, by rw [hstored]; rfl⟩
  refine length_le_one_of_nodup ((List.Nodup.of_map _ hi.eventIds).filter _) ?_
  simp only [List.mem_filter, decide_eq_true_eq]
  rintro r ⟨hr, hsource⟩ r' ⟨hr', hsource'⟩
  obtain ⟨e, he, hre⟩ := hid r hr hsource
  obtain ⟨e', he', hre'⟩ := hid r' hr' hsource'
  exact hi.row_unique hr hr' (by rw [hre, hre', hnames.event_id_unique he he'])

theorem namesEvent_named : Sample.named.NamesEvent := by
  have hcheck : ((JVal.loads Sample.namedData).toOption.any fun v =>
      (AuditEvent.dictField v).toOption.any fun kvs =>
        (JVal.lookup (str "event_id") kvs).isSome) = true := by decide +kernel
  cases hloads : JVal.loads Sample.namedData with
  | error e =>
    rw [hloads] at hcheck
    cases hcheck
  | ok v =>
    rw [hloads] at hcheck
    cases v with
    | obj kvs => exact ⟨Sample.namedData, kvs, by decide +kernel, hloads, hcheck⟩
    | _ => cases hcheck

/-- The worker that wrote the row was killed before the acknowledgement. -/
theorem one_row_per_message_named : ∃ s, Reachable Sample.env s ∧ Sample.named ∈ s.history ∧
    s.acked = [] ∧ (s.auditEvents.filter fun r => r.1 = Sample.named.id).length = 1 ∧
      (s.auditEvents.filter fun r => r.1 = Sample.named.id).length ≤ 1 := by
  obtain ⟨e, stored, h, -⟩ := Sample.recorded_named
  have hrun : Reachable Sample.env _ := (Quiet.written lenient_everything h (by decide)
    (fun _ _ => trivial) (fun _ _ _ => trivial) (str "worker-1")).reachableWhen.reachable
  exact ⟨_, hrun, List.mem_singleton.mpr rfl, rfl, by simp [Shared.written],
    one_row_per_message hrun (List.mem_singleton.mpr rfl) namesEvent_named⟩

/-- A payload without an `event_id` whose first worker was killed between the commit and the
acknowledgement gets a second row from the second worker. -/
theorem redelivery_duplicates : ∃ s, Reachable Sample.env s ∧ Sample.anonymous ∈ s.history ∧
    (∃ e, Sample.anonymous.ParsesTo Sample.env e) ∧
      (s.auditEvents.filter fun r => r.1 = Sample.anonymous.id).length = 2 := by
  obtain ⟨e, stored, h, hid⟩ := Sample.recorded_anonymous _ (.inl rfl)
  obtain ⟨e', stored', h', hid'⟩ := Sample.recorded_anonymous _ (.inr rfl)
  have hne : e'.event_id ≠ e.event_id := by
    rw [of_decide_eq_true hid, of_decide_eq_true hid']
    decide +kernel
  obtain ⟨s, hrun, hhistory, hrows⟩ := Quiet.reparsed h h' hne (by decide) (by decide) (by decide)
    (by decide) (str "worker-1") (str "worker-2")
  exact ⟨s, hrun.reachableWhen.reachable, by simp [hhistory], ⟨e, h.parses⟩, by simp [hrows]⟩

end SecurityAudit
