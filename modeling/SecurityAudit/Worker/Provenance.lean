import SecurityAudit.Worker.Programs
import SecurityAudit.Worker.Scenarios

/-!
# Where a row comes from

A row says four things that no payload may decide: how its event was classified, the hash of
its columns, the key that hash was made with, and through these that the trusted worker wrote
it. The classification compares the `sig` field with the signature of the exact `data` string
under the service the row itself names, the other two come from the worker's configuration.
Every other column is the parsed event's.
-/

namespace SecurityAudit

open RecordIntegrity

variable {env : Env} {s : Shared}

/-- The columns a producer's event determines, in the row the database keeps of it. -/
def Reproduces (row : AuditRow) (e : AuditEvent) (status : IntegrityStatus) : Prop :=
  ∃ timestamp t, toNaiveUtc e.timestamp = .ok timestamp ∧ timestamp.storeSecond? = some t ∧
    row = { eventRow e t status with
      record_integrity_hash := row.record_integrity_hash
      integrity_key_id := row.integrity_key_id }

/-- The columns the configuration determines: the configured key id, and the hash of the row's
own columns under the configured key. -/
def SealedBy (env : Env) (row : AuditRow) : Prop :=
  ∃ key keyId hash, env.cfg.requireRecordIntegrityKey = .ok (key, keyId) ∧
    row.integrity_key_id = some keyId ∧ row.record_integrity_hash = some hash ∧
    computeAuditEventHash env.crypto row key (some keyId) = .ok hash

/-- The entry carries the right signature of its own data under this service. -/
def Message.SignedBy (env : Env) (m : Message) (service : Str) : Prop :=
  ∃ data sig, m.fields.get "data" = some data ∧ m.fields.get "sig" = some sig ∧
    Signing.signAuditEvent env.crypto service (some data) env.cfg.eventSigningSecret = .ok sig

/-- The classification is valid just where the entry is signed. -/
theorem classify_valid_iff {m : Message} {e : AuditEvent} (hdata : (m.fields.get "data").isSome) :
    m.classify env e = .valid ↔ m.SignedBy env e.service := by
  obtain ⟨data, hdata⟩ := Option.isSome_iff_exists.mp hdata
  constructor
  · intro h
    obtain ⟨sig, hsig, hsigned⟩ := classifyEventIntegrity_valid h
    rw [hdata] at hsigned
    exact ⟨data, sig, hdata, hsig, hsigned⟩
  · rintro ⟨data', sig, hdata', hsig, hsigned⟩
    obtain rfl : data = data' := Option.some.inj (hdata.symm.trans hdata')
    have hverify := (Signing.verifyAuditEvent_iff env.crypto e.service (some data) sig
      env.cfg.eventSigningSecret).mpr hsigned
    -- a signature is never empty: it starts with its version
    have hne : sig ≠ [] := by
      rintro rfl
      simp [Signing.verifyAuditEvent] at hverify
    show classifyEventIntegrity env.crypto e.service (m.fields.get "sig") (m.fields.get "data")
      env.cfg.eventSigningSecret = .valid
    rw [hsig, hdata, classifyEventIntegrity, if_neg hne, if_pos hverify]

/-- **Provenance.** In every reachable ledger every row was written from a stream entry: its
producer columns are those of an event parsed from that entry's data, its hash and key id are
the configuration's, and its status is the classification of that entry. The status is `valid`
just where the entry's `sig` is the signature of its exact data under the row's own service. -/
theorem row_provenance (h : Reachable env s) {r : StreamId × AuditRow} (hr : r ∈ s.auditEvents) :
    ∃ m ∈ s.history, m.id = r.1 ∧ ∃ e, m.ParsesTo env e ∧
      Reproduces r.2 e (m.classify env e) ∧ SealedBy env r.2 ∧
      (r.2.integrity_status = IntegrityStatus.valid.text ↔ m.SignedBy env r.2.service) := by
  have hi : Inv env (fun _ _ _ => True) s :=
    inv_of_reachableWhen (fun _ _ => trivial) (fun _ _ _ _ => trivial) h.when
  obtain ⟨m, hm, -, -, hid, -⟩ := (hi.rows r hr).exists_source
  obtain ⟨e, row, hparses, hrow, hstored⟩ := hi.row_parsed hm hr hid.symm
  obtain ⟨timestamp, t, ht, hstore, heq⟩ := sinkRecord_stored hrow hstored
  have hsealed : SealedBy env r.2 := sinkRecord_hash hrow hstored
  have hservice : r.2.service = e.service := by rw [heq]; rfl
  have hstatus : r.2.integrity_status = (m.classify env e).text := by rw [heq]; rfl
  refine ⟨m, hm, hid, e, hparses, ⟨timestamp, t, ht, hstore, ?_⟩, hsealed, ?_⟩
  · rw [heq]
  · obtain ⟨uuid, utcnow, hparse⟩ := hparses
    obtain ⟨raw, _, hraw, -, -⟩ := parseAuditEvent_eq_ok.mp hparse
    have htext : (m.classify env e).text = IntegrityStatus.valid.text ↔
        m.classify env e = .valid := by
      cases m.classify env e <;> decide
    rw [hservice, hstatus, htext, classify_valid_iff (by rw [hraw]; rfl)]

/-- The row of a signed entry. -/
theorem row_provenance_named : ∃ s, Reachable Sample.env s ∧ ∃ r ∈ s.auditEvents,
    r.2.integrity_status = IntegrityStatus.valid.text ∧
    ∃ m ∈ s.history, m.id = r.1 ∧ ∃ e, m.ParsesTo Sample.env e ∧
      Reproduces r.2 e (m.classify Sample.env e) ∧ SealedBy Sample.env r.2 ∧
      (r.2.integrity_status = IntegrityStatus.valid.text ↔
        m.SignedBy Sample.env r.2.service) := by
  obtain ⟨e, stored, h, hchecked⟩ := Sample.recorded_named
  obtain ⟨-, -, hstatus⟩ := of_decide_eq_true hchecked
  have hrun : Reachable Sample.env _ := (Quiet.handled lenient_everything h (by decide)
    (fun _ _ => trivial) (fun _ _ _ => trivial) (str "worker-1")).reachableWhen.reachable
  exact ⟨_, hrun, _, List.mem_singleton.mpr rfl, hstatus,
    row_provenance hrun (List.mem_singleton.mpr rfl)⟩

end SecurityAudit
