import SecurityAudit.Worker.Programs
import SecurityAudit.Worker.Scenarios

/-!
# The ledger and the quarantine

The decision to quarantine is taken from the delivery count in an `XPENDING` reply, and nobody
looks into `audit_events` before the row is written. An entry whose worker was killed after
the commit keeps counting deliveries, and an entry can be committed by a slow worker while a
sweep is quarantining it. In runs without these two the tables are disjoint.
-/

namespace SecurityAudit

variable {env : Env} {s t : Shared}

/-- Where the pending list shows an entry at or above the delivery limit, no row was written
from it; and no row is written from an entry that was shown so. -/
def NotPersistedAtLimit (env : Env) : (c : Call) → Shared → workerSig.Answer c → Prop
  | .xpendingRange, s, _ => ∀ g ∈ s.group, ∀ id ∈ poisonIds env.cfg
      (g.pendingRange s.now env.cfg.pelMinIdleMs env.cfg.pelSweepBatch),
      ∀ r ∈ s.auditEvents, r.1 ≠ id
  | .commitAuditEvent source _ _ _, s, _ => source ∉ s.condemned
  | _, _, _ => True

/-- No row was written from a condemned entry. -/
def Separate (s : Shared) : Prop := ∀ r ∈ s.auditEvents, r.1 ∉ s.condemned

/-- A carried out call that the condition allows keeps the entries separate. -/
theorem separate_executes {c : Call} {v : c.Reply} {answer : workerSig.Answer c}
    (hsep : Separate s) (h : Executes env c s v t)
    (hallowed : NotPersistedAtLimit env c s answer) : Separate t := by
  cases h with
  | xpendingRange hg hinfos =>
    intro r hr hmem
    rcases List.mem_append.mp hmem with hmem | hmem
    · exact hsep r hr hmem
    · subst hinfos
      exact hallowed _ hg _ hmem r hr rfl
  | commitAuditEvent hstored free =>
    intro r hr hmem
    rcases List.mem_append.mp hr with hr | hr
    · exact hsep r hr hmem
    · rw [List.mem_singleton.mp hr] at hmem
      exact hallowed hmem
  | _ => exact hsep

theorem separate_drift (hsep : Separate s) (h : Drift s t) : Separate t := by
  cases h <;> exact hsep

/-- In a run that meets the condition no row is ever written from a condemned entry. -/
theorem separate_of_reachableWhen (h : ReachableWhen env (NotPersistedAtLimit env) s) :
    Inv env (fun _ _ _ => True) s ∧ Separate s := by
  obtain ⟨cfg, hreach, rfl⟩ := h
  have hsound : (workerContract env fun _ _ _ => True).Sound
      ((world env).restrict (NotPersistedAtLimit env)) :=
    world_sound (fun _ _ => trivial) fun _ _ _ _ => trivial
  have hstrong := hsound.strengthen (P := Separate)
    (fun _ hsep _ ⟨hanswer, hallowed⟩ => by
      cases hanswer with
      | done h => exact separate_executes hsep h hallowed
      | lost h _ => exact separate_executes hsep h hallowed
      | refused _ => exact hsep)
    fun _ hsep h => separate_drift hsep h
  refine (hstrong.reach (fun p hp t hi => (safe_worker hp hi.1).strengthen Separate)
    ⟨inv_initial, ?_⟩ hreach).1
  intro r hr
  cases hr

/-- **Ledger and quarantine are disjoint** in every run in which no entry is at its delivery
limit while it has a row, and none gets a row afterwards. -/
theorem quarantine_disjoint (h : ReachableWhen env (NotPersistedAtLimit env) s) (id : StreamId) :
    ¬((∃ r ∈ s.auditEvents, r.1 = id) ∧ ∃ q ∈ s.quarantined, q.stream_message_id = id.text) := by
  obtain ⟨hi, hsep⟩ := separate_of_reachableWhen h
  rintro ⟨⟨r, hr, rfl⟩, q, hq, hid⟩
  obtain ⟨id, hcondemned, hid'⟩ := hi.condemned q hq
  rw [StreamId.text_injective (hid'.symm.trans hid)] at hcondemned
  exact hsep r hr hcondemned

/-- An entry that was handled at its first delivery has a row, and no other. -/
theorem quarantine_disjoint_named : ∃ s, ReachableWhen Sample.env (NotPersistedAtLimit Sample.env) s ∧
    (∃ r ∈ s.auditEvents, r.1 = Sample.named.id) ∧
      ¬((∃ r ∈ s.auditEvents, r.1 = Sample.named.id) ∧
        ∃ q ∈ s.quarantined, q.stream_message_id = Sample.named.id.text) := by
  obtain ⟨e, stored, h, -⟩ := Sample.recorded_named
  have hlenient : Lenient (NotPersistedAtLimit Sample.env) := by
    intro c s r hc
    cases c <;> first | trivial | exact absurd trivial hc
  have hrun := (Quiet.handled hlenient h (by decide)
    (fun s hs g _ id _ r hr => by rw [hs.1] at hr; cases hr)
    (fun s row hs hmem => by rw [hs.2] at hmem; cases hmem) (str "worker-1")).reachableWhen
  exact ⟨_, hrun, ⟨_, List.mem_singleton.mpr rfl, rfl⟩, quarantine_disjoint hrun _⟩

/-- A worker is killed after the commit of an entry's row, and four more are killed after
claiming it: the sweep after that quarantines an entry that has been in the ledger since its
first delivery. -/
theorem persisted_and_quarantined : ∃ s, Reachable Sample.env s ∧
    (∃ r ∈ s.auditEvents, r.1 = Sample.named.id) ∧
      ∃ q ∈ s.quarantined, q.stream_message_id = Sample.named.id.text ∧
        q.failure_category = str "persistence_exhausted" := by
  obtain ⟨e, stored, h, -⟩ := Sample.recorded_named
  have hok : (match quarantineRecord Sample.env Sample.named.id.text Sample.named.fields 5 with
      | .ok row => decide (row.failure_category = str "persistence_exhausted" ∧ row.Fits)
      | .error _ => false) = true := by decide +kernel
  split at hok
  · next row hrow =>
    obtain ⟨hcategory, hfits⟩ := of_decide_eq_true hok
    obtain ⟨s, hrun, hrows, hquarantined⟩ := Quiet.quarantined_written h (by decide) (by decide)
      (by decide) 4 rfl hrow hfits (str "worker-1")
    refine ⟨s, hrun.reachableWhen.reachable,
      ⟨_, hrows ▸ List.mem_singleton.mpr rfl, rfl⟩, row, by simp [hquarantined],
      ?_, hcategory⟩
    obtain ⟨_, _, _, -, -, rfl⟩ := quarantineRecord_eq_ok hrow
    rfl
  · cases hok

end SecurityAudit
