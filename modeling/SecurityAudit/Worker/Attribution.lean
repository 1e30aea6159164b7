import SecurityAudit.Audit.Decorators
import SecurityAudit.Services.AuditQuery
import SecurityAudit.Worker.Evidence
import SecurityAudit.Worker.Published

/-!
# From an audited call to the readers of an organization

A process whose functions are decorated with `@audit` publishes events, workers with the same
secret write them down, and the read routes show a row to an organization by two of its columns.
Put together: the row of an audited call is shown to an organization exactly if the last
`inject_context` that returned in its context was given a valid token of that organization.
-/

namespace SecurityAudit

namespace Contexts

open AuditQuery (inScope)
open JwtVerify (Settings)

/-- A producer with the secret of the workers. -/
def producer (env : Env) (settings : Settings) (datetimeText : DateTime → Str) : Producer :=
  ⟨settings, env.crypto, env.cfg.eventSigningSecret, datetimeText⟩

variable {V E : Type} {env : Env} {settings : Settings} {datetimeText : DateTime → Str}
  {x : AuditedCall V E} {e : AuditEvent} {r : AuditRow}

/-- The caller that the context names is the one of the last call that returned. -/
theorem organization_iff {calls : List InjectCall} {D : Decoration} {P : Producer} {org : Str}
    (he : auditEvent P.settings D (contextAfter P calls) = .ok e) :
    e.organization_id = some org ↔ ∃ call i, lastReturned P calls = some call ∧
      call.Verifies P.settings i ∧ i.organization P.settings = some org := by
  have hholds := holds_contextAfter (P := P) calls
  have horganization : e.organization_id =
      (contextAfter P calls).identity.bind fun i => i.organization P.settings := by
    rw [AuditEvent.validateTenantScope_eq he]
  rw [horganization, Option.bind_eq_some_iff]
  constructor
  · rintro ⟨i, hi, horg⟩
    obtain ⟨call, hcall, hverifies⟩ := (hholds.identity i).mp hi
    exact ⟨call, i, hcall, hverifies, horg⟩
  · rintro ⟨call, i, hcall, hverifies, horg⟩
    exact ⟨i, (hholds.identity i).mpr ⟨call, hcall, hverifies⟩, horg⟩

theorem user_of_verifies {calls : List InjectCall} {D : Decoration} {P : Producer}
    {call : InjectCall} {i : VerifiedIdentity}
    (he : auditEvent P.settings D (contextAfter P calls) = .ok e)
    (hcall : lastReturned P calls = some call) (hverifies : call.Verifies P.settings i) :
    e.user_id = some i.sub := by
  have hholds := holds_contextAfter (P := P) calls
  have huser : e.user_id = (contextAfter P calls).user_id := by
    rw [AuditEvent.validateTenantScope_eq he]
  rw [huser, hholds.user_id, (hholds.identity i).mpr ⟨call, hcall, hverifies⟩]
  rfl

/-- An organization is shown a row that carries an event exactly if it is the event's. -/
theorem inScope_of_carries {status : IntegrityStatus} {org : Str} (h : Carries r e status) :
    inScope (some org) false r = true ↔ e.organization_id = some org := by
  simp only [inScope, AuditQuery.sqlEq, if_true, Bool.and_eq_true, decide_eq_true_eq]
  rw [h.organization_id, h.tenant_scope]
  refine ⟨fun hscope => hscope.1, fun horg => ⟨horg, ?_⟩⟩
  rw [e.scope_of_organization horg]

/-- **An audited call is attributed to the verified caller and to nobody else.** In every process,
whatever its tasks do in whatever order, the wrapper ends as the function does, and a function that
raises leaves no event. In every ledger that workers with the same secret make of the stream, the
row of the call is valid, has the trace id of the last `inject_context` that the context had seen
and the user of the last one that returned with a valid token, and is shown to an organization
exactly if that token is of this organization. -/
theorem audited_call_attributed (env : Env) (settings : Settings) (datetimeText : DateTime → Str)
    (acts : List (ℕ × Act V E)) (x : AuditedCall V E)
    (hx : x ∈ (Process.run (producer env settings datetimeText) acts).audited) :
    x.outcome = x.result.mapError Sum.inl ∧ (x.result.isOk = false → x.entry = none) ∧
      ∀ s, Reachable env s → ∀ m ∈ s.history, x.entry = some m.fields →
        (∀ e, auditEvent settings x.decoration
            (contextAfter (producer env settings datetimeText) x.calls) = .ok e →
          e.service ≠ [] ∧ e.Native ∧ JVal.Clean (datetimeText e.timestamp) ∧
            env.parseDatetime (.str (datetimeText e.timestamp)) = some e.timestamp) →
        ∀ r ∈ s.auditEvents, r.1 = m.id →
          r.2.integrity_status = IntegrityStatus.valid.text ∧
          r.2.trace_id = x.calls.getLast?.map InjectCall.trace_id ∧
          (∀ call i, lastReturned (producer env settings datetimeText) x.calls = some call →
            call.Verifies settings i → r.2.user_id = some i.sub) ∧
          ∀ org, inScope (some org) false r.2 = true ↔
            ∃ call i, lastReturned (producer env settings datetimeText) x.calls = some call ∧
              call.Verifies settings i ∧ i.organization settings = some org := by
  have hfaithful := (Process.sound_run (P := producer env settings datetimeText) acts).audited x hx
  refine ⟨hfaithful.outcome, hfaithful.failed, ?_⟩
  intro s hs m hm hentry hevent r hr hid
  obtain ⟨e, he, hlog⟩ := hfaithful.published _ hentry
  obtain ⟨hservice, hnative, hdatetime, hparse⟩ := hevent e he
  obtain ⟨hread, hvalid⟩ := read_published hservice hnative hdatetime hparse hlog
  -- the row was made of the event that is read from the entry
  have hi : Inv env (fun _ _ _ => True) s :=
    inv_of_reachableWhen (fun _ _ => trivial) (fun _ _ _ _ => trivial) hs.when
  obtain ⟨e', row, ⟨uuid, utcnow, hparses⟩, hrow, hstored⟩ := hi.row_parsed hm hr hid
  obtain rfl : e = e' := Except.ok.inj ((hread uuid utcnow).symm.trans hparses)
  have hcarries : Carries r.2 e .valid := hvalid ▸ carries_of_stored hrow hstored
  have htrace : e.trace_id = x.calls.getLast?.map InjectCall.trace_id := by
    rw [AuditEvent.validateTenantScope_eq he]
    exact (holds_contextAfter x.calls).trace_id
  refine ⟨hcarries.integrity_status, hcarries.trace_id.trans htrace,
    fun call i hcall hverifies => ?_, fun org => ?_⟩
  · exact hcarries.user_id.trans (user_of_verifies he hcall hverifies)
  · exact (inScope_of_carries hcarries).trans (organization_iff he)

namespace Sample

/-- A token of user 7 in organization 42, which verifies. -/
def member : InjectCall where
  user_id := none
  token := some (str "token of 7")
  trace_id := str "trace 1"
  outside := { verified.outside with
    claims := fun _ => [(str "sub", .str (str "7")), (str "org_id", .int 42)] }

/-- A call without a token. -/
def anonymous : InjectCall where
  user_id := none
  token := none
  trace_id := str "trace 2"
  outside := verified.outside

def istDecoration : Decoration := ⟨str "svc", str "run", str "start", str "evt-1", Sample.ist⟩

/-- Task 0 starts task 1, and then forgets the caller. An audited function ends in task 1. -/
def acts : List (ℕ × Act Unit Unit) :=
  [(0, .injectContext member), (0, .createTask 1), (0, .injectContext anonymous),
    (1, .ended istDecoration (.ok ()) true)]

/-- The producer of the workers' sample environment. -/
def istProducer : Producer :=
  producer SecurityAudit.Sample.istEnv Sample.settings fun _ => SecurityAudit.Sample.istText

/-- The call that ends in task 1. -/
def audited : AuditedCall Unit Unit where
  decoration := istDecoration
  result := .ok ()
  calls := [member]
  outcome := (asyncInner istProducer istDecoration (.ok () : Except Unit Unit)
    (contextAfter istProducer [member])).1
  entry := (asyncInner istProducer istDecoration (.ok () : Except Unit Unit)
    (contextAfter istProducer [member])).2

/-- Its entry. -/
def published : Message := ⟨toLex (1, 0), audited.entry.getD []⟩

theorem identity_member : member.identity Sample.settings =
    .ok (some (.ofClaims Sample.settings [(str "sub", .str (str "7")), (str "org_id", .int 42)])) := rfl

theorem mem_audited : audited ∈ (Process.run istProducer acts).audited := List.mem_singleton.mpr rfl

theorem isSome_entry : audited.entry.isSome = true := by decide +kernel

/-- Its event is Unicode text and JSON. -/
theorem native_audited {e : AuditEvent} (he : auditEvent Sample.settings istDecoration
    (contextAfter istProducer [member]) = .ok e) :
    e.Native ∧ e.service = str "svc" ∧ e.timestamp = SecurityAudit.Sample.ist := by
  have hfields := AuditEvent.validateTenantScope_eq he
  refine ⟨?_, by rw [hfields]; rfl, by rw [hfields]; rfl⟩
  constructor
  · rw [hfields]
    exact clean_str "evt-1"
  · rw [hfields]
    exact clean_str "svc"
  · rw [hfields]
    exact clean_str "run"
  · rw [hfields]
    show CleanOptional (some (str "7"))
    simpa [CleanOptional] using clean_str "7"
  · rw [hfields]
    show CleanOptional (some (str "42"))
    simpa [CleanOptional] using clean_str "42"
  · rw [hfields]
    exact clean_str "start"
  · rw [hfields]
    simp [CleanOptional]
  · rw [hfields]
    simpa [CleanOptional] using clean_str "success"
  · rw [hfields]
    simp [CleanOptional]
  · rw [hfields]
    show CleanOptional (some (str "trace 1"))
    simpa [CleanOptional] using clean_str "trace 1"
  · rw [hfields]
    show JVal.JsonNative (.obj [(str "identity", .obj [(str "sub", .str (str "7")),
      (str "email", .null), (str "roles", .arr []), (str "org_id", .int 42),
      (str "org_role", .arr []), (str "verified", .bool true)])])
    refine .obj (by decide) ?_ ?_
    · simpa using clean_str "identity"
    · simp only [List.forall_mem_singleton]
      refine .obj (by decide) ?_ ?_
      · simp only [List.forall_mem_cons]
        exact ⟨clean_str _, clean_str _, clean_str _, clean_str _, clean_str _, clean_str _,
          by simp⟩
      · simp only [List.forall_mem_cons]
        exact ⟨.str (clean_str "7"), .null, .arr (by simp), .int 42, .arr (by simp), .bool true,
          by simp⟩

end Sample

/-- The row of the call in task 1 is shown to the organization of its caller, which task 0 has
forgotten by then. -/
theorem audited_call_attributed_member : ∃ s, Reachable SecurityAudit.Sample.istEnv s ∧
    ∃ r ∈ s.auditEvents, r.2.trace_id = some (str "trace 1") ∧ r.2.user_id = some (str "7") ∧
      inScope (some (str "42")) false r.2 = true := by
  obtain ⟨e, stored, hrecorded, -⟩ := @exists_recorded SecurityAudit.Sample.istEnv
    Sample.published [] SecurityAudit.Sample.utcnow (fun _ _ => true) (by decide +kernel)
  have hs : Reachable SecurityAudit.Sample.istEnv _ :=
    (Quiet.handled lenient_everything hrecorded (by decide) (fun _ _ => trivial)
      (fun _ _ _ => trivial) (str "worker-1")).reachableWhen.reachable
  have hentry : Sample.audited.entry = some Sample.published.fields := by
    obtain ⟨fields, hfields⟩ := Option.isSome_iff_exists.mp Sample.isSome_entry
    show Sample.audited.entry = some (Sample.audited.entry.getD [])
    rw [hfields]
    rfl
  have hverifies : Sample.member.Verifies Sample.settings (.ofClaims Sample.settings
      [(str "sub", .str (str "7")), (str "org_id", .int 42)]) :=
    (identity_verifies Sample.identity_member).mp rfl
  have hlast : lastReturned Sample.istProducer [Sample.member] = some Sample.member := rfl
  have hattributed := (audited_call_attributed SecurityAudit.Sample.istEnv Sample.settings
    (fun _ => SecurityAudit.Sample.istText) Sample.acts Sample.audited Sample.mem_audited).2.2 _ hs
    Sample.published (List.mem_singleton.mpr rfl) hentry (fun e he => ?_) _
    (List.mem_singleton.mpr rfl) rfl
  · obtain ⟨-, htrace, huser, hscope⟩ := hattributed
    exact ⟨_, hs, _, List.mem_singleton.mpr rfl, htrace, huser _ _ hlast hverifies,
      (hscope (str "42")).mpr ⟨_, _, hlast, hverifies, rfl⟩⟩
  · obtain ⟨hnative, hservice, htime⟩ := Sample.native_audited he
    refine ⟨by rw [hservice]; decide, hnative, clean_str _, ?_⟩
    rw [htime]
    show (if SecurityAudit.Sample.istText = SecurityAudit.Sample.istText then
      some SecurityAudit.Sample.ist else none) = _
    rw [if_pos rfl]

end Contexts

end SecurityAudit
