import SecurityAudit.Audit.JwtVerify
import SecurityAudit.Audit.Models

/-!
# The audit context: `audit/contexts.py`, `audit/identity.py`, `audit/decorators.py`

`inject_context` sets three variables one after the other, with the verification of the token
between the first and the other two. `validate_identity_token` turns a `TokenInvalid` into
`None` and lets everything else out. Where nothing else comes out, the three variables and every
event built from them belong to the call. Where something does, the call raises with its own
trace id set beside the user and the identity of the call before.
-/

namespace SecurityAudit

namespace Contexts

open JwtVerify

/-- `VerifiedIdentity`. -/
structure VerifiedIdentity where
  sub : Str
  email : JVal
  roles : JVal
  org_id : JVal
  org_role : JVal

/-- `context` variables of `audit/context.py`. -/
structure ContextVars where
  trace_id : Option Str
  user_id : Option Str
  identity : Option VerifiedIdentity

/-- A call `inject_context(user_id, token)`: its arguments, the `uuid4` it draws, and what its
verification of the token meets. -/
structure InjectCall where
  user_id : Option Str
  token : Option Str
  trace_id : Str
  outside : Outside

section Model

variable (S : Settings)

/-- `payload.get(name) or []`. -/
def orEmpty (v : JVal) : JVal := if v.truthy = true then v else .arr []

/-- The identity the claims of a verified payload name. -/
def VerifiedIdentity.ofClaims (payload : Claims) : VerifiedIdentity where
  sub := (payload.get "sub").shown S.repr
  email := payload.get "email"
  roles := orEmpty (payload.get "roles")
  org_id := payload.get "org_id"
  org_role := orEmpty (payload.get "org_role")

/-- `as_context`. -/
def VerifiedIdentity.asContext (i : VerifiedIdentity) : List (Str × JVal) :=
  [(str "identity", .obj [
    (str "sub", .str i.sub),
    (str "email", i.email),
    (str "roles", i.roles),
    (str "org_id", i.org_id),
    (str "org_role", i.org_role),
    (str "verified", .bool true)])]

/-- `validate_identity_token`. -/
def validateIdentityToken (token : Option Str) : Prog jwtSig (Option VerifiedIdentity) := do
  match ← (verifyToken S token).attempt with
  | .error (.tokenInvalid _) => return none
  | .error e => .raise e
  | .ok payload => return some (.ofClaims S payload)

/-- `validate_identity_token(token) if token else None`. -/
def InjectCall.identity (call : InjectCall) : Except Raised (Option VerifiedIdentity) :=
  if call.token.getD [] = [] then .ok none
  else (validateIdentityToken S call.token).eval call.outside.answer

/-- `inject_context`: how the call ends, and the variables after it. -/
def injectContext (call : InjectCall) (vars : ContextVars) : Except Raised Str × ContextVars :=
  let vars := { vars with trace_id := some call.trace_id }
  match call.identity S with
  | .error e => (.error e, vars)
  | .ok (some i) =>
    (.ok call.trace_id, { vars with user_id := some i.sub, identity := some i })
  | .ok none => (.ok call.trace_id, { vars with user_id := call.user_id, identity := none })

/-- A call of a sequence, how it ended, and the variables after it. -/
structure InjectStep where
  call : InjectCall
  outcome : Except Raised Str
  vars : ContextVars

/-- A sequence of calls in one execution context. One that raises leaves the variables as they
are at that point, and whatever caught it goes on. -/
def injectAll : ContextVars → List InjectCall → List InjectStep
  | _, [] => []
  | vars, call :: calls =>
    let (outcome, vars) := injectContext S call vars
    ⟨call, outcome, vars⟩ :: injectAll vars calls

/-- What `@audit(event_type, action)` brings to an event, with the values of its default
factories. -/
structure Decoration where
  service : Str
  event_type : Str
  action : Str
  event_id : Str
  timestamp : DateTime

/-- The organization the identity is of. -/
def VerifiedIdentity.organization (i : VerifiedIdentity) : Option Str :=
  if i.org_id.isNull = true then none else some (i.org_id.shown S.repr)

/-- `AuditEvent(...)` in the wrapper of `@audit`. -/
def auditEvent (D : Decoration) (vars : ContextVars) : Except Exc AuditEvent :=
  AuditEvent.validateTenantScope {
    event_id := D.event_id
    timestamp := D.timestamp
    service := D.service
    event_type := D.event_type
    user_id := vars.user_id
    organization_id := vars.identity.bind fun i => i.organization S
    tenant_scope :=
      if (vars.identity.bind fun i => i.organization S).isSome = true then .organization
      else .unknown
    action := D.action
    resource := none
    decision := some (str "success")
    reason := none
    trace_id := vars.trace_id
    context := vars.identity.elim [] VerifiedIdentity.asContext }

end Model

/-! ## What the context should be -/

variable (S : Settings)

/-- The token of the call is a valid one, and the identity is what its claims name. -/
def InjectCall.Verifies (call : InjectCall) (i : VerifiedIdentity) : Prop :=
  ∃ t payload, call.token = some t ∧ Valid S call.outside t payload ∧ i = .ofClaims S payload

/-- All three variables are those of the call. -/
structure BelongsTo (call : InjectCall) (vars : ContextVars) : Prop where
  trace_id : vars.trace_id = some call.trace_id
  identity : ∀ i, vars.identity = some i ↔ call.Verifies S i
  user_id : vars.user_id = (vars.identity.map VerifiedIdentity.sub).or call.user_id

/-- The event carries the trace id of the call, and no identity that is not its own. -/
structure EventOf (call : InjectCall) (e : AuditEvent) : Prop where
  trace_id : e.trace_id = some call.trace_id
  verified : ∀ i, call.Verifies S i →
    e.user_id = some i.sub ∧ e.context = i.asContext ∧ e.organization_id = i.organization S
  unverified : (∀ i, ¬call.Verifies S i) →
    e.user_id = call.user_id ∧ e.context = [] ∧ e.organization_id = none

/-- The step returned its trace id, and left the call's own context. -/
structure InjectStep.Switched (step : InjectStep) : Prop where
  returned : step.outcome = .ok step.call.trace_id
  vars : BelongsTo S step.call step.vars
  event : ∀ D e, auditEvent S D step.vars = .ok e → EventOf S step.call e

/-- What `_decode` handles, or raises itself. -/
def Handled : Raised → Prop
  | .tokenInvalid _ | .expiredSignature _ | .invalidToken _ => True
  | _ => False

/-- PyJWT fails on the token, if at all, with an `InvalidTokenError`: when it reads the header,
and when it decodes the token with its own key. -/
structure InjectCall.FailsHandled (call : InjectCall) : Prop where
  header : ∀ t, call.token = some t → t ≠ [] → ∀ e, call.outside.header t = .error e → Handled e
  decode : ∀ t, call.token = some t → t ≠ [] → ∀ key alg, OwnKey S call.outside t key alg →
    ∀ e, call.outside.jwtDecode t key alg = .error e → Handled e

/-! ## What comes out of the verification -/

/-- Nothing but a `TokenInvalid` comes out. -/
def OnlyInvalid {α : Type} (x : Except Raised α) : Prop :=
  ∀ e, x = .error e → ∃ m, e = .tokenInvalid m

theorem onlyInvalid_ok {α : Type} (a : α) : OnlyInvalid (.ok a) := by
  intro e h
  cases h

theorem onlyInvalid_invalid {α : Type} {env : (c : JwtCall) → jwtSig.Answer c} (message : Str) :
    OnlyInvalid ((invalid message : Prog jwtSig α).eval env) := by
  intro e h
  exact ⟨message, (Except.error.inj h).symm⟩

variable {S} {O : Outside} {env : (c : JwtCall) → jwtSig.Answer c} {t : Str} {key : Key}
  {alg : Alg}

/-- An exception comes out as a `TokenInvalid` or as itself, by what the handlers name. -/
theorem onlyInvalid_decodeWith :
    OnlyInvalid ((decodeWith S t key alg).eval env) ↔
      ∀ e, env (.decode t key alg) = .error e → Handled e := by
  unfold decodeWith
  rw [Prog.eval_attempt_bind, Prog.eval_bind, Prog.eval_perform]
  cases env (.decode t key alg) with
  | error e => cases e <;> simp [OnlyInvalid, invalid, Handled, bind, Except.bind]
  | ok payload =>
    refine iff_of_true ?_ (fun e h => by cases h)
    rw [ok_bind]
    unfold validatePlatformClaims
    split_ifs
    · exact onlyInvalid_invalid _
    · exact onlyInvalid_invalid _
    · exact onlyInvalid_ok _

theorem onlyInvalid_decode :
    OnlyInvalid ((decode S t).eval O.answer) ↔
      (∀ e, O.header t = .error e → Handled e) ∧
        ∀ key alg, OwnKey S O t key alg → ∀ e, O.jwtDecode t key alg = .error e → Handled e := by
  unfold decode
  rw [Prog.eval_attempt_bind, Prog.eval_perform, O.answer_header]
  cases hheader : O.header t with
  | error e =>
    have hnone : ∀ key alg, ¬OwnKey S O t key alg := by
      rintro key alg ⟨header, hok, -⟩
      rw [hheader] at hok
      cases hok
    cases e <;> simp [OnlyInvalid, invalid, Handled, hnone]
  | ok header =>
    rw [and_iff_right (by simp)]
    dsimp only
    split_ifs with hrs hkid hhs
    · -- RS256 without a key id
      have hown : ∀ key alg, OwnKey S O t key alg ↔ _ := fun key alg =>
        ownKey_rs256 hheader (JVal.isText_iff.mp hrs)
      exact iff_of_true (onlyInvalid_invalid _) (by simp [hown, hkid])
    · have hown : ∀ key alg, OwnKey S O t key alg ↔ _ := fun key alg =>
        ownKey_rs256 hheader (JVal.isText_iff.mp hrs)
      rw [Prog.eval_attempt_bind, Prog.eval_perform, O.answer_signingKey]
      cases hkey : O.jwks (header.get "kid") with
      | error e =>
        refine iff_of_true ?_ (by simp [hown, hkey])
        cases e <;> exact onlyInvalid_invalid _
      | ok n =>
        refine onlyInvalid_decodeWith.trans ?_
        constructor
        · intro h key alg hkeys
          obtain ⟨rfl, -, n', hn', rfl⟩ := (hown key alg).mp hkeys
          obtain rfl : n = n' := Except.ok.inj (hkey.symm.trans hn')
          exact h
        · intro h
          exact h _ _ ((hown _ _).mpr ⟨rfl, by simpa using hkid, n, hkey, rfl⟩)
    · have hown : ∀ key alg, OwnKey S O t key alg ↔ _ := fun key alg =>
        ownKey_hs256 hheader (JVal.isText_iff.mp hhs)
      refine onlyInvalid_decodeWith.trans ?_
      constructor
      · intro h key alg hkeys
        obtain ⟨rfl, rfl⟩ := (hown key alg).mp hkeys
        exact h
      · intro h
        exact h _ _ ((hown _ _).mpr ⟨rfl, rfl⟩)
    · -- any other algorithm
      refine iff_of_true (onlyInvalid_invalid _) ?_
      rintro key alg ⟨header', hheader', halg, -⟩
      obtain rfl : header = header' := Except.ok.inj (hheader.symm.trans hheader')
      cases alg
      · exact absurd (JVal.isText_iff.mpr halg) hhs
      · exact absurd (JVal.isText_iff.mpr halg) hrs

/-- What follows the decoding raises nothing else. -/
theorem onlyInvalid_verifyToken (ht : t ≠ []) :
    OnlyInvalid ((verifyToken S (some t)).eval O.answer) ↔
      OnlyInvalid ((decode S t).eval O.answer) := by
  unfold verifyToken
  rw [Option.getD_some, if_neg ht, Prog.eval_bind]
  cases (decode S t).eval O.answer with
  | error e => exact Iff.rfl
  | ok payload =>
    refine iff_of_true ?_ (onlyInvalid_ok payload)
    rw [ok_bind]
    split_ifs
    · exact onlyInvalid_invalid _
    · exact onlyInvalid_invalid _
    · exact onlyInvalid_ok _
    · rw [Prog.eval_attempt_bind, Prog.eval_perform, O.answer_revoked]
      rcases O.revoked _ with e | revoked
      · exact onlyInvalid_invalid _
      · cases revoked
        · exact onlyInvalid_ok _
        · exact onlyInvalid_invalid _

/-! ## One call -/

variable {call : InjectCall} {vars : ContextVars} {i : VerifiedIdentity}

/-- A verification that returned says whether the token is valid, and whose it is. -/
theorem eval_validateIdentityToken {identity : Option VerifiedIdentity}
    (h : (validateIdentityToken S (some t)).eval O.answer = .ok identity) :
    identity = some i ↔ ∃ payload, Valid S O t payload ∧ i = .ofClaims S payload := by
  unfold validateIdentityToken at h
  rw [Prog.eval_attempt_bind] at h
  simp only [← eval_verifyToken_iff]
  cases hverify : (verifyToken S (some t)).eval O.answer with
  | error e =>
    rw [hverify] at h
    cases e <;> simp at h ⊢
    exact fun hi => by cases h; cases hi
  | ok payload =>
    rw [hverify] at h
    obtain rfl := Except.ok.inj h
    simp [eq_comm]

theorem validateIdentityToken_returns :
    (∃ identity, (validateIdentityToken S (some t)).eval O.answer = .ok identity) ↔
      OnlyInvalid ((verifyToken S (some t)).eval O.answer) := by
  unfold validateIdentityToken
  rw [Prog.eval_attempt_bind]
  cases (verifyToken S (some t)).eval O.answer with
  | error e => cases e <;> simp [OnlyInvalid]
  | ok payload => exact iff_of_true ⟨_, rfl⟩ (onlyInvalid_ok payload)

/-- The verification in a call returns exactly if PyJWT fails in no other way. -/
theorem identity_returns :
    (∃ identity, call.identity S = .ok identity) ↔ call.FailsHandled S := by
  unfold InjectCall.identity
  by_cases hempty : call.token.getD [] = []
  · rw [if_pos hempty]
    have hnone : ∀ t, call.token = some t → ¬t ≠ [] := by
      intro t ht hne
      rw [ht] at hempty
      exact hne hempty
    exact iff_of_true ⟨none, rfl⟩
      ⟨fun t ht hne => absurd hne (hnone t ht), fun t ht hne => absurd hne (hnone t ht)⟩
  · rw [if_neg hempty]
    cases htoken : call.token with
    | none =>
      rw [htoken] at hempty
      exact absurd rfl hempty
    | some t =>
      have hne : t ≠ [] := by simpa [htoken] using hempty
      rw [validateIdentityToken_returns, onlyInvalid_verifyToken hne, onlyInvalid_decode]
      constructor
      · rintro ⟨hheader, hdecode⟩
        constructor
        · rintro t' ht' -
          obtain rfl : t = t' := Option.some.inj (htoken.symm.trans ht')
          exact hheader
        · rintro t' ht' -
          obtain rfl : t = t' := Option.some.inj (htoken.symm.trans ht')
          exact hdecode
      · intro h
        exact ⟨h.header t htoken hne, h.decode t htoken hne⟩

theorem identity_verifies {identity : Option VerifiedIdentity}
    (h : call.identity S = .ok identity) : identity = some i ↔ call.Verifies S i := by
  unfold InjectCall.identity at h
  by_cases hempty : call.token.getD [] = []
  · rw [if_pos hempty] at h
    rw [← Except.ok.inj h]
    refine iff_of_false (by simp) ?_
    rintro ⟨t, payload, ht, hvalid, -⟩
    rw [ht] at hempty
    exact hvalid.nonempty hempty
  · rw [if_neg hempty] at h
    cases htoken : call.token with
    | none =>
      rw [htoken] at hempty
      exact absurd rfl hempty
    | some t =>
      rw [htoken] at h
      rw [eval_validateIdentityToken h]
      simp [InjectCall.Verifies, htoken]

theorem injectContext_of_ok {identity : Option VerifiedIdentity}
    (h : call.identity S = .ok identity) :
    injectContext S call vars = (.ok call.trace_id,
      ⟨some call.trace_id, (identity.map VerifiedIdentity.sub).or call.user_id, identity⟩) := by
  unfold injectContext
  rw [h]
  cases identity <;> rfl

/-- A call that raises has set its trace id, and nothing else. -/
theorem injectContext_of_error {e : Raised} (h : call.identity S = .error e) :
    injectContext S call vars = (.error e, { vars with trace_id := some call.trace_id }) := by
  unfold injectContext
  rw [h]

/-- The scope the wrapper gives always agrees with the organization. -/
theorem exists_auditEvent (S : Settings) (D : Decoration) (vars : ContextVars) :
    ∃ e, auditEvent S D vars = .ok e := by
  unfold auditEvent AuditEvent.validateTenantScope
  cases vars.identity.bind fun i => i.organization S with
  | none => exact ⟨_, rfl⟩
  | some organization => exact ⟨_, rfl⟩

/-- An event built from the call's context is the call's. -/
theorem BelongsTo.eventOf {D : Decoration} {e : AuditEvent} (h : BelongsTo S call vars)
    (he : auditEvent S D vars = .ok e) : EventOf S call e := by
  have hfields := AuditEvent.validateTenantScope_eq he
  have huser : e.user_id = vars.user_id := by rw [hfields]
  have horganization : e.organization_id = vars.identity.bind fun i => i.organization S := by
    rw [hfields]
  have hcontext : e.context = vars.identity.elim [] VerifiedIdentity.asContext := by rw [hfields]
  constructor
  · rw [hfields]
    exact h.trace_id
  · intro i hi
    have hidentity := (h.identity i).mpr hi
    rw [huser, hcontext, horganization, h.user_id, hidentity]
    exact ⟨rfl, rfl, rfl⟩
  · intro hnone
    have hidentity : vars.identity = none :=
      Option.eq_none_iff_forall_ne_some.mpr fun i hi => hnone i ((h.identity i).mp hi)
    rw [huser, hcontext, horganization, h.user_id, hidentity]
    exact ⟨rfl, rfl, rfl⟩

/-- A call switches the context as a whole exactly if PyJWT fails in no other way. -/
theorem switched_iff :
    InjectStep.Switched S
        ⟨call, (injectContext S call vars).1, (injectContext S call vars).2⟩ ↔
      call.FailsHandled S := by
  rw [← identity_returns]
  cases hidentity : call.identity S with
  | error e =>
    refine iff_of_false ?_ (by simp)
    intro h
    have hreturned := h.returned
    rw [injectContext_of_error hidentity] at hreturned
    cases hreturned
  | ok identity =>
    refine iff_of_true ?_ ⟨identity, rfl⟩
    rw [injectContext_of_ok hidentity]
    have hbelongs : BelongsTo S call
        ⟨some call.trace_id, (identity.map VerifiedIdentity.sub).or call.user_id, identity⟩ :=
      ⟨rfl, fun i => identity_verifies hidentity, rfl⟩
    exact ⟨rfl, hbelongs, fun D e he => hbelongs.eventOf he⟩

/-! ## Every call of a sequence -/

/-- **The audit context is switched as a whole by every call of every sequence** exactly if PyJWT
never fails on a token with anything but an `InvalidTokenError`. -/
theorem inject_context_iff (S : Settings) (vars : ContextVars) (calls : List InjectCall) :
    (∀ step ∈ injectAll S vars calls, step.Switched S) ↔ ∀ call ∈ calls, call.FailsHandled S := by
  induction calls generalizing vars with
  | nil => simp [injectAll]
  | cons call calls ih =>
    rw [injectAll, List.forall_mem_cons, List.forall_mem_cons, ih]
    exact and_congr_left' switched_iff

namespace Sample

def settings : Settings := ⟨str "secret", str "issuer", str "audience", fun _ => []⟩

/-- A token of user 7, which verifies. -/
def verified : InjectCall where
  user_id := none
  token := some (str "token of 7")
  trace_id := str "trace 1"
  outside := {
    header := fun _ => .ok [(str "alg", .str (str "HS256"))]
    jwks := fun _ => .error (.jwksClient (str "no key"))
    verifies := fun _ _ _ => true
    claims := fun _ => [(str "sub", .str (str "7"))]
    registered := fun _ => true
    failure := fun _ _ _ => .invalidToken (str "Signature verification failed")
    revoked := fun _ => .ok false }

/-- A token whose key id names a key of the wrong kind. -/
def wrongKind : InjectCall where
  user_id := some (str "8")
  token := some (str "token of 8")
  trace_id := str "trace 2"
  outside := {
    header := fun _ => .ok [(str "alg", .str (str "RS256")), (str "kid", .str (str "k"))]
    jwks := fun _ => .ok 0
    verifies := fun _ _ _ => false
    claims := fun _ => [(str "sub", .str (str "8"))]
    registered := fun _ => true
    failure := fun _ _ _ => .other (str "Expecting a PEM-formatted or RSA key.")
    revoked := fun _ => .ok false }

def decoration : Decoration :=
  ⟨str "svc", str "run", str "start", str "evt-1", .naive ⟨63902822401000000, by decide⟩⟩

end Sample

/-- The second call raises, and an event then has its trace id with the user of the first. -/
theorem inject_context_half_switched :
    ¬(∀ step ∈ injectAll Sample.settings ⟨none, none, none⟩ [Sample.verified, Sample.wrongKind],
      step.Switched Sample.settings) ∧
      ∃ step ∈ injectAll Sample.settings ⟨none, none, none⟩ [Sample.verified, Sample.wrongKind],
        step.call = Sample.wrongKind ∧
        ∃ e, auditEvent Sample.settings Sample.decoration step.vars = .ok e ∧
          e.trace_id = some (str "trace 2") ∧ e.user_id = some (str "7") := by
  have hverified : Sample.verified.identity Sample.settings =
      .ok (some (.ofClaims Sample.settings [(str "sub", .str (str "7"))])) := rfl
  have hwrong : Sample.wrongKind.identity Sample.settings =
      .error (.other (str "Expecting a PEM-formatted or RSA key.")) := rfl
  have hmem : ⟨Sample.wrongKind, .error (.other (str "Expecting a PEM-formatted or RSA key.")),
      some (str "trace 2"), some (str "7"),
        some (.ofClaims Sample.settings [(str "sub", .str (str "7"))])⟩ ∈
      injectAll Sample.settings ⟨none, none, none⟩ [Sample.verified, Sample.wrongKind] := by
    simp only [injectAll, injectContext_of_ok hverified, injectContext_of_error hwrong]
    exact List.mem_cons_of_mem _ List.mem_cons_self
  constructor
  · intro h
    have hreturned := (h _ hmem).returned
    cases hreturned
  · exact ⟨_, hmem, rfl, _, rfl, rfl, rfl⟩

end Contexts

end SecurityAudit
