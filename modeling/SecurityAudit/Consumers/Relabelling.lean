import SecurityAudit.Audit.Acceptance
import SecurityAudit.Json.Brackets
import SecurityAudit.Worker.Scenarios

/-!
# A signature is of one entry

The signed message is the version, the service and the data, joined by new lines, and nothing
keeps new lines out of the first two. But the service is read out of the data. So two entries
under one signature would be a document and the rest of it from some line on, both of them
objects, and a document has no such rest.
-/

namespace SecurityAudit

/-- One signature under one secret is of one message, where the MAC tells messages apart. -/
theorem Signing.message_of_signAuditEvent {C : Crypto}
    (hinj : ∀ key, Function.Injective (C.hmacSha256 key)) {s₁ s₂ d₁ d₂ sig secret : Str}
    (h₁ : signAuditEvent C s₁ (some d₁) secret = .ok sig)
    (h₂ : signAuditEvent C s₂ (some d₂) secret = .ok sig) :
    s₁ ++ cp '\n' :: d₁ = s₂ ++ cp '\n' :: d₂ := by
  have hsigned : ∀ {s d}, signAuditEvent C s (some d) secret = .ok sig →
      ∃ key message, signingKey C secret = .ok key ∧
        signingMessage supportedVersion s d = .ok message ∧
        sig = supportedVersion ++ cp ':' :: C.hmacSha256 key message := by
    intro s d h
    unfold signAuditEvent at h
    split_ifs at h
    rw [orRaise_some, ok_bind] at h
    obtain ⟨m, hmac, h⟩ := bind_eq_ok.mp h
    obtain ⟨key, hkey, hmac⟩ := bind_eq_ok.mp hmac
    obtain ⟨message, hmessage, hmac⟩ := bind_eq_ok.mp hmac
    refine ⟨key, message, hkey, hmessage, ?_⟩
    rw [← Except.ok.inj h, ← Except.ok.inj hmac]
  obtain ⟨key, m₁, hkey, hm₁, hsig₁⟩ := hsigned h₁
  obtain ⟨key', m₂, hkey', hm₂, hsig₂⟩ := hsigned h₂
  obtain rfl : key = key' := Except.ok.inj (hkey.symm.trans hkey')
  have hmac : C.hmacSha256 key m₁ = C.hmacSha256 key m₂ :=
    (List.cons.inj (List.append_cancel_left (hsig₁.symm.trans hsig₂))).2
  obtain rfl := hinj key hmac
  have htext := encode_inj hm₁ hm₂
  exact (List.cons.inj (List.append_cancel_left htext)).2

/-- The service of an accepted payload is read off the payload. -/
theorem AuditEvent.service_of_validate {parseDatetime : JVal → Option DateTime} {uuid : Str}
    {utcnow : Naive} {payload : List (Str × JVal)} {e : AuditEvent}
    (h : validate parseDatetime uuid utcnow payload = .ok e) :
    field payload "service" required strField = .ok e.service := by
  obtain ⟨f, hf, he⟩ := bind_eq_ok.mp h
  have hservice : e.service = f.service := by rw [validateTenantScope_eq he]
  rw [hservice]
  exact (readFields_eq_ok.mp hf).2.2.1

/-- Of two accepted entries under one signature, the service of one is not the longer one. -/
theorem length_service_le {env : Env} {uuid₁ uuid₂ : Str} {utcnow₁ utcnow₂ : Naive}
    {d₁ d₂ : Str} {e₁ e₂ : AuditEvent}
    (h₁ : parseAuditEvent env uuid₁ utcnow₁ (some d₁) = .ok e₁)
    (h₂ : parseAuditEvent env uuid₂ utcnow₂ (some d₂) = .ok e₂)
    (h : e₁.service ++ cp '\n' :: d₁ = e₂.service ++ cp '\n' :: d₂) :
    e₂.service.length ≤ e₁.service.length := by
  by_contra hlt
  obtain ⟨_, kvs₁, ⟨⟩, hloads₁, hvalid₁⟩ := parseAuditEvent_eq_ok.mp h₁
  obtain ⟨_, kvs₂, ⟨⟩, hloads₂, hvalid₂⟩ := parseAuditEvent_eq_ok.mp h₂
  rcases List.append_eq_append_iff.mp h with ⟨x, hs, hx⟩ | ⟨x, hs, -⟩
  · rcases List.cons_eq_append_iff.mp hx with ⟨rfl, -⟩ | ⟨y, rfl, rfl⟩
    · rw [hs, List.append_nil] at hlt
      exact hlt (le_refl _)
    -- the second service goes on with the first lines of the first document
    obtain rfl := JVal.loads_after_newline hloads₁ hloads₂
    have hservice := (AuditEvent.service_of_validate hvalid₁).symm.trans
      (AuditEvent.service_of_validate hvalid₂)
    rw [Except.ok.inj hservice] at hlt
    exact hlt (le_refl _)
  · rw [hs, List.length_append] at hlt
    omega

/-- **A signature cannot be relabelled.** Two payloads that are accepted, each for the service it
names, under one signature are one payload. -/
theorem signature_not_relabelled (env : Env)
    (hinj : ∀ key, Function.Injective (env.crypto.hmacSha256 key))
    (secret sig d₁ d₂ uuid₁ uuid₂ : Str) (utcnow₁ utcnow₂ : Naive) (e₁ e₂ : AuditEvent)
    (h₁ : parseAuditEvent env uuid₁ utcnow₁ (some d₁) = .ok e₁)
    (h₂ : parseAuditEvent env uuid₂ utcnow₂ (some d₂) = .ok e₂)
    (hvalid₁ : classifyEventIntegrity env.crypto e₁.service (some sig) (some d₁) secret = .valid)
    (hvalid₂ : classifyEventIntegrity env.crypto e₂.service (some sig) (some d₂) secret = .valid) :
    d₁ = d₂ ∧ e₁.service = e₂.service := by
  obtain ⟨_, ⟨⟩, hsign₁⟩ := classifyEventIntegrity_valid hvalid₁
  obtain ⟨_, ⟨⟩, hsign₂⟩ := classifyEventIntegrity_valid hvalid₂
  have hmessage := Signing.message_of_signAuditEvent hinj hsign₁ hsign₂
  have hlength : e₁.service.length = e₂.service.length :=
    le_antisymm (length_service_le h₂ h₁ hmessage.symm) (length_service_le h₁ h₂ hmessage)
  obtain ⟨hservice, hdata⟩ := List.append_inj hmessage hlength
  exact ⟨(List.cons.inj hdata).2, hservice⟩

/-- The payload that names its event, under its own signature. -/
theorem signature_not_relabelled_named : ∃ e : AuditEvent, e.service = str "gateway" ∧
    (Sample.namedData = Sample.namedData ∧ e.service = e.service) := by
  obtain ⟨e, stored, ⟨⟨uuid, utcnow, hparse⟩, -⟩, hchecked⟩ := Sample.recorded_named
  obtain ⟨-, hservice, -⟩ := of_decide_eq_true hchecked
  have hdata : Sample.named.fields.get "data" = some Sample.namedData := by decide +kernel
  have hvalid : classifyEventIntegrity Sample.env.crypto e.service (some Sample.namedSig)
      (some Sample.namedData) Sample.cfg.eventSigningSecret = .valid := by
    rw [hservice]
    decide +kernel
  rw [hdata] at hparse
  exact ⟨e, hservice, signature_not_relabelled Sample.env Sample.crypto_injective _ _ _ _ uuid uuid
    utcnow utcnow e e hparse hparse hvalid hvalid⟩

end SecurityAudit
