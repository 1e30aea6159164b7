import SecurityAudit.Audit.Signing

/-!
# Configuration: `audit/config.py`

The settings the modelled code reads, and the check every writer makes before it hashes a
row. A writer gets its key from nowhere else, so `requireRecordIntegrityKey_spec` is what
the rest of the development knows about keys.
-/

namespace SecurityAudit

/-- `AuditConfig`. Times are in milliseconds. -/
structure AuditConfig where
  streamName : Str
  eventSigningSecret : Str
  recordIntegrityKey : Option Str
  recordIntegrityKeyId : Option Str
  pelMinIdleMs : ℤ
  pelMaxDeliveries : ℤ
  pelSweepBatch : ℕ
  workerAutoRecreateStreamOnNogroup : Bool
  workerNogroupRetryBackoffMs : ℕ

namespace AuditConfig

/-- `[A-Za-z0-9._-]`. -/
def isKeyIdChar (c : CodePoint) : Bool :=
  decide ((65 ≤ c.val ∧ c.val ≤ 90) ∨ (97 ≤ c.val ∧ c.val ≤ 122)) || isDigit c ||
    decide (c = cp '.' ∨ c = cp '_' ∨ c = cp '-')

/-- `re.fullmatch(r"[A-Za-z0-9._-]{1,64}", key_id)`. -/
def keyIdFormat (keyId : Str) : Bool :=
  decide (1 ≤ keyId.length ∧ keyId.length ≤ 64) && keyId.all isKeyIdChar

/-- `require_record_integrity_key`. -/
def requireRecordIntegrityKey (cfg : AuditConfig) : Except Exc (Str × Str) := do
  let key ← orRaise .runtimeError cfg.recordIntegrityKey
  let keyId ← orRaise .runtimeError cfg.recordIntegrityKeyId
  if key = [] ∨ keyId = [] then .error .runtimeError
  else
    let bytes ← encode key
    if bytes.size < 32 then .error .runtimeError
    else if keyIdFormat keyId = false then .error .runtimeError
    else if cfg.eventSigningSecret = [] then .ok (key, keyId)
    else
      let same ← compareDigest key cfg.eventSigningSecret
      if same = true then .error .runtimeError else .ok (key, keyId)

/-- What a writer knows of its key and key id. -/
theorem requireRecordIntegrityKey_spec {cfg : AuditConfig} {key keyId : Str}
    (h : cfg.requireRecordIntegrityKey = .ok (key, keyId)) :
    cfg.recordIntegrityKey = some key ∧ cfg.recordIntegrityKeyId = some keyId ∧
      keyIdFormat keyId = true ∧ key ≠ cfg.eventSigningSecret ∧
      ∃ bytes, encode key = .ok bytes ∧ 32 ≤ bytes.size := by
  obtain ⟨k, hk, h⟩ := bind_eq_ok.mp h
  obtain ⟨i, hi, h⟩ := bind_eq_ok.mp h
  rw [orRaise_eq_ok] at hk hi
  obtain ⟨hne, h⟩ := guard_eq_ok.mp h
  obtain ⟨bytes, hbytes, h⟩ := bind_eq_ok.mp h
  obtain ⟨hsize, h⟩ := guard_eq_ok.mp h
  obtain ⟨hformat, h⟩ := guard_eq_ok.mp h
  rw [not_or] at hne
  suffices H : (k, i) = (key, keyId) ∧ k ≠ cfg.eventSigningSecret by
    obtain ⟨heq, hsecret⟩ := H
    cases heq
    exact ⟨hk, hi, by simpa using hformat, hsecret, bytes, hbytes, by omega⟩
  by_cases hsecret : cfg.eventSigningSecret = []
  · rw [if_pos hsecret] at h
    exact ⟨Except.ok.inj h, fun he => hne.1 (he.trans hsecret)⟩
  · rw [if_neg hsecret] at h
    obtain ⟨same, hsame, h⟩ := bind_eq_ok.mp h
    obtain ⟨hs, h⟩ := guard_eq_ok.mp h
    refine ⟨Except.ok.inj h, fun he => hs ?_⟩
    rw [he] at hsame
    obtain ⟨-, hsame⟩ := compareDigest_ok hsame
    simpa using hsame

end AuditConfig

end SecurityAudit
