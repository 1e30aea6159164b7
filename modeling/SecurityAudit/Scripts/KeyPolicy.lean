import SecurityAudit.Scripts.VerifyIntegrity
import SecurityAudit.Worker.Scenarios

/-!
# The two key policies

The writer takes its key and key id through `require_record_integrity_key`, the verifier puts the
same pair into a keyring in `_resolve_keyring`, perhaps beside a legacy key. The writer does not
know that the verifier reserves a key id, nor that it compares its keys as ASCII text.
`key_policies_agree_iff` says that nothing else can go wrong.
-/

namespace SecurityAudit

namespace VerifyIntegrity

/-- The pair and the legacy key make a keyring in which every row stamped with the key id is
checked with the key, and not with the legacy key. -/
def Resolves (legacy : Option Str) (keyId key : Str) : Prop :=
  ∃ keys, resolveKeyring legacy (some keyId) (some key) = .ok keys ∧
    ∀ r : Record, r.text "integrity_key_id" = some keyId →
      selectedKey r keys = (some key, some keyId) ∧
        ∀ l, legacy = some l → (selectedKey r keys).1 ≠ some l

/-- A key that was set is found under its id. -/
theorem Keyring.get?_set (keys : Keyring) (keyId key : Str) :
    (keys.set keyId key).get? keyId = some key := by
  unfold Keyring.get? Keyring.set
  rw [List.find?_append]
  have hnone : (keys.filter fun k => k.1 ≠ keyId).find? (fun k => k.1 = keyId) = none := by
    rw [List.find?_eq_none]
    intro k hk
    simpa using (List.mem_filter.mp hk).2
  rw [hnone]
  simp

/-- A key of any other id stays what it was. -/
theorem selectedKey_set {keys : Keyring} {keyId key : Str} {r : Record}
    (hr : r.text "integrity_key_id" = some keyId) :
    selectedKey r (keys.set keyId key) = (some key, some keyId) := by
  unfold selectedKey
  rw [hr]
  dsimp only
  rw [Keyring.get?_set]

section

variable {cfg : AuditConfig} {key keyId : Str} {legacy : Option Str}

theorem nonempty_some {s : Str} (h : s ≠ []) : nonempty (some s) = some s := by
  simp [nonempty, Option.filter, h]

/-- The keyrings the verifier makes of a pair the writer accepts. -/
theorem resolveKeyring_eq_ok {keys : Keyring}
    (h : cfg.requireRecordIntegrityKey = .ok (key, keyId)) :
    resolveKeyring legacy (some keyId) (some key) = .ok keys ↔
      keyId ≠ legacyKeyId ∧
        ((nonempty legacy = none ∧ keys = Keyring.set [] keyId key) ∨
          ∃ l, nonempty legacy = some l ∧ compareDigest l key = .ok false ∧
            keys = Keyring.set [(legacyKeyId, l)] keyId key) := by
  obtain ⟨-, -, hformat, -, bytes, hbytes, hsize⟩ := AuditConfig.requireRecordIntegrityKey_spec h
  have hkey : key ≠ [] := by
    rintro rfl
    cases hbytes
    revert hsize
    decide
  have hkeyId : keyId ≠ [] := by
    rintro rfl
    revert hformat
    decide
  have hpolicy : ¬(bytes.size < 32 ∨ AuditConfig.keyIdFormat keyId = false) := by
    rw [hformat]
    simp
    omega
  unfold resolveKeyring
  simp only [nonempty_some hkey, nonempty_some hkeyId, hbytes, uncaught, ok_bind, if_neg hpolicy]
  by_cases hid : keyId = legacyKeyId
  · simp [hid]
  rw [if_neg hid]
  cases hlegacy : nonempty legacy with
  | none => simp [hid, eq_comm]
  | some l =>
    dsimp only
    cases hsame : compareDigest l key with
    | error e => simp [hid, hsame, bind, Except.bind]
    | ok same =>
      cases same
      · simp [hid, hsame]
        exact eq_comm
      · simp [hid, hsame]

/-- **The writer and the verifier agree on a pair the writer accepts exactly if its key id is not
the reserved one and, beside a legacy key, both keys are ASCII text.** -/
theorem key_policies_agree_iff (h : cfg.requireRecordIntegrityKey = .ok (key, keyId))
    (hlegacy : legacy ≠ some key) :
    Resolves legacy keyId key ↔
      keyId ≠ legacyKeyId ∧
        ∀ l, nonempty legacy = some l → isAscii l = true ∧ isAscii key = true := by
  constructor
  · rintro ⟨keys, hkeys, -⟩
    obtain ⟨hid, ⟨hnone, -⟩ | ⟨l, hl, hsame, -⟩⟩ := (resolveKeyring_eq_ok h).mp hkeys
    · refine ⟨hid, fun l hl => ?_⟩
      rw [hnone] at hl
      cases hl
    · refine ⟨hid, fun l' hl' => ?_⟩
      obtain rfl : l = l' := Option.some.inj (hl.symm.trans hl')
      exact (compareDigest_ok hsame).1
  · rintro ⟨hid, hascii⟩
    -- whatever keyring it is, the key was set last
    suffices hkeys : ∃ ring : Keyring,
        resolveKeyring legacy (some keyId) (some key) = .ok (ring.set keyId key) by
      obtain ⟨ring, hring⟩ := hkeys
      refine ⟨_, hring, fun r hr => ⟨selectedKey_set hr, fun l hl => ?_⟩⟩
      rw [selectedKey_set hr]
      exact fun heq => hlegacy (hl.trans heq.symm)
    cases hnonempty : nonempty legacy with
    | none => exact ⟨[], (resolveKeyring_eq_ok h).mpr ⟨hid, .inl ⟨hnonempty, rfl⟩⟩⟩
    | some l =>
      refine ⟨[(legacyKeyId, l)], (resolveKeyring_eq_ok h).mpr
        ⟨hid, .inr ⟨l, hnonempty, ?_, rfl⟩⟩⟩
      have hl : legacy = some l := (Option.filter_eq_some_iff.mp hnonempty).1
      have hne : l ≠ key := fun heq => hlegacy (hl.trans (congrArg some heq))
      rw [compareDigest, if_pos (hascii l hnonempty), decide_eq_false hne]

end

/-- The default configuration beside a retired key. -/
theorem key_policies_agree_iff_retired :
    Resolves (some (str "change-me")) (str "2026-01") (str "0123456789abcdef0123456789abcdef") := by
  refine (@key_policies_agree_iff Sample.cfg _ _ _ ?_ ?_).mpr ⟨?_, ?_⟩
  · decide +kernel
  · decide +kernel
  · decide +kernel
  · intro l hl
    have hretired : nonempty (some (str "change-me")) = some (str "change-me") :=
      nonempty_some (by decide +kernel)
    rw [hretired] at hl
    cases hl
    decide +kernel

/-- The writer takes the key id `__legacy__`, and the verifier refuses to start with it. -/
theorem reserved_key_id_refused : ¬∀ (cfg : AuditConfig) (key keyId : Str) (legacy : Option Str),
    cfg.requireRecordIntegrityKey = .ok (key, keyId) → legacy ≠ some key →
      Resolves legacy keyId key := by
  intro h
  have haccepted : ({ Sample.cfg with recordIntegrityKeyId := some (str "__legacy__") } :
      AuditConfig).requireRecordIntegrityKey =
        .ok (str "0123456789abcdef0123456789abcdef", str "__legacy__") := by decide +kernel
  obtain ⟨keys, hkeys, -⟩ := h _ _ _ none haccepted (by simp)
  have hrefused : resolveKeyring none (some (str "__legacy__"))
      (some (str "0123456789abcdef0123456789abcdef")) = .error (.exit 1) := by decide +kernel
  rw [hrefused] at hkeys
  cases hkeys

end VerifyIntegrity

end SecurityAudit
