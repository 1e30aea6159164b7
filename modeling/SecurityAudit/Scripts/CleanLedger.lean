import SecurityAudit.Scripts.VerifyIntegrity
import SecurityAudit.Worker.Scenarios

/-!
# What a report says of the ledger

The report is clean just where every row passes on its own and no identifier repeats. That
needs every row to have a verdict, which it has unless its stored hash holds something that a
hash never is: the comparison with a text outside ASCII raises, outside the `try` of the
verifying functions, and takes the whole pass with it.
-/

namespace SecurityAudit

open RecordIntegrity

namespace VerifyIntegrity

variable {T : Table} {keys : Keyring} {seen : List (Option Str)} {r : Record} {rows : List Record}
  {stats : Stats}

/-! ## The specification of one row and of a table -/

/-- The row has a hash, and it verifies under the key its own key id selects. -/
def Verifies (T : Table) (keys : Keyring) (r : Record) : Prop :=
  ∃ stored secret, r.storedHash = some stored ∧ stored ≠ [] ∧
    (selectedKey r keys).1 = some secret ∧
    T.verify r secret (selectedKey r keys).2 = .ok true

/-- No required column is empty. -/
def Complete (T : Table) (r : Record) : Prop :=
  ∀ field ∈ T.required, missing (r.get field) = false

/-- Every row verifies and is complete, and no identifier repeats. -/
structure CleanTable (T : Table) (keys : Keyring) (rows : List Record) : Prop where
  verifies : ∀ r ∈ rows, Verifies T keys r
  complete : ∀ r ∈ rows, Complete T r
  distinct : (rows.map fun r => r.text T.idColumn).Nodup

/-- Every row has exactly one verdict and is counted under it, and the counts add up. -/
structure Tallied (T : Table) (keys : Keyring) (rows : List Record) (stats : Stats) : Prop where
  once : ∀ r ∈ rows, ∃! v, verdict T keys r = .ok v
  checked : stats.checked = rows.length
  total : stats.checked =
    stats.valid + stats.invalid.length + stats.unverifiable.length + stats.no_baseline
  valid : stats.valid = (withVerdict T keys .valid rows).length
  invalid : stats.invalid =
    (withVerdict T keys .invalid rows).map fun r => r.text T.idColumn
  unverifiable : stats.unverifiable =
    (withVerdict T keys .unverifiable rows).map fun r => r.text T.idColumn
  no_baseline : stats.no_baseline = (withVerdict T keys .noBaseline rows).length

theorem nonempty_eq_some {s : Option Str} {t : Str} : nonempty s = some t ↔ s = some t ∧ t ≠ [] := by
  simp [nonempty, Option.filter_eq_some_iff]

theorem verdict_eq_valid : verdict T keys r = .ok .valid ↔ Verifies T keys r := by
  unfold verdict Verifies
  cases hhash : nonempty r.storedHash with
  | none =>
    refine ⟨fun h => ?_, fun ⟨stored, _, hstored, hne, _⟩ => ?_⟩
    · cases h
    · rw [nonempty_eq_some.mpr ⟨hstored, hne⟩] at hhash
      cases hhash
  | some stored =>
    obtain ⟨hstored, hne⟩ := nonempty_eq_some.mp hhash
    obtain ⟨⟨key, keyId⟩, hselected⟩ : ∃ k, selectedKey r keys = k := ⟨_, rfl⟩
    rw [hselected]
    cases key with
    | none =>
      refine ⟨fun h => ?_, fun ⟨_, _, _, _, hkey, _⟩ => ?_⟩
      · cases Except.ok.inj h
      · cases hkey
    | some secret =>
      constructor
      · intro h
        obtain ⟨verified, hverify, heq⟩ := map_eq_ok.mp h
        cases verified with
        | false => cases heq
        | true => exact ⟨stored, secret, hstored, hne, rfl, hverify⟩
      · rintro ⟨_, _, -, -, hkey, hverify⟩
        obtain rfl := Option.some.inj hkey
        exact map_eq_ok.mpr ⟨true, hverify, rfl⟩

/-- A row has a verdict unless the comparison its hash calls for fails. -/
theorem verdict_isOk : (∃ v, verdict T keys r = .ok v) ↔
    ∀ stored secret, r.storedHash = some stored → stored ≠ [] →
      (selectedKey r keys).1 = some secret →
      ∃ b, T.verify r secret (selectedKey r keys).2 = .ok b := by
  unfold verdict
  cases hhash : nonempty r.storedHash with
  | none =>
    refine ⟨fun _ stored _ hstored hne => ?_, fun _ => ⟨_, rfl⟩⟩
    rw [nonempty_eq_some.mpr ⟨hstored, hne⟩] at hhash
    cases hhash
  | some stored =>
    obtain ⟨hstored, hne⟩ := nonempty_eq_some.mp hhash
    obtain ⟨⟨key, keyId⟩, hselected⟩ : ∃ k, selectedKey r keys = k := ⟨_, rfl⟩
    rw [hselected]
    cases key with
    | none =>
      refine ⟨fun _ _ _ _ _ h => ?_, fun _ => ⟨_, rfl⟩⟩
      cases h
    | some secret =>
      constructor
      · rintro ⟨v, h⟩ _ _ - - hkey
        obtain rfl := Option.some.inj hkey
        obtain ⟨b, hverify, -⟩ := map_eq_ok.mp h
        exact ⟨b, hverify⟩
      · intro h
        obtain ⟨b, hverify⟩ := h stored secret hstored hne rfl
        exact ⟨_, map_eq_ok.mpr ⟨b, hverify, rfl⟩⟩

theorem problems_eq_nil : problems T seen r = [] ↔ r.text T.idColumn ∉ seen ∧ Complete T r := by
  unfold problems Complete
  by_cases hseen : r.text T.idColumn ∈ seen
  · simp [hseen]
  · simp [hseen, List.filter_eq_nil_iff]

/-- No structural problem in a pass: the rows are complete, their identifiers distinct and not
among those seen before. -/
theorem structuralProblems_eq_nil : structuralProblems T seen rows = [] ↔
    (∀ r ∈ rows, Complete T r) ∧ (rows.map fun r => r.text T.idColumn).Nodup ∧
      ∀ r ∈ rows, r.text T.idColumn ∉ seen := by
  induction rows generalizing seen with
  | nil => simp [structuralProblems]
  | cons r rows ih =>
    rw [structuralProblems, List.append_eq_nil_iff, problems_eq_nil, ih, List.forall_mem_cons,
      List.forall_mem_cons, List.map_cons, List.nodup_cons]
    have hfresh : (∀ x ∈ rows, x.text T.idColumn ∉ r.text T.idColumn :: seen) ↔
        r.text T.idColumn ∉ rows.map (fun r => r.text T.idColumn) ∧
          ∀ x ∈ rows, x.text T.idColumn ∉ seen := by
      simp only [List.mem_cons, not_or, List.mem_map, not_exists, not_and]
      exact ⟨fun h => ⟨fun x hx => (h x hx).1, fun x hx => (h x hx).2⟩,
        fun h x hx => ⟨h.1 x hx, h.2 x hx⟩⟩
    rw [hfresh]
    tauto

/-! ## From the pass to the report -/

/-- Every row is in one of the four lists. -/
theorem length_withVerdict (h : ∀ r ∈ rows, ∃ v, verdict T keys r = .ok v) :
    rows.length = (withVerdict T keys .valid rows).length +
      (withVerdict T keys .invalid rows).length + (withVerdict T keys .unverifiable rows).length +
      (withVerdict T keys .noBaseline rows).length := by
  induction rows with
  | nil => rfl
  | cons r rows ih =>
    rw [List.forall_mem_cons] at h
    obtain ⟨v, hv⟩ := h.1
    have hrest := ih h.2
    simp only [withVerdict_cons hv, List.length_append, List.length_cons]
    cases v <;> simp <;> omega

theorem tallied_of_scan (h : scan T keys rows [] .zero = .ok stats) :
    Tallied T keys rows stats := by
  have hs := scan_spec h
  have hlength := length_withVerdict hs.verdicts
  have hvalid := hs.valid
  have hnone := hs.no_baseline
  have hchecked := hs.checked
  simp only [Stats.zero, Nat.zero_add] at hvalid hnone hchecked
  refine ⟨fun r hr => ?_, hchecked, ?_, hvalid, hs.invalid, hs.unverifiable, hnone⟩
  · obtain ⟨v, hv⟩ := hs.verdicts r hr
    exact ⟨v, hv, fun w hw => Except.ok.inj (hw.symm.trans hv)⟩
  · rw [hs.invalid, hs.unverifiable, hchecked, hvalid, hnone]
    simpa [Stats.zero] using hlength

/-- **The report of one table.** -/
theorem report_iff (h : scan T keys rows [] .zero = .ok stats) :
    report stats = true ↔ CleanTable T keys rows := by
  have hs := scan_spec h
  have hnone : ∀ v, withVerdict T keys v rows = [] ↔ ∀ r ∈ rows, verdict T keys r ≠ .ok v := by
    intro v
    simp [withVerdict, List.filter_eq_nil_iff]
  have hreport : report stats = true ↔
      (withVerdict T keys .invalid rows = [] ∧ structuralProblems T [] rows = [] ∧
        withVerdict T keys .unverifiable rows = []) ∧ withVerdict T keys .noBaseline rows = [] := by
    simp [report, hs.invalid, hs.structural, hs.unverifiable, hs.no_baseline, Stats.zero, and_assoc]
  rw [hreport, structuralProblems_eq_nil, hnone, hnone, hnone]
  constructor
  · rintro ⟨⟨hinvalid, ⟨hcomplete, hnodup, -⟩, hunverifiable⟩, hbaseline⟩
    refine ⟨fun r hr => ?_, hcomplete, hnodup⟩
    obtain ⟨v, hv⟩ := hs.verdicts r hr
    cases v with
    | valid => exact verdict_eq_valid.mp hv
    | invalid => exact absurd hv (hinvalid r hr)
    | unverifiable => exact absurd hv (hunverifiable r hr)
    | noBaseline => exact absurd hv (hbaseline r hr)
  · intro hclean
    have hother : ∀ v, v ≠ .valid → ∀ r ∈ rows, verdict T keys r ≠ .ok v := by
      intro v hv r hr heq
      rw [verdict_eq_valid.mpr (hclean.verifies r hr)] at heq
      exact hv (Except.ok.inj heq).symm
    exact ⟨⟨hother _ (by decide), ⟨hclean.complete, hclean.distinct, by simp⟩, hother _ (by decide)⟩,
      hother _ (by decide)⟩

/-! ## The exit code -/

section Main

variable {C : Crypto}

/-- Rows with ASCII hashes have verdicts, whatever else they hold. -/
theorem verdict_isOk_of_ascii
    (hT : ∀ secret keyId, r.AsciiHash → ∃ b, T.verify r secret keyId = .ok b) (h : r.AsciiHash) :
    ∃ v, verdict T keys r = .ok v :=
  verdict_isOk.mpr fun _ secret _ _ _ => hT secret _ h

theorem verifyAuditEvents_isOk (h : ∀ r ∈ rows, r.AsciiHash) :
    ∃ stats, verifyAuditEvents C keys rows = .ok stats :=
  scan_isOk.mpr fun r hr => verdict_isOk_of_ascii
    (fun _ _ hascii => verifyAuditEventHash_isOk.mpr (.inl hascii)) (h r hr)

theorem verifyQuarantineRecords_isOk (h : ∀ r ∈ rows, r.AsciiHash) :
    ∃ stats, verifyQuarantineRecords C keys rows = .ok stats :=
  scan_isOk.mpr fun r hr => verdict_isOk_of_ascii
    (fun _ _ hascii => hashMatches_isOk.mpr (.inl hascii)) (h r hr)

/-- The exit code, once the keyring is there and both passes have returned. -/
theorem main_eq {legacy keyId current : Option Str} {events quarantine : List Record}
    {e q : Stats} (hkeys : resolveKeyring legacy keyId current = .ok keys)
    (he : verifyAuditEvents C keys events = .ok e)
    (hq : verifyQuarantineRecords C keys quarantine = .ok q) :
    main C legacy keyId current events quarantine =
      .ok (if report e = true ∧ report q = true then 0 else 1) := by
  unfold main
  rw [hkeys, ok_bind, he, hq]
  show (if (report e && report q) = true then pure 0 else pure 1 : Except Stop ℕ) = _
  by_cases h : report e = true ∧ report q = true
  · rw [if_pos h, if_pos (by simp [h])]
    rfl
  · rw [if_neg h, if_neg (by simpa using h)]
    rfl

/-- **A clean report means a clean ledger.** With any keyring the environment can resolve to,
over any two tables whose stored hashes are ASCII or `NULL`: the script exits with 0 just where
every row of both verifies under the key it selects and is complete and no identifier repeats,
and in both tables every row is counted under its one verdict. -/
theorem clean_report_iff {legacy keyId current : Option Str} {events quarantine : List Record}
    (hkeys : resolveKeyring legacy keyId current = .ok keys)
    (hevents : ∀ r ∈ events, r.AsciiHash) (hquarantine : ∀ r ∈ quarantine, r.AsciiHash) :
    ∃ code e q, main C legacy keyId current events quarantine = .ok code ∧
      (code = 0 ↔ CleanTable (auditEvents C) keys events ∧
        CleanTable (quarantinedAuditEvents C) keys quarantine) ∧
      verifyAuditEvents C keys events = .ok e ∧ Tallied (auditEvents C) keys events e ∧
      verifyQuarantineRecords C keys quarantine = .ok q ∧
      Tallied (quarantinedAuditEvents C) keys quarantine q := by
  obtain ⟨e, he⟩ : ∃ e, verifyAuditEvents C keys events = .ok e := verifyAuditEvents_isOk hevents
  obtain ⟨q, hq⟩ : ∃ q, verifyQuarantineRecords C keys quarantine = .ok q :=
    verifyQuarantineRecords_isOk hquarantine
  refine ⟨_, e, q, main_eq hkeys he hq, ?_, he, tallied_of_scan he, hq, tallied_of_scan hq⟩
  rw [← report_iff he, ← report_iff hq]
  by_cases h : report e = true ∧ report q = true
  · simp [h]
  · simp [h]

end Main

end VerifyIntegrity

/-! ## Rows somebody defaced -/

namespace Sample

/-- One identifier twice, once without a hash and once with a wrong one. -/
def repeatedRows : List Record := [(rowWithHash none).record, (rowWithHash (some (str "00"))).record]

/-- The keyring of a verifier that has the writer's key. -/
def keyring : VerifyIntegrity.Keyring := [(str "2026-01", str "0123456789abcdef0123456789abcdef")]

theorem resolveKeyring_keyring :
    VerifyIntegrity.resolveKeyring none cfg.recordIntegrityKeyId cfg.recordIntegrityKey =
      .ok keyring := by
  decide +kernel

end Sample

namespace VerifyIntegrity

/-- The report on a ledger of two rows with one identifier. -/
theorem clean_report_iff_repeated :
    ∃ code e q, main Sample.crypto none Sample.cfg.recordIntegrityKeyId
        Sample.cfg.recordIntegrityKey Sample.repeatedRows [] = .ok code ∧
      (code = 0 ↔ CleanTable (auditEvents Sample.crypto) Sample.keyring Sample.repeatedRows ∧
        CleanTable (quarantinedAuditEvents Sample.crypto) Sample.keyring []) ∧
      verifyAuditEvents Sample.crypto Sample.keyring Sample.repeatedRows = .ok e ∧
      Tallied (auditEvents Sample.crypto) Sample.keyring Sample.repeatedRows e ∧
      verifyQuarantineRecords Sample.crypto Sample.keyring [] = .ok q ∧
      Tallied (quarantinedAuditEvents Sample.crypto) Sample.keyring [] q := by
  have hascii : ∀ r ∈ Sample.repeatedRows, r.AsciiHash := by
    intro r hr s hs
    simp only [Sample.repeatedRows, List.mem_cons, List.not_mem_nil, or_false] at hr
    rcases hr with rfl | rfl
    · cases hs
    · obtain rfl : str "00" = s := Option.some.inj hs
      decide
  exact clean_report_iff Sample.resolveKeyring_keyring hascii (by simp)

/-! ## Rows that stop the pass -/

/-- **When verification returns.** The three functions return a `bool` on a record just where its
stored hash is `NULL` or ASCII or the record has no canonical message to compare it with, and a
pass looks at every row just where that holds of every row for which a key is selected. -/
theorem verification_returns_iff (C : Crypto) :
    (∀ (r : Record) secret keyId, (∃ b, r.verifyAuditEventHash C secret keyId = .ok b) ↔
      r.AsciiHash ∨ ¬r.Canonical auditEventFieldNames secret keyId) ∧
    (∀ (r : Record) secret, (∃ b, r.auditEventHashMatchesLegacyUtcForm C secret = .ok b) ↔
      r.AsciiHash ∨ ¬r.Canonical auditEventFieldNames secret none) ∧
    (∀ (r : Record) secret keyId, (∃ b, r.verifyQuarantineRecordHash C secret keyId = .ok b) ↔
      r.AsciiHash ∨ ¬r.Canonical quarantineRecordFieldNames secret keyId) ∧
    (∀ keys rows, (∃ stats, verifyAuditEvents C keys rows = .ok stats ∧
        stats.checked = rows.length) ↔
      ∀ r ∈ rows, ∀ secret, (selectedKey r keys).1 = some secret →
        r.AsciiHash ∨ ¬r.Canonical auditEventFieldNames secret (selectedKey r keys).2) ∧
    ∀ keys rows, (∃ stats, verifyQuarantineRecords C keys rows = .ok stats ∧
        stats.checked = rows.length) ↔
      ∀ r ∈ rows, ∀ secret, (selectedKey r keys).1 = some secret →
        r.AsciiHash ∨ ¬r.Canonical quarantineRecordFieldNames secret (selectedKey r keys).2 := by
  -- the condition holds of a row without a hash, so the passes need not mention one
  have hscan : ∀ (T : Table) (names : List String), (∀ r secret keyId,
      (∃ b, T.verify r secret keyId = .ok b) ↔ r.AsciiHash ∨ ¬r.Canonical names secret keyId) →
      ∀ keys rows, (∃ stats, scan T keys rows [] .zero = .ok stats ∧
          stats.checked = rows.length) ↔
        ∀ r ∈ rows, ∀ secret, (selectedKey r keys).1 = some secret →
          r.AsciiHash ∨ ¬r.Canonical names secret (selectedKey r keys).2 := by
    intro T names hT keys rows
    have hall : (∃ stats, scan T keys rows [] .zero = .ok stats ∧ stats.checked = rows.length) ↔
        ∃ stats, scan T keys rows [] .zero = .ok stats :=
      ⟨fun ⟨stats, h, _⟩ => ⟨stats, h⟩, fun ⟨stats, h⟩ => ⟨stats, h, (tallied_of_scan h).checked⟩⟩
    rw [hall, scan_isOk]
    refine forall₂_congr fun r _ => ?_
    rw [verdict_isOk]
    constructor
    · intro h secret hkey
      by_cases hascii : r.AsciiHash
      · exact .inl hascii
      · -- a hash that is not ASCII is there and not empty
        unfold Record.AsciiHash at hascii
        push Not at hascii
        obtain ⟨stored, hstored, hnot⟩ := hascii
        have hne : stored ≠ [] := by
          rintro rfl
          exact hnot rfl
        exact (hT r secret _).mp (h stored secret hstored hne hkey)
    · intro h stored secret _ _ hkey
      exact (hT r secret _).mpr (h secret hkey)
  exact ⟨fun _ _ _ => verifyAuditEventHash_isOk, fun _ _ => hashMatches_isOk,
    fun _ _ _ => hashMatches_isOk,
    hscan (auditEvents C) _ fun _ _ _ => verifyAuditEventHash_isOk,
    hscan (quarantinedAuditEvents C) _ fun _ _ _ => hashMatches_isOk⟩

/-- One row with `é` for a stored hash: verifying it raises, and so does the pass over a table
that holds it, so the row after it is never looked at. -/
theorem verification_aborted :
    let defaced := (Sample.rowWithHash (some [⟨0xE9, by decide⟩])).record
    defaced.verifyAuditEventHash Sample.crypto (str "0123456789abcdef0123456789abcdef")
        (some (str "2026-01")) = .error .typeError ∧
      defaced.auditEventHashMatchesLegacyUtcForm Sample.crypto
        (str "0123456789abcdef0123456789abcdef") = .error .typeError ∧
      ∀ rows, verifyAuditEvents Sample.crypto Sample.keyring (defaced :: rows) =
        .error .typeError := by
  refine ⟨by decide +kernel, by decide +kernel, fun rows => ?_⟩
  have hexamine : examine (auditEvents Sample.crypto) Sample.keyring []
      (Sample.rowWithHash (some [⟨0xE9, by decide⟩])).record .zero = .error .typeError := by
    decide +kernel
  rw [verifyAuditEvents, scan, hexamine]
  rfl

end VerifyIntegrity

end SecurityAudit
