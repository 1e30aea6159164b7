import SecurityAudit.Audit.Config
import SecurityAudit.Audit.Record

/-!
# Verifying the ledger: `scripts/verify_audit_integrity.py`

One pass over each table, a counter or a list of identifiers for each way a row can turn out,
and a report that fails if one of them is not empty. The two passes differ in the columns they
look at and in one extra comparison, so they are one loop over a `Table`. What is printed, the
status file and the alert are left out.

`verdict` is what the loop makes of one row, whatever came before it. The loop counts each row
under its verdict and nowhere else, and that is all the report needs.
-/

namespace SecurityAudit

open RecordIntegrity

namespace VerifyIntegrity

/-! ## Keys -/

/-- How the script ends early: `sys.exit(code)`, or an exception nobody catches. -/
inductive Stop where
  | exit (code : ℕ)
  | raised (e : Exc)
deriving DecidableEq

/-- The keys by key id. -/
abbrev Keyring : Type := List (Str × Str)

/-- `keys.get(keyId)`. -/
def Keyring.get? (keys : Keyring) (keyId : Str) : Option Str :=
  (keys.find? fun k => k.1 = keyId).map Prod.snd

/-- `keys[keyId] = key`. -/
def Keyring.set (keys : Keyring) (keyId key : Str) : Keyring :=
  keys.filter (fun k => k.1 ≠ keyId) ++ [(keyId, key)]

/-- `"__legacy__"`. -/
@[irreducible] def legacyKeyId : Str := str "__legacy__"

/-- An environment variable as the code tests it: one that is empty counts as missing. -/
def nonempty (s : Option Str) : Option Str := s.filter fun t => t ≠ []

/-- An exception of the code called is an exception of the script. -/
def uncaught {α : Type} : Except Exc α → Except Stop α
  | .ok a => .ok a
  | .error e => .error (.raised e)

/-- `_resolve_keyring`, given the values of `AUDIT_LEGACY_RECORD_VERIFY_KEY`,
`AUDIT_RECORD_INTEGRITY_KEY_ID` and `AUDIT_RECORD_INTEGRITY_KEY`. -/
def resolveKeyring (legacy keyId current : Option Str) : Except Stop Keyring :=
  let keys : Keyring := match nonempty legacy with
    | some legacy => [(legacyKeyId, legacy)]
    | none => []
  match nonempty current, nonempty keyId with
  | none, _ => if keys.isEmpty then .error (.exit 1) else .ok keys
  | some _, none => .error (.exit 1)
  | some current, some keyId =>
    if keyId = legacyKeyId then .error (.exit 1)
    else do
      let bytes ← uncaught (encode current)
      if bytes.size < 32 ∨ AuditConfig.keyIdFormat keyId = false then .error (.exit 1)
      else
        match nonempty legacy with
        | none => .ok (keys.set keyId current)
        | some legacy =>
          let same ← uncaught (compareDigest legacy current)
          if same = true then .error (.exit 1) else .ok (keys.set keyId current)

/-- `_selected_key`: the key for a row and the key id it is hashed with. -/
def selectedKey (r : Record) (keys : Keyring) : Option Str × Option Str :=
  match r.text "integrity_key_id" with
  | none => (keys.get? legacyKeyId, none)
  | some keyId => (keys.get? keyId, some keyId)

/-! ## One pass over a table -/

/-- `stats`. -/
structure Stats where
  checked : ℕ
  valid : ℕ
  invalid : List (Option Str)
  unverifiable : List (Option Str)
  no_baseline : ℕ
  structural : List Str
  valid_legacy_tz : ℕ
deriving DecidableEq

def Stats.zero : Stats := ⟨0, 0, [], [], 0, [], 0⟩

/-- What the two passes differ in: the identifying column, the columns that must not be empty,
the comparison with the stored hash, and the comparison that only the first one makes. The
second comparison is made of rows that passed the first, and cannot fail there. -/
structure Table where
  idColumn : String
  required : List String
  verify : Record → Str → Option Str → Except Exc Bool
  legacyForm : Record → Str → Option Str → Except Exc Bool
  legacyForm_isOk : ∀ {r secret keyId}, verify r secret keyId = .ok true →
    ∃ b, legacyForm r secret keyId = .ok b

/-- `row[field] is None or row[field] == ""`. -/
def missing : FieldValue → Bool
  | .text none | .text (some []) | .json .null | .json (.str []) => true
  | _ => false

/-- The structural problems of a row, after rows with the identifiers `seen`. -/
def problems (T : Table) (seen : List (Option Str)) (r : Record) : List Str :=
  let id := r.text T.idColumn
  (if id ∈ seen then [str "duplicate " ++ str T.idColumn ++ str ": " ++ noneText id] else []) ++
    (T.required.filter fun field => missing (r.get field)).map fun field =>
      noneText id ++ str ": missing required field '" ++ str field ++ str "'"

/-- The body of the loop. -/
def examine (T : Table) (keys : Keyring) (seen : List (Option Str)) (r : Record) (stats : Stats) :
    Except Exc Stats :=
  let id := r.text T.idColumn
  let stats := { stats with
    checked := stats.checked + 1
    structural := stats.structural ++ problems T seen r }
  match nonempty r.storedHash with
  | none => .ok { stats with no_baseline := stats.no_baseline + 1 }
  | some _ =>
    match selectedKey r keys with
    | (none, _) => .ok { stats with unverifiable := stats.unverifiable ++ [id] }
    | (some secret, keyId) => do
      if ← T.verify r secret keyId then
        let stats := { stats with valid := stats.valid + 1 }
        if ← T.legacyForm r secret keyId then
          return { stats with valid_legacy_tz := stats.valid_legacy_tz + 1 }
        else return stats
      else return { stats with invalid := stats.invalid ++ [id] }

/-- The loop. -/
def scan (T : Table) (keys : Keyring) : List Record → List (Option Str) → Stats → Except Exc Stats
  | [], _, stats => .ok stats
  | r :: rows, seen, stats => do
    scan T keys rows (r.text T.idColumn :: seen) (← examine T keys seen r stats)

variable (C : Crypto)

/-- A row that passed has an ASCII hash, so it can be compared again. -/
theorem legacyForm_isOk {r : Record} {secret : Str} {keyId : Option Str}
    (h : r.verifyAuditEventHash C secret keyId = .ok true) :
    ∃ b, (if keyId = none then r.auditEventHashMatchesLegacyUtcForm C secret else .ok false) =
      .ok b := by
  by_cases hkey : keyId = none
  · rw [if_pos hkey]
    subst hkey
    rcases verifyAuditEventHash_isOk.mp ⟨true, h⟩ with hascii | hnot
    · exact hashMatches_isOk.mpr (.inl hascii)
    · exact hashMatches_isOk.mpr (.inr hnot)
  · exact ⟨false, if_neg hkey⟩

/-- The table `audit_events`. -/
def auditEvents : Table where
  idColumn := "event_id"
  required := ["event_id", "timestamp", "service", "event_type", "action"]
  verify r := r.verifyAuditEventHash C
  legacyForm r secret keyId :=
    if keyId = none then r.auditEventHashMatchesLegacyUtcForm C secret else .ok false
  legacyForm_isOk := legacyForm_isOk C

/-- The table `quarantined_audit_events`. -/
def quarantinedAuditEvents : Table where
  idColumn := "stream_message_id"
  required := ["stream_message_id", "failure_category", "delivery_attempts"]
  verify r := r.verifyQuarantineRecordHash C
  legacyForm _ _ _ := .ok false
  legacyForm_isOk _ := ⟨false, rfl⟩

/-- `verify_audit_events`. -/
def verifyAuditEvents (keys : Keyring) (rows : List Record) : Except Exc Stats :=
  scan (auditEvents C) keys rows [] .zero

/-- `verify_quarantine_records`. -/
def verifyQuarantineRecords (keys : Keyring) (rows : List Record) : Except Exc Stats :=
  scan (quarantinedAuditEvents C) keys rows [] .zero

/-- `_report`. -/
def report (stats : Stats) : Bool :=
  stats.invalid.isEmpty && stats.structural.isEmpty && stats.unverifiable.isEmpty &&
    decide (stats.no_baseline = 0)

/-- `main`, over what the two tables hold. -/
def main (legacy keyId current : Option Str) (events quarantine : List Record) :
    Except Stop ℕ := do
  let keys ← resolveKeyring legacy keyId current
  let eventsStats ← uncaught (verifyAuditEvents C keys events)
  let quarantineStats ← uncaught (verifyQuarantineRecords C keys quarantine)
  if report eventsStats && report quarantineStats then return 0 else return 1

/-! ## The verdict on one row -/

/-- How a row turns out. -/
inductive Verdict where
  | valid
  | invalid
  | unverifiable
  | noBaseline
deriving DecidableEq

/-- What a row turns out to be, on its own. -/
def verdict (T : Table) (keys : Keyring) (r : Record) : Except Exc Verdict :=
  match nonempty r.storedHash with
  | none => .ok .noBaseline
  | some _ =>
    match selectedKey r keys with
    | (none, _) => .ok .unverifiable
    | (some secret, keyId) =>
      (T.verify r secret keyId).map fun verified => if verified then .valid else .invalid

/-- The rows with one verdict. -/
def withVerdict (T : Table) (keys : Keyring) (v : Verdict) (rows : List Record) : List Record :=
  rows.filter fun r => decide (verdict T keys r = .ok v)

/-- The structural problems of the rows, one row after the other. -/
def structuralProblems (T : Table) : List (Option Str) → List Record → List Str
  | _, [] => []
  | seen, r :: rows => problems T seen r ++ structuralProblems T (r.text T.idColumn :: seen) rows

variable {T : Table} {keys : Keyring} {seen : List (Option Str)} {r : Record} {rows : List Record}
  {stats stats' : Stats} {v : Verdict}

/-- What one more row with the verdict `v` adds to the counts: it is counted as checked, and
once more under `v`. -/
structure Counted (T : Table) (seen : List (Option Str)) (r : Record) (v : Verdict)
    (stats stats' : Stats) : Prop where
  checked : stats'.checked = stats.checked + 1
  valid : stats'.valid = stats.valid + if v = .valid then 1 else 0
  invalid : stats'.invalid = stats.invalid ++ if v = .invalid then [r.text T.idColumn] else []
  unverifiable : stats'.unverifiable =
    stats.unverifiable ++ if v = .unverifiable then [r.text T.idColumn] else []
  no_baseline : stats'.no_baseline = stats.no_baseline + if v = .noBaseline then 1 else 0
  structural : stats'.structural = stats.structural ++ problems T seen r

variable (seen stats) in
/-- The body of the loop counts a row under its verdict. -/
theorem examine_of_verdict (h : verdict T keys r = .ok v) :
    ∃ stats', examine T keys seen r stats = .ok stats' ∧ Counted T seen r v stats stats' := by
  unfold verdict at h
  unfold examine
  dsimp only
  cases hhash : nonempty r.storedHash with
  | none =>
    rw [hhash] at h
    obtain rfl := Except.ok.inj h
    exact ⟨_, rfl, ⟨rfl, rfl, by simp, by simp, rfl, rfl⟩⟩
  | some stored =>
    obtain ⟨⟨key, keyId⟩, hselected⟩ : ∃ k, selectedKey r keys = k := ⟨_, rfl⟩
    rw [hhash, hselected] at h
    rw [hselected]
    cases key with
    | none =>
      obtain rfl := Except.ok.inj h
      exact ⟨_, rfl, ⟨rfl, rfl, by simp, rfl, rfl, rfl⟩⟩
    | some secret =>
      obtain ⟨verified, hverify, rfl⟩ := map_eq_ok.mp h
      cases verified with
      | false =>
        exact ⟨_, bind_eq_ok.mpr ⟨false, hverify, rfl⟩, ⟨rfl, rfl, rfl, by simp, rfl, rfl⟩⟩
      | true =>
        -- the second comparison only decides whether the row is counted once more as legacy
        obtain ⟨b, hlegacy⟩ := T.legacyForm_isOk hverify
        cases b with
        | false =>
          exact ⟨_, bind_eq_ok.mpr ⟨true, hverify, bind_eq_ok.mpr ⟨false, hlegacy, rfl⟩⟩,
            ⟨rfl, rfl, by simp, by simp, rfl, rfl⟩⟩
        | true =>
          exact ⟨_, bind_eq_ok.mpr ⟨true, hverify, bind_eq_ok.mpr ⟨true, hlegacy, rfl⟩⟩,
            ⟨rfl, rfl, by simp, by simp, rfl, rfl⟩⟩

/-- A row the loop gets past has a verdict. -/
theorem verdict_of_examine (h : examine T keys seen r stats = .ok stats') :
    ∃ v, verdict T keys r = .ok v := by
  unfold examine at h
  unfold verdict
  dsimp only at h
  cases hhash : nonempty r.storedHash with
  | none => exact ⟨_, rfl⟩
  | some stored =>
    obtain ⟨⟨key, keyId⟩, hselected⟩ : ∃ k, selectedKey r keys = k := ⟨_, rfl⟩
    rw [hhash, hselected] at h
    rw [hselected]
    cases key with
    | none => exact ⟨_, rfl⟩
    | some secret =>
      obtain ⟨verified, hverify, -⟩ := bind_eq_ok.mp h
      exact ⟨_, map_eq_ok.mpr ⟨verified, hverify, rfl⟩⟩

/-- What a whole pass adds to the counts. -/
structure Summary (T : Table) (keys : Keyring) (seen : List (Option Str)) (rows : List Record)
    (stats stats' : Stats) : Prop where
  verdicts : ∀ r ∈ rows, ∃ v, verdict T keys r = .ok v
  checked : stats'.checked = stats.checked + rows.length
  valid : stats'.valid = stats.valid + (withVerdict T keys .valid rows).length
  invalid : stats'.invalid =
    stats.invalid ++ (withVerdict T keys .invalid rows).map fun r => r.text T.idColumn
  unverifiable : stats'.unverifiable =
    stats.unverifiable ++ (withVerdict T keys .unverifiable rows).map fun r => r.text T.idColumn
  no_baseline : stats'.no_baseline =
    stats.no_baseline + (withVerdict T keys .noBaseline rows).length
  structural : stats'.structural = stats.structural ++ structuralProblems T seen rows

/-- One more row with the verdict `v` among the rows with the verdict `w`. -/
theorem withVerdict_cons (h : verdict T keys r = .ok v) (w : Verdict) :
    withVerdict T keys w (r :: rows) =
      (if v = w then [r] else []) ++ withVerdict T keys w rows := by
  have hiff : verdict T keys r = .ok w ↔ v = w := by
    rw [h]
    exact ⟨fun he => Except.ok.inj he, fun he => by rw [he]⟩
  by_cases hvw : v = w <;> simp [withVerdict, hiff, hvw]

/-- **The pass counts every row under its verdict.** -/
theorem scan_spec (h : scan T keys rows seen stats = .ok stats') :
    Summary T keys seen rows stats stats' := by
  induction rows generalizing seen stats with
  | nil =>
    obtain rfl := Except.ok.inj h
    exact ⟨by simp, rfl, rfl, by simp [withVerdict], by simp [withVerdict], rfl,
      by simp [structuralProblems]⟩
  | cons r rows ih =>
    obtain ⟨stats₁, hexamine, h⟩ := bind_eq_ok.mp h
    obtain ⟨v, hv⟩ := verdict_of_examine hexamine
    obtain ⟨stats₂, hexamine', hcounted⟩ := examine_of_verdict seen stats hv
    obtain rfl : stats₁ = stats₂ := Except.ok.inj (hexamine.symm.trans hexamine')
    have hrest := ih h
    refine ⟨List.forall_mem_cons.mpr ⟨⟨v, hv⟩, hrest.verdicts⟩, ?_, ?_, ?_, ?_, ?_, ?_⟩
    · rw [hrest.checked, hcounted.checked, List.length_cons]
      omega
    · rw [hrest.valid, hcounted.valid, withVerdict_cons hv]
      by_cases hvalid : v = .valid
      · simp [hvalid]
        omega
      · simp [hvalid]
    · rw [hrest.invalid, hcounted.invalid, withVerdict_cons hv]
      by_cases hinvalid : v = .invalid <;> simp [hinvalid]
    · rw [hrest.unverifiable, hcounted.unverifiable, withVerdict_cons hv]
      by_cases hunverifiable : v = .unverifiable <;> simp [hunverifiable]
    · rw [hrest.no_baseline, hcounted.no_baseline, withVerdict_cons hv]
      by_cases hnone : v = .noBaseline
      · simp [hnone]
        omega
      · simp [hnone]
    · rw [hrest.structural, hcounted.structural, structuralProblems, List.append_assoc]

/-- The pass returns just where every row has a verdict. -/
theorem scan_isOk : (∃ stats', scan T keys rows seen stats = .ok stats') ↔
    ∀ r ∈ rows, ∃ v, verdict T keys r = .ok v := by
  constructor
  · rintro ⟨stats', h⟩
    exact (scan_spec h).verdicts
  · intro h
    induction rows generalizing seen stats with
    | nil => exact ⟨stats, rfl⟩
    | cons r rows ih =>
      rw [List.forall_mem_cons] at h
      obtain ⟨v, hv⟩ := h.1
      obtain ⟨stats₁, hexamine, -⟩ := examine_of_verdict seen stats hv
      obtain ⟨stats', hscan⟩ : ∃ stats', scan T keys rows (r.text T.idColumn :: seen) stats₁ =
        .ok stats' := ih h.2
      exact ⟨stats', bind_eq_ok.mpr ⟨stats₁, hexamine, hscan⟩⟩

end VerifyIntegrity

end SecurityAudit
