import SecurityAudit.Json.Reading
import SecurityAudit.Audit.RecordIntegrity

/-!
# Records whose columns hold anything

The verifying half of `audit/record_integrity.py` is given rows that somebody with database
access may have changed: any text or `NULL` in a column, a timestamp that is no timestamp, a
context of any shape. `Record` is such a row as the `dict` the code looks columns up in. Its
columns have the kinds the ORM can return for them and nothing else is asked of them.

The last part says exactly when a record has a canonical message, and from it exactly when
the verifying functions return.
-/

namespace SecurityAudit

open RecordIntegrity

/-- What a column of this name may hold. `NULL` is `text none`, and the `None` of a JSON column
is `json null`. -/
def FieldValue.Fits (name : String) : FieldValue → Prop
  | .text _ => name ≠ "context"
  | .time _ => name = "timestamp"
  | .json _ => name = "context"
  | .number _ => name = "delivery_attempts"

/-- A row as a `dict`. -/
structure Record where
  get : String → FieldValue
  fits : ∀ name, (get name).Fits name

namespace Record

/-- The text a column holds, `none` for `NULL`. -/
def text (r : Record) (name : String) : Option Str :=
  match r.get name with
  | .text s => s
  | _ => none

/-- The listed columns, in order. -/
def fields (r : Record) (names : List String) : List (String × FieldValue) :=
  names.map fun name => (name, r.get name)

end Record

namespace RecordIntegrity

/-- `AUDIT_EVENT_FIELDS`. -/
def auditEventFieldNames : List String :=
  ["event_id", "timestamp", "service", "event_type", "user_id", "organization_id",
    "tenant_scope", "action", "resource", "decision", "reason", "trace_id", "context",
    "integrity_status"]

/-- `QUARANTINE_RECORD_FIELDS`. -/
def quarantineRecordFieldNames : List String :=
  ["stream_message_id", "raw_data", "raw_signature", "service", "failure_category",
    "failure_detail", "delivery_attempts"]

end RecordIntegrity

namespace Record

variable (C : Crypto)

/-- `record.get("record_integrity_hash")`. -/
abbrev storedHash (r : Record) : Option Str := r.text "record_integrity_hash"

/-- `compute_audit_event_hash`. -/
def computeAuditEventHash (r : Record) (secret : Str) (keyId : Option Str) : Except Exc Str :=
  recordHash C (r.fields auditEventFieldNames) false secret keyId

/-- `compute_quarantine_record_hash`. -/
def computeQuarantineRecordHash (r : Record) (secret : Str) (keyId : Option Str) :
    Except Exc Str :=
  recordHash C (r.fields quarantineRecordFieldNames) false secret keyId

/-- `audit_event_hash_matches_legacy_utc_form`. -/
def auditEventHashMatchesLegacyUtcForm (r : Record) (secret : Str) : Except Exc Bool :=
  hashMatches r.storedHash (recordHash C (r.fields auditEventFieldNames) true secret none)

/-- `verify_audit_event_hash`. -/
def verifyAuditEventHash (r : Record) (secret : Str) (keyId : Option Str) : Except Exc Bool :=
  match r.storedHash, r.computeAuditEventHash C secret keyId with
  | some stored, .ok expected =>
    if stored = [] then .ok false
    else do
      if ← compareDigest stored expected then return true
      else if keyId = none then r.auditEventHashMatchesLegacyUtcForm C secret
      else return false
  | _, _ => .ok false

/-- `verify_quarantine_record_hash`. -/
def verifyQuarantineRecordHash (r : Record) (secret : Str) (keyId : Option Str) :
    Except Exc Bool :=
  hashMatches r.storedHash (r.computeQuarantineRecordHash C secret keyId)

end Record

/-! ## The rows of the two tables -/

/-- A row of `audit_events` as a `dict`. -/
def AuditRow.record (r : AuditRow) : Record where
  get
    | "event_id" => .text (some r.event_id)
    | "timestamp" => .time (.naive r.timestamp)
    | "service" => .text (some r.service)
    | "event_type" => .text (some r.event_type)
    | "user_id" => .text r.user_id
    | "organization_id" => .text r.organization_id
    | "tenant_scope" => .text (some r.tenant_scope)
    | "action" => .text (some r.action)
    | "resource" => .text r.resource
    | "decision" => .text r.decision
    | "reason" => .text r.reason
    | "trace_id" => .text r.trace_id
    | "context" => .json r.context
    | "integrity_status" => .text (some r.integrity_status)
    | "record_integrity_hash" => .text r.record_integrity_hash
    | "integrity_key_id" => .text r.integrity_key_id
    | _ => .text none
  fits name := by
    split <;> simp_all [FieldValue.Fits]

/-- A row of `quarantined_audit_events` as a `dict`. -/
def QuarantineRow.record (r : QuarantineRow) : Record where
  get
    | "stream_message_id" => .text (some r.stream_message_id)
    | "raw_data" => .text r.raw_data
    | "raw_signature" => .text r.raw_signature
    | "service" => .text r.service
    | "failure_category" => .text (some r.failure_category)
    | "failure_detail" => .text r.failure_detail
    | "delivery_attempts" => .number r.delivery_attempts
    | "record_integrity_hash" => .text r.record_integrity_hash
    | "integrity_key_id" => .text r.integrity_key_id
    | "context" => .json .null
    | _ => .text none
  fits name := by
    split <;> simp_all [FieldValue.Fits]

theorem verifyAuditEventHash_record (C : Crypto) (r : AuditRow) (secret : Str)
    (keyId : Option Str) :
    r.record.verifyAuditEventHash C secret keyId =
      RecordIntegrity.verifyAuditEventHash C r secret keyId := rfl

/-! ## Which records have a canonical message -/

/-- The column has a text in the canonical message that can be encoded: text without
surrogates, or a timestamp that is in range in UTC and after rounding. -/
def FieldValue.Canonical : FieldValue → Prop
  | .text s => ∀ t ∈ s, JVal.Clean t
  | .time t => ∃ u v, toNaiveUtc t = .ok u ∧ u.storeSecond? = some v
  | .json _ => True
  | .number _ => True

/-- The record has a canonical message under the secret and the key id. -/
structure Record.Canonical (r : Record) (names : List String) (secret : Str)
    (keyId : Option Str) : Prop where
  secret : JVal.Clean secret
  keyId : ∀ k ∈ keyId, JVal.Clean k
  fields : ∀ name ∈ names, (r.get name).Canonical

theorem encode_isOk {s : Str} : (∃ u, encode s = .ok u) ↔ JVal.Clean s := by
  unfold encode encode?
  by_cases h : s.all (fun c => !isSurrogate c) = true
  · simp only [dif_pos h, orRaise_some]
    simpa [JVal.Clean] using h
  · simp only [dif_neg h]
    constructor
    · rintro ⟨u, hu⟩
      cases hu
    · intro hclean
      exact absurd (List.all_eq_true.mpr fun c hc => by simp [hclean c hc]) h

theorem clean_append {s t : Str} : JVal.Clean (s ++ t) ↔ JVal.Clean s ∧ JVal.Clean t := by
  simp only [JVal.Clean, List.mem_append]
  exact ⟨fun h => ⟨fun c hc => h c (.inl hc), fun c hc => h c (.inr hc)⟩,
    fun h c hc => hc.elim (h.1 c) (h.2 c)⟩

theorem clean_cons {c : CodePoint} {s : Str} :
    JVal.Clean (c :: s) ↔ isSurrogate c = false ∧ JVal.Clean s := by
  simp [JVal.Clean]

/-- A character is not a surrogate. -/
@[simp] theorem isSurrogate_cp (c : Char) : isSurrogate (cp c) = false := by
  have h : c.toNat < 0xD800 ∨ 0xDFFF < c.toNat ∧ c.toNat < 0x110000 := c.valid
  rw [isSurrogate, decide_eq_false_iff_not]
  show ¬(0xD800 ≤ c.toNat ∧ c.toNat ≤ 0xDFFF)
  omega

theorem clean_str (s : String) : JVal.Clean (str s) := by
  intro c hc
  obtain ⟨d, -, rfl⟩ := List.mem_map.mp hc
  exact isSurrogate_cp d

theorem clean_of_printable {s : Str} (h : JVal.Printable s) : JVal.Clean s := by
  intro c hc
  have := h c hc
  rw [isSurrogate, decide_eq_false_iff_not]
  omega

theorem clean_line {name : String} {value : Str} : JVal.Clean (line name value) ↔ JVal.Clean value := by
  rw [line, clean_append, clean_cons]
  exact ⟨fun h => h.2.2, fun h => ⟨clean_str name, isSurrogate_cp '=', h⟩⟩

theorem clean_joinLines {parts : List Str} :
    JVal.Clean (joinLines parts) ↔ ∀ p ∈ parts, JVal.Clean p := by
  induction parts using joinLines.induct with
  | case1 => simp [joinLines, JVal.Clean]
  | case2 p => simp [joinLines]
  | case3 p q ps ih =>
    rw [joinLines, clean_append, clean_cons, ih]
    simp

/-- The text of a timestamp is plain ASCII. -/
theorem clean_timestampText {legacy : Bool} {t : DateTime} {s : Str}
    (h : timestampText legacy t = .ok s) : JVal.Clean s := by
  obtain ⟨u, -, h⟩ := bind_eq_ok.mp h
  obtain ⟨v, -, h⟩ := bind_eq_ok.mp h
  rw [← Except.ok.inj h, clean_append]
  constructor
  · intro c hc
    rcases Naive.mem_isoformat hc with hd | rfl | rfl | rfl | rfl
    · rw [isSurrogate, decide_eq_false_iff_not]
      have := of_decide_eq_true hd
      omega
    all_goals exact isSurrogate_cp _
  · cases legacy
    · exact fun c hc => by cases hc
    · exact clean_str _

theorem timestampText_isOk (legacy : Bool) {t : DateTime} :
    (∃ s, timestampText legacy t = .ok s) ↔ (FieldValue.time t).Canonical := by
  constructor
  · rintro ⟨s, h⟩
    obtain ⟨u, hu, h⟩ := bind_eq_ok.mp h
    obtain ⟨v, hv, -⟩ := bind_eq_ok.mp h
    rw [roundSecond_eq] at hv
    exact ⟨u, v, hu, orRaise_eq_ok.mp hv⟩
  · rintro ⟨u, v, hu, hv⟩
    exact ⟨_, bind_eq_ok.mpr ⟨u, hu, bind_eq_ok.mpr ⟨v, by rw [roundSecond_eq, hv]; rfl, rfl⟩⟩⟩

/-- A column has an encodable text just where it is canonical. -/
theorem fieldText_isOk (legacy : Bool) {v : FieldValue} :
    (∃ s, fieldText legacy v = .ok s ∧ JVal.Clean s) ↔ v.Canonical := by
  cases v with
  | text s =>
    cases s with
    | none => simp [fieldText, noneText, FieldValue.Canonical, clean_str]
    | some s => simp [fieldText, noneText, FieldValue.Canonical]
  | time t =>
    rw [← timestampText_isOk legacy]
    constructor
    · rintro ⟨s, hs, -⟩
      exact ⟨s, hs⟩
    · rintro ⟨s, hs⟩
      exact ⟨s, hs, clean_timestampText hs⟩
  | json v =>
    simp only [fieldText, FieldValue.Canonical, iff_true]
    exact ⟨_, rfl, clean_of_printable (JVal.printable_dumps _)⟩
  | number n =>
    simp only [fieldText, FieldValue.Canonical, iff_true]
    exact ⟨_, rfl, clean_of_printable (JVal.printable_intText n)⟩

/-- All columns have encodable texts just where all are canonical. -/
theorem fieldTexts_isOk (legacy : Bool) {record : List (String × FieldValue)} :
    (∃ values, fieldTexts legacy record = .ok values ∧ ∀ v ∈ values, JVal.Clean v) ↔
      ∀ f ∈ record, f.2.Canonical := by
  induction record with
  | nil => simp [fieldTexts]
  | cons f record ih =>
    rw [List.forall_mem_cons, ← ih, ← fieldText_isOk legacy]
    unfold fieldTexts
    rw [List.mapM_cons]
    constructor
    · rintro ⟨values, h, hclean⟩
      obtain ⟨s, hs, h⟩ := bind_eq_ok.mp h
      obtain ⟨rest, hrest, h⟩ := bind_eq_ok.mp h
      rw [← Except.ok.inj h, List.forall_mem_cons] at hclean
      exact ⟨⟨s, hs, hclean.1⟩, rest, hrest, hclean.2⟩
    · rintro ⟨⟨s, hs, hclean⟩, rest, hrest, hcleans⟩
      exact ⟨s :: rest, bind_eq_ok.mpr ⟨s, hs, bind_eq_ok.mpr ⟨rest, hrest, rfl⟩⟩,
        List.forall_mem_cons.mpr ⟨hclean, hcleans⟩⟩

theorem length_fieldTexts {legacy : Bool} {record : List (String × FieldValue)}
    {values : List Str} (h : fieldTexts legacy record = .ok values) :
    values.length = record.length := by
  induction record generalizing values with
  | nil => cases h; rfl
  | cons f record ih =>
    unfold fieldTexts at h
    rw [List.mapM_cons] at h
    obtain ⟨s, -, h⟩ := bind_eq_ok.mp h
    obtain ⟨rest, hrest, h⟩ := bind_eq_ok.mp h
    rw [← Except.ok.inj h, List.length_cons, List.length_cons, ih hrest]

/-- The lines are encodable just where the values are. -/
theorem clean_lines {names : List String} {values : List Str} (h : values.length = names.length) :
    (∀ p ∈ List.zipWith line names values, JVal.Clean p) ↔ ∀ v ∈ values, JVal.Clean v := by
  induction names generalizing values with
  | nil =>
    rw [List.length_eq_zero_iff.mp h]
    simp
  | cons name names ih =>
    cases values with
    | nil => simp at h
    | cons v values =>
      rw [List.zipWith_cons_cons, List.forall_mem_cons, List.forall_mem_cons, clean_line,
        ih (by simpa using h)]

theorem integrityKey_isOk {C : Crypto} {secret : Str} :
    (∃ key, integrityKey C secret = .ok key) ↔ JVal.Clean secret := by
  have hlabel : JVal.Clean RecordIntegrity.domainLabel := by
    unfold RecordIntegrity.domainLabel
    exact clean_str _
  have htext : JVal.Clean (RecordIntegrity.domainLabel ++ cp ':' :: secret) ↔ JVal.Clean secret := by
    rw [clean_append, clean_cons]
    exact ⟨fun h => h.2.2, fun h => ⟨hlabel, isSurrogate_cp ':', h⟩⟩
  rw [← htext, ← encode_isOk]
  exact ⟨fun ⟨_, h⟩ => have ⟨u, hu, _⟩ := map_eq_ok.mp h; ⟨u, hu⟩,
    fun ⟨u, hu⟩ => ⟨_, map_eq_ok.mpr ⟨u, hu, rfl⟩⟩⟩

/-- The message is encodable just where the values and the key id are. -/
theorem clean_messageText {names : List String} {values : List Str} {keyId : Option Str}
    (h : values.length = names.length) :
    JVal.Clean (messageText names values keyId) ↔
      (∀ v ∈ values, JVal.Clean v) ∧ ∀ k ∈ keyId, JVal.Clean k := by
  rw [messageText, clean_joinLines, List.forall_mem_append, clean_lines h]
  cases keyId <;> simp [keyIdLine, clean_line]

/-- **A record has a hash just where it is canonical**, in either form. -/
theorem recordHash_isOk (C : Crypto) (legacy : Bool) {r : Record} {names : List String}
    {secret : Str} {keyId : Option Str} :
    (∃ h, recordHash C (r.fields names) legacy secret keyId = .ok h) ↔
      r.Canonical names secret keyId := by
  have hfields : (∀ f ∈ r.fields names, f.2.Canonical) ↔
      ∀ name ∈ names, (r.get name).Canonical := by
    simp [Record.fields]
  have hnames : (r.fields names).map Prod.fst = names := by
    simp [Record.fields, Function.comp_def]
  have hlength : ∀ {values}, fieldTexts legacy (r.fields names) = .ok values →
      values.length = names.length := fun h => by
    rw [length_fieldTexts h, Record.fields, List.length_map]
  constructor
  · rintro ⟨h, hh⟩
    obtain ⟨key, hkey, hh⟩ := bind_eq_ok.mp hh
    obtain ⟨message, hmessage, -⟩ := bind_eq_ok.mp hh
    obtain ⟨values, hvalues, hmessage⟩ := bind_eq_ok.mp hmessage
    rw [hnames] at hmessage
    obtain ⟨hclean, hkeyId⟩ := (clean_messageText (hlength hvalues)).mp
      (encode_isOk.mp ⟨_, hmessage⟩)
    exact ⟨integrityKey_isOk.mp ⟨key, hkey⟩, hkeyId,
      hfields.mp ((fieldTexts_isOk legacy).mp ⟨values, hvalues, hclean⟩)⟩
  · intro h
    obtain ⟨key, hkey⟩ := (integrityKey_isOk (C := C)).mpr h.secret
    obtain ⟨values, hvalues, hclean⟩ := (fieldTexts_isOk legacy).mpr
      (hfields.mpr h.fields)
    obtain ⟨message, hmessage⟩ := encode_isOk.mpr
      ((clean_messageText (hlength hvalues)).mpr ⟨hclean, h.keyId⟩)
    refine ⟨C.hmacSha256 key message, bind_eq_ok.mpr ⟨key, hkey, bind_eq_ok.mpr ⟨message, ?_, rfl⟩⟩⟩
    exact bind_eq_ok.mpr ⟨values, hvalues, by rw [hnames]; exact hmessage⟩

/-! ## When the verifying functions return -/

/-- The stored hash can be compared with a hex digest: it is `NULL` or ASCII. -/
def Record.AsciiHash (r : Record) : Prop := ∀ s ∈ r.storedHash, isAscii s = true

theorem compareDigest_isOk {a b : Str} (hb : isAscii b = true) :
    (∃ same, compareDigest a b = .ok same) ↔ isAscii a = true := by
  unfold compareDigest
  by_cases ha : isAscii a = true
  · simp [ha, hb]
  · simp [ha]

/-- A comparison with a stored hash fails just where the hash is not ASCII and there is
something to compare it with. -/
theorem hashMatches_isOk {C : Crypto} {r : Record} {names : List String} {legacy : Bool}
    {secret : Str} {keyId : Option Str} :
    (∃ b, hashMatches r.storedHash (recordHash C (r.fields names) legacy secret keyId) = .ok b) ↔
      r.AsciiHash ∨ ¬r.Canonical names secret keyId := by
  unfold Record.AsciiHash
  rw [← recordHash_isOk C legacy]
  cases hstored : r.storedHash with
  | none => simp [hashMatches]
  | some stored =>
    by_cases hnil : stored = []
    · simp [hashMatches, hnil, isAscii]
    · cases hhash : recordHash C (r.fields names) legacy secret keyId with
      | error e => simp [hashMatches, hnil]
      | ok expected =>
        have hascii := (recordHash_ascii C hhash).2
        simp only [hashMatches, if_neg hnil, compareDigest_isOk hascii]
        simp

theorem verifyAuditEventHash_isOk {C : Crypto} {r : Record} {secret : Str} {keyId : Option Str} :
    (∃ b, r.verifyAuditEventHash C secret keyId = .ok b) ↔
      r.AsciiHash ∨ ¬r.Canonical auditEventFieldNames secret keyId := by
  have hiff : (∃ b, hashMatches r.storedHash
      (recordHash C (r.fields auditEventFieldNames) false secret keyId) = .ok b) ↔ _ :=
    hashMatches_isOk
  rw [← hiff]
  cases hstored : r.storedHash with
  | none => simp [Record.verifyAuditEventHash, hashMatches, hstored]
  | some stored =>
    cases hhash : recordHash C (r.fields auditEventFieldNames) false secret keyId with
    | error e =>
      by_cases hnil : stored = [] <;>
        simp [Record.verifyAuditEventHash, Record.computeAuditEventHash, hashMatches, hstored, hhash,
          hnil]
    | ok expected =>
      by_cases hnil : stored = []
      · simp [Record.verifyAuditEventHash, Record.computeAuditEventHash, hashMatches, hstored,
          hhash, hnil]
      · simp only [Record.verifyAuditEventHash, Record.computeAuditEventHash, hashMatches, hstored,
          hhash, if_neg hnil]
        constructor
        · rintro ⟨b, h⟩
          obtain ⟨same, hsame, -⟩ := bind_eq_ok.mp h
          exact ⟨same, hsame⟩
        · rintro ⟨same, hsame⟩
          -- the second comparison is made with the same stored hash, so it cannot fail either
          have hascii : r.AsciiHash := by
            rintro s hs
            obtain rfl : stored = s := Option.some.inj (hstored.symm.trans hs)
            exact (compareDigest_ok hsame).1.1
          rw [hsame, ok_bind]
          cases same with
          | true => exact ⟨true, rfl⟩
          | false =>
            by_cases hkey : keyId = none
            · rw [if_neg (by simp), if_pos hkey]
              exact hashMatches_isOk.mpr (.inl hascii)
            · exact ⟨false, by simp [hkey]⟩

end SecurityAudit
