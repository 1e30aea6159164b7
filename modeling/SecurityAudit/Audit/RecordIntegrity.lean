import SecurityAudit.Db.Models

/-!
# Stored-record integrity: `audit/record_integrity.py`

Each row carries an HMAC over a canonical message: one `name=value` line for each field of a
fixed list, and a last line for the key id where there is one. The message is computed
before the row is stored and again from the stored row, so it normalises the two columns
that storage or reading may change: the timestamp, to naive UTC in whole seconds, and the
JSON context, to sorted compact JSON of the value or of the value its text spells.

A record is its field list in order, each field with what `record.get(field)` returns. The
one datetime column is `timestamp` and the one JSON column is `context` in both lists, so the
source's tests on the field's name are tests on the kind of value here.
-/

namespace SecurityAudit

/-- What `record.get(field)` returns: text or `None`, a `datetime`, a JSON value, an `int`. -/
inductive FieldValue where
  | text (s : Option Str)
  | time (t : DateTime)
  | json (v : JVal)
  | number (n : ℤ)

namespace RecordIntegrity

/-- `_DOMAIN_LABEL`. -/
@[irreducible] def domainLabel : Str := str "omnibioai-audit-record-integrity"

/-- `to_naive_utc`. -/
def toNaiveUtc : DateTime → Except Exc Naive
  | .naive t => .ok t
  | .aware t => orRaise .overflowError (Naive.ofInt? (t.wall.us - t.offset))

/-- The rounding of the canonical form: drop the microseconds, and add a second where there
were 500 000 or more of them. -/
def roundSecond (value : Naive) : Except Exc Naive :=
  let microsecond := value.microsecond
  let whole := (value.us : ℤ) - microsecond
  orRaise .overflowError
    (if 500000 ≤ microsecond then Naive.ofInt? (whole + secondUs) else Naive.ofInt? whole)

/-- The value a JSON column stands for: text that is JSON is the value it spells. -/
def jsonReading : JVal → JVal
  | .str s =>
    match JVal.loads s with
    | .ok v => v
    | .error _ => .str s
  | v => v

/-- `_canonical_json` of a value whose integers can be printed; `canonicalJsonText` is the same
function with the exception, and agrees on every value that was read. -/
def canonicalJson (value : JVal) : Str := JVal.dumps (jsonReading value)

/-- `value if value is not None else {}`. -/
def orEmpty : JVal → JVal
  | .null => .obj []
  | v => v

/-- The suffix of the legacy form. -/
def utcSuffix (legacyUtcSuffix : Bool) : Str := if legacyUtcSuffix = true then str "+00:00" else []

/-- The text of a timestamp in the canonical message. -/
def timestampText (legacyUtcSuffix : Bool) (t : DateTime) : Except Exc Str := do
  let value ← toNaiveUtc t
  let value ← roundSecond value
  return value.isoformat ++ utcSuffix legacyUtcSuffix

/-- The text of a text column; `NULL` is `None`. -/
def noneText : Option Str → Str
  | none => str "None"
  | some s => s

/-- The text of one field. -/
def fieldText (legacyUtcSuffix : Bool) : FieldValue → Except Exc Str
  | .text s => .ok (noneText s)
  | .time t => timestampText legacyUtcSuffix t
  | .json v => .ok (canonicalJson (orEmpty v))
  | .number n => .ok (intText n)

/-- `name=value`. -/
def line (name : String) (value : Str) : Str := str name ++ cp '=' :: value

/-- `"\n".join(parts)`. -/
def joinLines : List Str → Str
  | [] => []
  | [p] => p
  | p :: q :: ps => p ++ cp '\n' :: joinLines (q :: ps)

/-- The values of a record's fields, in order. -/
def fieldTexts (legacyUtcSuffix : Bool) (record : List (String × FieldValue)) :
    Except Exc (List Str) :=
  record.mapM fun f => fieldText legacyUtcSuffix f.2

/-- The line of the key id, where there is one. -/
def keyIdLine : Option Str → List Str
  | none => []
  | some keyId => [line "integrity_key_id" keyId]

/-- The canonical message before it is encoded. -/
def messageText (names : List String) (values : List Str) (keyId : Option Str) : Str :=
  joinLines (List.zipWith line names values ++ keyIdLine keyId)

/-- `_canonical_message`. -/
def canonicalMessage (record : List (String × FieldValue)) (legacyUtcSuffix : Bool)
    (keyId : Option Str) : Except Exc Utf8 := do
  let values ← fieldTexts legacyUtcSuffix record
  encode (messageText (record.map Prod.fst) values keyId)

/-- `AUDIT_EVENT_FIELDS` of a row. -/
def auditEventFields (r : AuditRow) : List (String × FieldValue) :=
  [("event_id", .text (some r.event_id)), ("timestamp", .time (.naive r.timestamp)),
    ("service", .text (some r.service)), ("event_type", .text (some r.event_type)),
    ("user_id", .text r.user_id), ("organization_id", .text r.organization_id),
    ("tenant_scope", .text (some r.tenant_scope)), ("action", .text (some r.action)),
    ("resource", .text r.resource), ("decision", .text r.decision),
    ("reason", .text r.reason), ("trace_id", .text r.trace_id), ("context", .json r.context),
    ("integrity_status", .text (some r.integrity_status))]

/-- `QUARANTINE_RECORD_FIELDS` of a row. -/
def quarantineRecordFields (r : QuarantineRow) : List (String × FieldValue) :=
  [("stream_message_id", .text (some r.stream_message_id)), ("raw_data", .text r.raw_data),
    ("raw_signature", .text r.raw_signature), ("service", .text r.service),
    ("failure_category", .text (some r.failure_category)),
    ("failure_detail", .text r.failure_detail), ("delivery_attempts", .number r.delivery_attempts)]

variable (C : Crypto)

/-- `_integrity_key`. -/
def integrityKey (secret : Str) : Except Exc Bytes :=
  (encode (domainLabel ++ cp ':' :: secret)).map C.sha256

/-- The HMAC of a record's canonical message. -/
def recordHash (record : List (String × FieldValue)) (legacyUtcSuffix : Bool) (secret : Str)
    (keyId : Option Str) : Except Exc Str := do
  let key ← integrityKey C secret
  let message ← canonicalMessage record legacyUtcSuffix keyId
  return C.hmacSha256 key message

/-- `compute_audit_event_hash`. -/
def computeAuditEventHash (r : AuditRow) (secret : Str) (keyId : Option Str) : Except Exc Str :=
  recordHash C (auditEventFields r) false secret keyId

/-- `compute_quarantine_record_hash`. -/
def computeQuarantineRecordHash (r : QuarantineRow) (secret : Str) (keyId : Option Str) :
    Except Exc Str :=
  recordHash C (quarantineRecordFields r) false secret keyId

/-- A stored hash against a computed one: no stored hash and a failed computation are
`False`. -/
def hashMatches (stored : Option Str) (computed : Except Exc Str) : Except Exc Bool :=
  match stored with
  | none => .ok false
  | some stored =>
    if stored = [] then .ok false
    else
      match computed with
      | .error _ => .ok false
      | .ok expected => compareDigest stored expected

/-- `audit_event_hash_matches_legacy_utc_form`. -/
def auditEventHashMatchesLegacyUtcForm (r : AuditRow) (secret : Str) : Except Exc Bool :=
  hashMatches r.record_integrity_hash (recordHash C (auditEventFields r) true secret none)

/-- `verify_audit_event_hash`. A row that hashes to something else gets a second chance in the
legacy form, unless there is no hash at all or the computation failed. -/
def verifyAuditEventHash (r : AuditRow) (secret : Str) (keyId : Option Str) : Except Exc Bool :=
  match r.record_integrity_hash, computeAuditEventHash C r secret keyId with
  | some stored, .ok expected =>
    if stored = [] then .ok false
    else do
      if ← compareDigest stored expected then return true
      else if keyId = none then auditEventHashMatchesLegacyUtcForm C r secret
      else return false
  | _, _ => .ok false

/-- `verify_quarantine_record_hash`. -/
def verifyQuarantineRecordHash (r : QuarantineRow) (secret : Str) (keyId : Option Str) :
    Except Exc Bool :=
  hashMatches r.record_integrity_hash (computeQuarantineRecordHash C r secret keyId)

/-! ## What the hash depends on -/

theorem roundSecond_eq (t : Naive) :
    roundSecond t = orRaise .overflowError t.storeSecond? := by
  have hmicro : t.microsecond = t.us % 1000000 := rfl
  have hround : (if 500000 ≤ t.microsecond then Naive.ofInt? ((t.us : ℤ) - t.microsecond + secondUs)
      else Naive.ofInt? ((t.us : ℤ) - t.microsecond)) = t.storeSecond? := by
    unfold Naive.storeSecond? secondUs
    by_cases h : 500000 ≤ t.microsecond
    · rw [if_pos h]
      congr 1
      omega
    · rw [if_neg h]
      congr 1
      omega
  rw [← hround]
  rfl

/-- The canonical text of a naive timestamp is that of the second the database keeps. -/
theorem timestampText_naive (t : Naive) (legacy : Bool) :
    timestampText legacy (.naive t) =
      (orRaise .overflowError t.storeSecond?).map fun u => u.isoformat ++ utcSuffix legacy := by
  have hnaive : toNaiveUtc (.naive t) = .ok t := rfl
  rw [timestampText, hnaive, ok_bind, roundSecond_eq]
  cases t.storeSecond? <;> simp [orRaise, Except.map, bind, Except.bind]

theorem timestampText_stored {t u : Naive} (h : t.storeSecond? = some u) (legacy : Bool) :
    timestampText legacy (.naive t) = timestampText legacy (.naive u) := by
  rw [timestampText_naive, timestampText_naive, h,
    Naive.storeSecond?_of_whole (Naive.storeSecond?_whole h)]

/-- The canonical text of a whole second. -/
theorem timestampText_whole {t : Naive} (h : t.Whole) (legacy : Bool) :
    timestampText legacy (.naive t) = .ok (t.isoformat ++ utcSuffix legacy) := by
  rw [timestampText_naive, Naive.storeSecond?_of_whole h, orRaise_some, Except.map]

/-- The values of the fields, as a list of computations. -/
theorem fieldTexts_eq (legacy : Bool) (record : List (String × FieldValue)) :
    fieldTexts legacy record = (record.map fun f => fieldText legacy f.2).mapM id := by
  induction record with
  | nil => rfl
  | cons f record ih =>
    unfold fieldTexts at ih ⊢
    rw [List.mapM_cons, List.map_cons, List.mapM_cons, ih]
    rfl

/-- The hash depends on a record only through the names and the texts of its fields. -/
theorem recordHash_congr {record record' : List (String × FieldValue)} {legacy : Bool}
    (hnames : record.map Prod.fst = record'.map Prod.fst)
    (htexts : (record.map fun f => fieldText legacy f.2) =
      record'.map fun f => fieldText legacy f.2) (secret : Str) (keyId : Option Str) :
    recordHash C record legacy secret keyId = recordHash C record' legacy secret keyId := by
  unfold recordHash canonicalMessage
  rw [fieldTexts_eq, fieldTexts_eq, hnames, htexts]

/-- The hash of a row is that of the row the database keeps, whatever key order or spelling the
context comes back in. -/
theorem computeAuditEventHash_stored {r : AuditRow} {t : Naive} {context : JVal}
    (ht : r.timestamp.storeSecond? = some t)
    (hcontext : canonicalJson (orEmpty context) = canonicalJson (orEmpty r.context))
    (secret : Str) (keyId : Option Str) :
    computeAuditEventHash C { r with timestamp := t, context := context } secret keyId =
      computeAuditEventHash C r secret keyId := by
  show recordHash C (auditEventFields { r with timestamp := t, context := context }) false secret
    keyId = recordHash C (auditEventFields r) false secret keyId
  refine recordHash_congr C (by rfl) ?_ secret keyId
  simp only [auditEventFields, List.map_cons, List.map_nil, fieldText, hcontext,
    timestampText_stored ht]

theorem recordHash_ascii {record : List (String × FieldValue)} {legacy : Bool} {secret : Str}
    {keyId : Option Str} {h : Str} (hh : recordHash C record legacy secret keyId = .ok h) :
    h ≠ [] ∧ isAscii h = true := by
  obtain ⟨key, -, hh⟩ := bind_eq_ok.mp hh
  obtain ⟨message, -, hh⟩ := bind_eq_ok.mp hh
  rw [← Except.ok.inj hh]
  exact ⟨C.hexdigest_ne_nil key message, C.hexdigest_ascii key message⟩

theorem hashMatches_self {record : List (String × FieldValue)} {legacy : Bool} {secret : Str}
    {keyId : Option Str} {h : Str} (hh : recordHash C record legacy secret keyId = .ok h) :
    hashMatches (some h) (.ok h) = .ok true := by
  obtain ⟨hne, hascii⟩ := recordHash_ascii C hh
  simp [hashMatches, hne, compareDigest_self hascii]

theorem hashMatches_eq_true {stored : Option Str} {computed : Except Exc Str}
    (h : hashMatches stored computed = .ok true) :
    ∃ s, stored = some s ∧ computed = .ok s := by
  cases stored with
  | none => cases h
  | some s =>
    by_cases hs : s = []
    · simp [hashMatches, hs] at h
    · cases computed with
      | error e => simp [hashMatches, hs] at h
      | ok expected =>
        simp only [hashMatches, if_neg hs] at h
        rw [compareDigest_eq_true h]
        exact ⟨expected, rfl, rfl⟩

/-- A row whose stored hash is the one computed from it verifies. -/
theorem verifyAuditEventHash_of_compute {r : AuditRow} {secret : Str} {keyId : Option Str}
    {h : Str} (hstored : r.record_integrity_hash = some h)
    (hh : computeAuditEventHash C r secret keyId = .ok h) :
    verifyAuditEventHash C r secret keyId = .ok true := by
  obtain ⟨hne, hascii⟩ := recordHash_ascii C hh
  simp only [verifyAuditEventHash, hstored, hh, if_neg hne, compareDigest_self hascii]
  rfl

/-- A row verifies only through its primary form or, without a key id, its legacy form. -/
theorem verifyAuditEventHash_eq_true {r : AuditRow} {secret : Str} {keyId : Option Str}
    (h : verifyAuditEventHash C r secret keyId = .ok true) :
    ∃ s, r.record_integrity_hash = some s ∧
      (recordHash C (auditEventFields r) false secret keyId = .ok s ∨
        (keyId = none ∧ recordHash C (auditEventFields r) true secret none = .ok s)) := by
  cases hstored : r.record_integrity_hash with
  | none => simp [verifyAuditEventHash, hstored] at h
  | some stored =>
    cases hcompute : computeAuditEventHash C r secret keyId with
    | error e => simp [verifyAuditEventHash, hstored, hcompute] at h
    | ok expected =>
      by_cases hs : stored = []
      · simp [verifyAuditEventHash, hstored, hcompute, hs] at h
      · simp only [verifyAuditEventHash, hstored, hcompute, if_neg hs] at h
        obtain ⟨same, hsame, h⟩ := bind_eq_ok.mp h
        cases same with
        | true => exact ⟨stored, rfl, .inl (by rw [compareDigest_eq_true hsame]; exact hcompute)⟩
        | false =>
          simp only [Bool.false_eq_true, if_false] at h
          split_ifs at h with hkey
          · obtain ⟨s, hs, hlegacy⟩ := hashMatches_eq_true h
            rw [hstored] at hs
            exact ⟨s, hs, .inr ⟨hkey, hlegacy⟩⟩
          · cases Except.ok.inj h

end RecordIntegrity

end SecurityAudit
