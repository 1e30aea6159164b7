import SecurityAudit.Audit.CanonicalMessage
import SecurityAudit.Audit.Record
import SecurityAudit.Json.Native
import SecurityAudit.Worker.Scenarios

/-!
# What a record hash certifies

A row that carries another row's hash and verifies should be that row. With an injective HMAC the
question is which rows have the same canonical message. The message writes `NULL` as `None`, has
no escape for the line breaks that separate its fields, and writes a JSON string as the value it
spells, so the answer depends on what the row itself holds.
-/

namespace SecurityAudit

open RecordIntegrity

/-! ## Rows as they are read -/

/-- A value of a JSON column. -/
structure JVal.Returned (v : JVal) : Prop where
  native : v.JsonNative
  fits : v.intsFit = true

/-- The contexts stand for the same JSON value: text is the value it spells, `null` is `{}`. -/
def SameContent (v w : JVal) : Prop :=
  (jsonReading (orEmpty v)).SameJson (jsonReading (orEmpty w))

/-- A row of `audit_events` as the ORM returns it: whole seconds and JSON. -/
structure AuditRow.Returned (r : AuditRow) : Prop where
  timestamp : r.timestamp.Whole
  context : r.context.Returned

/-- Two columns hold the same, for a notion of the same JSON. -/
def FieldValue.Same (sameJson : JVal → JVal → Prop) : FieldValue → FieldValue → Prop
  | .json v, .json w => sameJson v w
  | v, w => v = w

/-- Two records hold the same in every field. -/
def Agree (sameJson : JVal → JVal → Prop) (record record' : List (String × FieldValue)) : Prop :=
  List.Forall₂ (fun f g => f.1 = g.1 ∧ f.2.Same sameJson g.2) record record'

section Hash

variable {C : Crypto} {record record' : List (String × FieldValue)} {legacy legacy' : Bool}
  {secret h : Str} {keyId : Option Str} {values values' : List Str}

theorem recordHash_eq_ok (hvalues : fieldTexts legacy record = .ok values) :
    recordHash C record legacy secret keyId = .ok h ↔
      ∃ key u, integrityKey C secret = .ok key ∧
        encode (messageText (record.map Prod.fst) values keyId) = .ok u ∧
        h = C.hmacSha256 key u := by
  unfold recordHash canonicalMessage
  rw [hvalues, ok_bind, bind_eq_ok]
  simp only [bind_eq_ok, pure_ok, Except.ok.injEq, eq_comm (a := h)]
  constructor
  · rintro ⟨key, hkey, u, hu, hh⟩
    exact ⟨key, u, hkey, hu, hh⟩
  · rintro ⟨key, u, hkey, hu, hh⟩
    exact ⟨key, hkey, u, hu, hh⟩

/-- Two records have the same hash exactly if they have the same message. -/
theorem recordHash_eq_iff (hinj : ∀ key, Function.Injective (C.hmacSha256 key))
    (hvalues : fieldTexts legacy record = .ok values)
    (hvalues' : fieldTexts legacy' record' = .ok values')
    (hh : recordHash C record legacy secret keyId = .ok h) :
    recordHash C record' legacy' secret keyId = .ok h ↔
      messageText (record'.map Prod.fst) values' keyId =
        messageText (record.map Prod.fst) values keyId := by
  obtain ⟨key, u, hkey, hu, rfl⟩ := (recordHash_eq_ok hvalues).mp hh
  rw [recordHash_eq_ok hvalues']
  constructor
  · rintro ⟨key', u', hkey', hu', hsame⟩
    obtain rfl : key = key' := Except.ok.inj (hkey.symm.trans hkey')
    rw [hinj key hsame] at hu
    exact encode_inj hu' hu
  · intro hmessage
    rw [hmessage]
    exact ⟨key, u, hkey, hu, rfl⟩

end Hash

/-! ## The message of an event -/

/-- The fields of an event behind `event_id`. -/
def auditGaps : List Gap :=
  [⟨["timestamp"], "service"⟩, ⟨[], "event_type"⟩, ⟨[], "user_id"⟩, ⟨[], "organization_id"⟩,
    ⟨[], "tenant_scope"⟩, ⟨[], "action"⟩, ⟨[], "resource"⟩, ⟨[], "decision"⟩, ⟨[], "reason"⟩,
    ⟨[], "trace_id"⟩, ⟨["context"], "integrity_status"⟩]

/-- Their texts, with that of the timestamp. -/
def auditValues (r : AuditRow) (time : Str) : List GapValues :=
  [⟨[time], r.service⟩, ⟨[], r.event_type⟩, ⟨[], noneText r.user_id⟩,
    ⟨[], noneText r.organization_id⟩, ⟨[], r.tenant_scope⟩, ⟨[], r.action⟩,
    ⟨[], noneText r.resource⟩, ⟨[], noneText r.decision⟩, ⟨[], noneText r.reason⟩,
    ⟨[], noneText r.trace_id⟩, ⟨[canonicalJson (orEmpty r.context)], r.integrity_status⟩]

/-- The canonical message of an event. -/
def auditMessage (r : AuditRow) (time : Str) (keyId : Option Str) : Str :=
  joinLines (messageParts "event_id" r.event_id auditGaps (auditValues r time) ++ keyIdLine keyId)

/-- The texts of all its fields, in order. -/
def auditTexts (r : AuditRow) (time : Str) : List Str :=
  r.event_id :: (auditValues r time).flatMap fun V => V.between ++ [V.next]

theorem fieldTexts_audit {r : AuditRow} (h : r.timestamp.Whole) (legacy : Bool) :
    fieldTexts legacy (auditEventFields r) =
      .ok (auditTexts r (r.timestamp.isoformat ++ utcSuffix legacy)) := by
  simp only [fieldTexts, auditEventFields, List.mapM_cons, List.mapM_nil, fieldText,
    timestampText_whole h, ok_bind, pure_ok]
  rfl

theorem messageText_audit (r : AuditRow) (time : Str) (keyId : Option Str) :
    messageText ((auditEventFields r).map Prod.fst) (auditTexts r time) keyId =
      auditMessage r time keyId := rfl

/-- What the fields between the text fields of an accepted event look like: a whole second, with
the legacy suffix where there is no key id, and the canonical text of a context. -/
def AuditShape (keyId : Option Str) : String → Str → Prop
  | "timestamp", v => ∃ (t : Naive) (legacy : Bool), t.Whole ∧ (legacy = true → keyId = none) ∧
      v = t.isoformat ++ utcSuffix legacy
  | "context", v => ∃ c : JVal, c.Returned ∧ v = canonicalJson (orEmpty c)
  | _, _ => True

namespace AuditRow

/-- The texts of the text columns, in order. -/
def textColumns (r : AuditRow) : List Str :=
  [r.event_id, r.service, r.event_type, noneText r.user_id, noneText r.organization_id,
    r.tenant_scope, r.action, noneText r.resource, noneText r.decision, noneText r.reason,
    noneText r.trace_id, r.integrity_status]

/-- The columns that may be `NULL`. -/
def nullable (r : AuditRow) : List (Option Str) :=
  [r.user_id, r.organization_id, r.resource, r.decision, r.reason, r.trace_id]

/-- No column that may be `NULL` is `NULL` or reads like it, and after its first line no text
column has lines that read as the fields next to it. -/
structure Unambiguous (r : AuditRow) (keyId : Option Str) : Prop where
  present : ∀ s ∈ r.nullable, s ≠ none ∧ s ≠ some (str "None")
  columns : Layout.Quiet (ReadsAs (AuditShape keyId)) (auditGaps.map Gap.names)
    (r.textColumns.map laterLines)

/-- A row without `NULL`, `None` and line breaks in its texts is unambiguous. -/
theorem unambiguous_of_single_lines {r : AuditRow}
    (hpresent : ∀ s ∈ r.nullable, s ≠ none ∧ s ≠ some (str "None"))
    (hlines : ∀ s ∈ r.textColumns, cp '\n' ∉ s) (keyId : Option Str) : r.Unambiguous keyId := by
  refine ⟨hpresent, Layout.quiet_of_nil (by decide) ?_⟩
  intro x hx
  obtain ⟨s, hs, rfl⟩ := List.mem_map.mp hx
  exact laterLines_of_not_mem (hlines s hs)

end AuditRow

section Event

variable {C : Crypto} {r r' : AuditRow} {secret h time : Str} {keyId : Option Str}

/-- A row verifies exactly if its message, in a form that is accepted, is the one that was
hashed. -/
theorem verifyAuditEventHash_iff (hinj : ∀ key, Function.Injective (C.hmacSha256 key))
    (hr : r.timestamp.Whole) (hr' : r'.timestamp.Whole)
    (hh : computeAuditEventHash C r secret keyId = .ok h)
    (hstored : r'.record_integrity_hash = some h) :
    verifyAuditEventHash C r' secret keyId = .ok true ↔
      ∃ legacy, (legacy = true → keyId = none) ∧
        auditMessage r' (r'.timestamp.isoformat ++ utcSuffix legacy) keyId =
          auditMessage r (r.timestamp.isoformat ++ utcSuffix false) keyId := by
  have hform : ∀ legacy, recordHash C (auditEventFields r') legacy secret keyId = .ok h ↔
      auditMessage r' (r'.timestamp.isoformat ++ utcSuffix legacy) keyId =
        auditMessage r (r.timestamp.isoformat ++ utcSuffix false) keyId := by
    intro legacy
    have hiff := recordHash_eq_iff hinj (fieldTexts_audit hr false) (fieldTexts_audit hr' legacy) hh
    rwa [messageText_audit, messageText_audit] at hiff
  simp only [← hform]
  constructor
  · intro hverify
    obtain ⟨s, hs, hprimary | ⟨hkey, hlegacy⟩⟩ := verifyAuditEventHash_eq_true C hverify
    · obtain rfl : h = s := Option.some.inj (hstored.symm.trans hs)
      exact ⟨false, by simp, hprimary⟩
    · obtain rfl : h = s := Option.some.inj (hstored.symm.trans hs)
      subst hkey
      exact ⟨true, fun _ => rfl, hlegacy⟩
  · rintro ⟨legacy, hkey, hhash⟩
    cases legacy with
    | false => exact verifyAuditEventHash_of_compute C hstored hhash
    | true =>
      obtain rfl := hkey rfl
      -- the primary form has a hash wherever the legacy form has one
      have hcanonical : r'.record.Canonical auditEventFieldNames secret none :=
        (recordHash_isOk C true).mp ⟨h, hhash⟩
      obtain ⟨e, he⟩ := (recordHash_isOk C false).mpr hcanonical
      have hcompute : computeAuditEventHash C r' secret none = .ok e := he
      obtain ⟨hne, hascii⟩ := recordHash_ascii C hhash
      obtain ⟨-, hascii'⟩ := recordHash_ascii C he
      by_cases hsame : h = e
      · rw [← hsame] at hcompute
        exact verifyAuditEventHash_of_compute C hstored hcompute
      · have hcompare : compareDigest h e = .ok false := by
          simp [compareDigest, hascii, hascii', hsame]
        simp only [verifyAuditEventHash, hstored, hcompute, if_neg hne, hcompare, ok_bind,
          Bool.false_eq_true, if_false, if_true]
        rw [auditEventHashMatchesLegacyUtcForm, hstored, hhash]
        exact hashMatches_self C hhash

theorem not_mem_isoformat {t : Naive} {legacy : Bool} :
    cp '\n' ∉ t.isoformat ++ utcSuffix legacy := by
  rw [List.mem_append, not_or]
  constructor
  · intro hmem
    rcases Naive.mem_isoformat hmem with hdigit | h | h | h | h
    · exact absurd hdigit (by decide)
    all_goals exact absurd h (by decide)
  · cases legacy <;> decide

theorem not_mem_canonicalJson (v : JVal) : cp '\n' ∉ canonicalJson v := by
  intro hmem
  have hprintable := JVal.printable_dumps (jsonReading v) _ hmem
  exact absurd hprintable (by decide)

theorem fits_audit (hr : r.Returned) {legacy : Bool} (hlegacy : legacy = true → keyId = none) :
    List.Forall₂ (Fits (AuditShape keyId)) auditGaps
      (auditValues r (r.timestamp.isoformat ++ utcSuffix legacy)) := by
  have htime : AuditShape keyId "timestamp" (r.timestamp.isoformat ++ utcSuffix legacy) :=
    ⟨r.timestamp, legacy, hr.timestamp, hlegacy, rfl⟩
  have hcontext : AuditShape keyId "context" (canonicalJson (orEmpty r.context)) :=
    ⟨r.context, hr.context, rfl⟩
  refine .cons (.cons ⟨htime, not_mem_isoformat⟩ .nil) ?_
  iterate 9 refine .cons .nil ?_
  exact .cons (.cons ⟨hcontext, not_mem_canonicalJson _⟩ .nil) .nil

theorem fits_nil {Shape : String → Str → Prop} {next : String} {V : GapValues}
    (h : Fits Shape ⟨[], next⟩ V) : V = ⟨[], V.next⟩ := by
  obtain ⟨between, next⟩ := V
  rw [show between = [] from List.forall₂_nil_left_iff.mp h]

theorem fits_singleton {Shape : String → Str → Prop} {name next : String} {V : GapValues}
    (h : Fits Shape ⟨[name], next⟩ V) : ∃ v, V = ⟨[v], V.next⟩ ∧ Shape name v := by
  obtain ⟨between, next⟩ := V
  obtain ⟨v, vs, ⟨hv, -⟩, hvs, hbetween⟩ := List.forall₂_cons_left_iff.mp h
  obtain rfl := List.forall₂_nil_left_iff.mp hvs
  exact ⟨v, by rw [show between = [v] from hbetween], hv⟩

/-- Values of the right shapes are those of a row. -/
theorem exists_auditRow {Vs : List GapValues}
    (hfit : List.Forall₂ (Fits (AuditShape keyId)) auditGaps Vs) (s : Str) (stored : Option Str) :
    ∃ (r' : AuditRow) (legacy : Bool), (legacy = true → keyId = none) ∧ r'.Returned ∧
      r'.event_id = s ∧ r'.record_integrity_hash = stored ∧
      auditValues r' (r'.timestamp.isoformat ++ utcSuffix legacy) = Vs := by
  simp only [auditGaps, List.forall₂_cons_left_iff, List.forall₂_nil_left_iff] at hfit
  obtain ⟨service, _, hservice, ⟨event_type, _, h₂, ⟨user_id, _, h₃, ⟨organization_id, _, h₄,
    ⟨tenant_scope, _, h₅, ⟨action, _, h₆, ⟨resource, _, h₇, ⟨decision, _, h₈, ⟨reason, _, h₉,
    ⟨trace_id, _, h₁₀, ⟨status, _, hstatus, rfl, rfl⟩, rfl⟩, rfl⟩, rfl⟩, rfl⟩, rfl⟩, rfl⟩, rfl⟩,
    rfl⟩, rfl⟩, rfl⟩ := hfit
  obtain ⟨time, hservice, t, legacy, ht, hlegacy, rfl⟩ := fits_singleton hservice
  obtain ⟨text, hstatus, c, hc, rfl⟩ := fits_singleton hstatus
  refine ⟨{
    event_id := s, timestamp := t, service := service.next, event_type := event_type.next,
    user_id := some user_id.next, organization_id := some organization_id.next,
    tenant_scope := tenant_scope.next, action := action.next, resource := some resource.next,
    decision := some decision.next, reason := some reason.next, trace_id := some trace_id.next,
    context := c, integrity_status := status.next, record_integrity_hash := stored,
    integrity_key_id := keyId }, legacy, hlegacy, ⟨ht, hc⟩, rfl, rfl, ?_⟩
  rw [hservice, fits_nil h₂, fits_nil h₃, fits_nil h₄, fits_nil h₅, fits_nil h₆, fits_nil h₇,
    fits_nil h₈, fits_nil h₉, fits_nil h₁₀, hstatus]
  rfl

/-! ## Columns and texts -/

theorem wellFormed_jsonReading {v : JVal} (h : v.Returned) :
    (jsonReading (orEmpty v)).WellFormed := by
  have hwell := h.native.wellFormed h.fits
  cases v with
  | null => exact .obj (by simp) (by simp) (by simp)
  | str s =>
    have hclean : JVal.Clean s := by
      cases h.native with
      | str hclean => exact hclean
    show (jsonReading (.str s)).WellFormed
    cases hloads : JVal.loads s with
    | ok v =>
      rw [jsonReading, hloads]
      exact JVal.wellFormed_loads hclean hloads
    | error e =>
      rw [jsonReading, hloads]
      exact hwell
  | _ => exact hwell

/-- Contexts have the same text exactly if they stand for the same value. -/
theorem canonicalJson_eq_iff {v w : JVal} (hv : v.Returned) (hw : w.Returned) :
    canonicalJson (orEmpty v) = canonicalJson (orEmpty w) ↔ SameContent v w :=
  JVal.dumps_eq_iff (wellFormed_jsonReading hv) (wellFormed_jsonReading hw)

/-- A text that is not `None` comes from one value only. -/
theorem noneText_inj {s s' : Option Str} (hs : s ≠ none ∧ s ≠ some (str "None"))
    (h : noneText s' = noneText s) : s' = s := by
  cases s with
  | none => exact absurd rfl hs.1
  | some a =>
    cases s' with
    | none => exact absurd (congrArg some h).symm hs.2
    | some b => exact congrArg some h

/-- `NULL` and `None` have the same text. -/
theorem exists_same_noneText {s : Option Str} (h : ¬(s ≠ none ∧ s ≠ some (str "None"))) :
    ∃ s', s' ≠ s ∧ noneText s' = noneText s := by
  cases s with
  | none => exact ⟨some (str "None"), by simp, rfl⟩
  | some a =>
    have ha : a = str "None" := by simpa using h
    exact ⟨none, by simp, by rw [ha]; rfl⟩

/-- What rows that agree have in common. -/
theorem agree_audit {sameJson : JVal → JVal → Prop} :
    Agree sameJson (auditEventFields r) (auditEventFields r') ↔
    r.event_id = r'.event_id ∧ r.timestamp = r'.timestamp ∧ r.service = r'.service ∧
      r.event_type = r'.event_type ∧ r.user_id = r'.user_id ∧
      r.organization_id = r'.organization_id ∧ r.tenant_scope = r'.tenant_scope ∧
      r.action = r'.action ∧ r.resource = r'.resource ∧ r.decision = r'.decision ∧
      r.reason = r'.reason ∧ r.trace_id = r'.trace_id ∧ sameJson r.context r'.context ∧
      r.integrity_status = r'.integrity_status := by
  simp [Agree, auditEventFields, FieldValue.Same]

/-- Rows that agree have the same texts. -/
theorem auditValues_of_agree (hr : r.Returned) (hr' : r'.Returned)
    (h : Agree SameContent (auditEventFields r) (auditEventFields r')) :
    auditValues r' time = auditValues r time := by
  obtain ⟨-, -, h₃, h₄, h₅, h₆, h₇, h₈, h₉, h₁₀, h₁₁, h₁₂, hcontext, h₁₄⟩ := agree_audit.mp h
  have hjson := (canonicalJson_eq_iff hr.context hr'.context).mpr hcontext
  rw [auditValues, auditValues, ← h₃, ← h₄, ← h₅, ← h₆, ← h₇, ← h₈, ← h₉, ← h₁₀, ← h₁₁, ← h₁₂,
    hjson, ← h₁₄]

/-- Rows with the same texts agree, where `NULL` is told from `None`. -/
theorem agree_of_auditValues {time' : Str} (hr : r.Returned) (hr' : r'.Returned)
    (hpresent : ∀ s ∈ r.nullable, s ≠ none ∧ s ≠ some (str "None"))
    (hid : r'.event_id = r.event_id) (htime : r'.timestamp = r.timestamp)
    (h : auditValues r' time' = auditValues r time) :
    Agree SameContent (auditEventFields r) (auditEventFields r') := by
  simp only [auditValues, List.cons.injEq, GapValues.mk.injEq, and_true, true_and] at h
  obtain ⟨⟨-, h₃⟩, h₄, h₅, h₆, h₇, h₈, h₉, h₁₀, h₁₁, h₁₂, hjson, h₁₄⟩ := h
  simp only [AuditRow.nullable, List.forall_mem_cons] at hpresent
  obtain ⟨p₅, p₆, p₉, p₁₀, p₁₁, p₁₂, -⟩ := hpresent
  have hcontext := (canonicalJson_eq_iff hr.context hr'.context).mp hjson.symm
  exact agree_audit.mpr ⟨hid.symm, htime.symm, h₃.symm, h₄.symm, (noneText_inj p₅ h₅).symm,
    (noneText_inj p₆ h₆).symm, h₇.symm, h₈.symm, (noneText_inj p₉ h₉).symm,
    (noneText_inj p₁₀ h₁₀).symm, (noneText_inj p₁₁ h₁₁).symm, (noneText_inj p₁₂ h₁₂).symm,
    hcontext, h₁₄.symm⟩

/-- The time can be read off a message of a known row. -/
theorem auditMessage_inj_time {time' : Str}
    (h : auditMessage r time' keyId = auditMessage r time keyId) : time' = time := by
  simp only [auditMessage, messageParts, auditGaps, auditValues, List.zipWith_cons_cons,
    Gap.parts, List.flatten_cons, List.cons_append, joinLines] at h
  have htail := (List.cons.inj (List.append_cancel_left h)).2
  have hline := List.append_cancel_right htail
  exact (line_inj (by decide) (by decide) hline).2

/-! ## What the hash of an event certifies -/

/-- Only rows that agree with the row carry its hash and verify. -/
def Covers (C : Crypto) (sameJson : JVal → JVal → Prop) (secret : Str) (keyId : Option Str)
    (r : AuditRow) (h : Str) : Prop :=
  ∀ r' : AuditRow, r'.Returned → r'.record_integrity_hash = some h →
    verifyAuditEventHash C r' secret keyId = .ok true →
    Agree sameJson (auditEventFields r) (auditEventFields r')

theorem plainName_event : PlainName "event_id" ∧
    (∀ G ∈ auditGaps, ∀ n ∈ G.names, PlainName n) ∧ (auditGaps.map Gap.names).flatten.Nodup := by
  decide

theorem shape_next : ∀ G ∈ auditGaps, ∀ v, AuditShape keyId G.next v := by
  simp only [auditGaps, List.forall_mem_cons]
  refine ⟨?_, ?_, ?_, ?_, ?_, ?_, ?_, ?_, ?_, ?_, ?_, by simp⟩
  all_goals exact fun v => trivial

/-- The values can be read off the message exactly if the text columns are quiet. -/
theorem auditMessage_unique_iff (hr : r.Returned) :
    (∀ s Vs, List.Forall₂ (Fits (AuditShape keyId)) auditGaps Vs →
      joinLines (messageParts "event_id" s auditGaps Vs ++ keyIdLine keyId) =
        auditMessage r (r.timestamp.isoformat ++ utcSuffix false) keyId →
      s = r.event_id ∧ Vs = auditValues r (r.timestamp.isoformat ++ utcSuffix false)) ↔
      Layout.Quiet (ReadsAs (AuditShape keyId)) (auditGaps.map Gap.names)
        (r.textColumns.map laterLines) :=
  message_unique_iff plainName_event.1 plainName_event.2.1 plainName_event.2.2 shape_next
    (fits_audit hr (by simp)) r.event_id (keyIdLine keyId)

/-- A row that is covered tells `NULL` from `None` in every column. -/
theorem Covers.present (hinj : ∀ key, Function.Injective (C.hmacSha256 key)) (hr : r.Returned)
    (hh : computeAuditEventHash C r secret keyId = .ok h)
    (hcovers : Covers C SameContent secret keyId r h) :
    ∀ s ∈ r.nullable, s ≠ none ∧ s ≠ some (str "None") := by
  have hsame : ∀ r' : AuditRow, r'.Returned → r'.record_integrity_hash = some h →
      auditMessage r' (r'.timestamp.isoformat ++ utcSuffix false) keyId =
        auditMessage r (r.timestamp.isoformat ++ utcSuffix false) keyId →
      Agree SameContent (auditEventFields r) (auditEventFields r') := by
    intro r' hr' hstored hmessage
    refine hcovers r' hr' hstored ?_
    rw [verifyAuditEventHash_iff hinj hr.timestamp hr'.timestamp hh hstored]
    exact ⟨false, by simp, hmessage⟩
  intro s hs
  by_contra hambiguous
  obtain ⟨s', hne, htext⟩ := exists_same_noneText hambiguous
  simp only [AuditRow.nullable, List.mem_cons, List.not_mem_nil, or_false] at hs
  rcases hs with rfl | rfl | rfl | rfl | rfl | rfl
  · have hagree := agree_audit.mp (hsame { r with user_id := s', record_integrity_hash := some h }
      ⟨hr.timestamp, hr.context⟩ rfl (by simp only [auditMessage, auditValues, htext]))
    exact hne hagree.2.2.2.2.1.symm
  · have hagree := agree_audit.mp (hsame
      { r with organization_id := s', record_integrity_hash := some h }
      ⟨hr.timestamp, hr.context⟩ rfl (by simp only [auditMessage, auditValues, htext]))
    exact hne hagree.2.2.2.2.2.1.symm
  · have hagree := agree_audit.mp (hsame { r with resource := s', record_integrity_hash := some h }
      ⟨hr.timestamp, hr.context⟩ rfl (by simp only [auditMessage, auditValues, htext]))
    exact hne hagree.2.2.2.2.2.2.2.2.1.symm
  · have hagree := agree_audit.mp (hsame { r with decision := s', record_integrity_hash := some h }
      ⟨hr.timestamp, hr.context⟩ rfl (by simp only [auditMessage, auditValues, htext]))
    exact hne hagree.2.2.2.2.2.2.2.2.2.1.symm
  · have hagree := agree_audit.mp (hsame { r with reason := s', record_integrity_hash := some h }
      ⟨hr.timestamp, hr.context⟩ rfl (by simp only [auditMessage, auditValues, htext]))
    exact hne hagree.2.2.2.2.2.2.2.2.2.2.1.symm
  · have hagree := agree_audit.mp (hsame { r with trace_id := s', record_integrity_hash := some h }
      ⟨hr.timestamp, hr.context⟩ rfl (by simp only [auditMessage, auditValues, htext]))
    exact hne hagree.2.2.2.2.2.2.2.2.2.2.2.1.symm

/-- **A hash covers its row, up to what the context stands for, exactly if the row is
unambiguous.** -/
theorem covers_iff (hinj : ∀ key, Function.Injective (C.hmacSha256 key)) (hr : r.Returned)
    (hh : computeAuditEventHash C r secret keyId = .ok h) :
    Covers C SameContent secret keyId r h ↔ r.Unambiguous keyId := by
  constructor
  · intro hcovers
    refine ⟨hcovers.present hinj hr hh, (auditMessage_unique_iff hr).mp ?_⟩
    intro s Vs hfit hmessage
    obtain ⟨r', legacy, hlegacy, hr', rfl, hstored, rfl⟩ := exists_auditRow hfit s (some h)
    have hverify : verifyAuditEventHash C r' secret keyId = .ok true := by
      rw [verifyAuditEventHash_iff hinj hr.timestamp hr'.timestamp hh hstored]
      exact ⟨legacy, hlegacy, hmessage⟩
    have hagree := hcovers r' hr' hstored hverify
    have hid : r'.event_id = r.event_id := (agree_audit.mp hagree).1.symm
    have hvalues : auditValues r' (r'.timestamp.isoformat ++ utcSuffix legacy) =
        auditValues r (r'.timestamp.isoformat ++ utcSuffix legacy) :=
      auditValues_of_agree hr hr' hagree
    rw [hid, hvalues] at hmessage
    exact ⟨hid, by rw [hvalues, auditMessage_inj_time hmessage]⟩
  · intro hunambiguous r' hr' hstored hverify
    obtain ⟨legacy, hlegacy, hmessage⟩ :=
      (verifyAuditEventHash_iff hinj hr.timestamp hr'.timestamp hh hstored).mp hverify
    obtain ⟨hid, hvalues⟩ := (auditMessage_unique_iff hr).mpr hunambiguous.columns r'.event_id _
      (fits_audit hr' hlegacy) hmessage
    -- the text of the time has no suffix
    have htime : r'.timestamp.isoformat ++ utcSuffix legacy =
        r.timestamp.isoformat ++ utcSuffix false := by
      simp only [auditValues, List.cons.injEq, GapValues.mk.injEq, and_true] at hvalues
      exact hvalues.1.1
    have hlength : r'.timestamp.isoformat.length = r.timestamp.isoformat.length := by
      rw [Naive.length_isoformat hr'.timestamp, Naive.length_isoformat hr.timestamp]
    have hclock : r'.timestamp = r.timestamp :=
      Naive.isoformat_inj (List.append_inj htime hlength).1
    exact agree_of_auditValues hr hr' hunambiguous.present hid hclock hvalues

/-- There is always a string that has the canonical text of a context and is not the context. -/
theorem exists_other_context {v : JVal} (h : v.Returned) :
    ∃ w : JVal, w.Returned ∧ ¬v.SameJson w ∧
      canonicalJson (orEmpty w) = canonicalJson (orEmpty v) := by
  have hwell := wellFormed_jsonReading h
  set text := canonicalJson (orEmpty v) with htext
  have hprintable : JVal.Printable text := JVal.printable_dumps _
  have hspells : ∀ s, JVal.loads s = .ok (jsonReading (orEmpty v)).sortKeys →
      canonicalJson (orEmpty (.str s)) = text := by
    intro s hs
    show JVal.dumps (jsonReading (.str s)) = text
    rw [jsonReading, hs]
    exact JVal.dumps_sortKeys _
  have hreturned : ∀ s, JVal.Clean s → JVal.Returned (.str s) := fun s hs => ⟨.str hs, rfl⟩
  have hclean : JVal.Clean text := clean_of_printable hprintable
  by_cases hsame : v.SameJson (.str text)
  · -- the context is that string already: put a blank in front
    refine ⟨.str (cp ' ' :: text), hreturned _ (clean_cons.mpr ⟨isSurrogate_cp _, hclean⟩), ?_,
      hspells _ (JVal.loads_blank_dumps hwell)⟩
    intro hblank
    have hstrings : JVal.str (cp ' ' :: text) = .str text := hblank.symm.trans hsame
    have hlength := congrArg List.length (JVal.str.inj hstrings)
    simp at hlength
  · exact ⟨.str text, hreturned _ hclean, hsame, hspells _ (JVal.loads_dumps hwell)⟩

/-- **No hash covers the context itself**: a string that spells it is accepted in its place. -/
theorem not_covers (hr : r.Returned) (hh : computeAuditEventHash C r secret keyId = .ok h) :
    ¬Covers C JVal.SameJson secret keyId r h := by
  intro hcovers
  obtain ⟨w, hw, hother, hsame⟩ := exists_other_context hr.context
  have hcompute := computeAuditEventHash_stored C (Naive.storeSecond?_of_whole hr.timestamp) hsame
    secret keyId
  rw [hh] at hcompute
  have hagree := hcovers { r with context := w, record_integrity_hash := some h }
    ⟨hr.timestamp, hw⟩ rfl (verifyAuditEventHash_of_compute C rfl hcompute)
  exact hother (agree_audit.mp hagree).2.2.2.2.2.2.2.2.2.2.2.2.1

end Event

/-! ## What the hash of a quarantined record certifies -/

/-- The text fields of a quarantined record behind `stream_message_id`. -/
def quarantineGaps : List Gap :=
  [⟨[], "raw_data"⟩, ⟨[], "raw_signature"⟩, ⟨[], "service"⟩, ⟨[], "failure_category"⟩,
    ⟨[], "failure_detail"⟩]

/-- Their texts. -/
def quarantineValues (q : QuarantineRow) : List GapValues :=
  [⟨[], noneText q.raw_data⟩, ⟨[], noneText q.raw_signature⟩, ⟨[], noneText q.service⟩,
    ⟨[], q.failure_category⟩, ⟨[], noneText q.failure_detail⟩]

/-- The lines behind the text fields. -/
def quarantineEnd (q : QuarantineRow) (keyId : Option Str) : List Str :=
  line "delivery_attempts" (intText q.delivery_attempts) :: keyIdLine keyId

/-- The canonical message of a quarantined record. -/
def quarantineMessage (q : QuarantineRow) (keyId : Option Str) : Str :=
  joinLines (messageParts "stream_message_id" q.stream_message_id quarantineGaps
    (quarantineValues q) ++ quarantineEnd q keyId)

/-- The texts of all its fields, in order. -/
def quarantineTexts (q : QuarantineRow) : List Str :=
  q.stream_message_id :: ((quarantineValues q).flatMap fun V => V.between ++ [V.next]) ++
    [intText q.delivery_attempts]

theorem fieldTexts_quarantined (q : QuarantineRow) :
    fieldTexts false (quarantineRecordFields q) = .ok (quarantineTexts q) := rfl

/-- A text field may hold anything. -/
abbrev AnyShape (_ : String) (_ : Str) : Prop := True

namespace QuarantineRow

/-- The texts of the text columns, in order. -/
def textColumns (q : QuarantineRow) : List Str :=
  [q.stream_message_id, noneText q.raw_data, noneText q.raw_signature, noneText q.service,
    q.failure_category, noneText q.failure_detail]

/-- The columns that may be `NULL`. -/
def nullable (q : QuarantineRow) : List (Option Str) :=
  [q.raw_data, q.raw_signature, q.service, q.failure_detail]

/-- No column that may be `NULL` is `NULL` or reads like it, and after its first line no text
column has a line that reads as a field next to it. -/
structure Unambiguous (q : QuarantineRow) : Prop where
  present : ∀ s ∈ q.nullable, s ≠ none ∧ s ≠ some (str "None")
  columns : Layout.Quiet (ReadsAs AnyShape) (quarantineGaps.map Gap.names)
    (q.textColumns.map laterLines)

/-- A record without `NULL`, `None` and line breaks in its texts is unambiguous. -/
theorem unambiguous_of_single_lines {q : QuarantineRow}
    (hpresent : ∀ s ∈ q.nullable, s ≠ none ∧ s ≠ some (str "None"))
    (hlines : ∀ s ∈ q.textColumns, cp '\n' ∉ s) : q.Unambiguous := by
  refine ⟨hpresent, Layout.quiet_of_nil (by decide) ?_⟩
  intro x hx
  obtain ⟨s, hs, rfl⟩ := List.mem_map.mp hx
  exact laterLines_of_not_mem (hlines s hs)

end QuarantineRow

section Quarantine

variable {C : Crypto} {q q' : QuarantineRow} {secret h : Str} {keyId : Option Str}

/-- Only rows that agree with the row carry its hash and verify. -/
def CoversQuarantined (C : Crypto) (secret : Str) (keyId : Option Str) (q : QuarantineRow)
    (h : Str) : Prop :=
  ∀ q' : QuarantineRow, q'.record_integrity_hash = some h →
    verifyQuarantineRecordHash C q' secret keyId = .ok true →
    Agree SameContent (quarantineRecordFields q) (quarantineRecordFields q')

theorem verifyQuarantineRecordHash_iff (hinj : ∀ key, Function.Injective (C.hmacSha256 key))
    (hh : computeQuarantineRecordHash C q secret keyId = .ok h)
    (hstored : q'.record_integrity_hash = some h) :
    verifyQuarantineRecordHash C q' secret keyId = .ok true ↔
      quarantineMessage q' keyId = quarantineMessage q keyId := by
  have hiff : recordHash C (quarantineRecordFields q') false secret keyId = .ok h ↔
      quarantineMessage q' keyId = quarantineMessage q keyId :=
    recordHash_eq_iff hinj (fieldTexts_quarantined q) (fieldTexts_quarantined q') hh
  rw [← hiff]
  constructor
  · intro hverify
    obtain ⟨s, hs, hhash⟩ := hashMatches_eq_true hverify
    rw [Option.some.inj (hstored.symm.trans hs)]
    exact hhash
  · intro hhash
    rw [verifyQuarantineRecordHash, computeQuarantineRecordHash, hstored, hhash]
    exact hashMatches_self C hhash

theorem agree_quarantined :
    Agree SameContent (quarantineRecordFields q) (quarantineRecordFields q') ↔
    q.stream_message_id = q'.stream_message_id ∧ q.raw_data = q'.raw_data ∧
      q.raw_signature = q'.raw_signature ∧ q.service = q'.service ∧
      q.failure_category = q'.failure_category ∧ q.failure_detail = q'.failure_detail ∧
      q.delivery_attempts = q'.delivery_attempts := by
  simp [Agree, quarantineRecordFields, FieldValue.Same]

theorem fits_quarantined (q : QuarantineRow) :
    List.Forall₂ (Fits AnyShape) quarantineGaps (quarantineValues q) := by
  iterate 5 refine .cons .nil ?_
  exact .nil

/-- The number of attempts stands in a line of its own at the end. -/
theorem attempts_of_message (h : quarantineMessage q' keyId = quarantineMessage q keyId) :
    q'.delivery_attempts = q.delivery_attempts := by
  have hplain : PlainName "stream_message_id" ∧ PlainName "delivery_attempts" ∧
      ∀ G ∈ quarantineGaps, ∀ n ∈ G.names, PlainName n := by decide
  have hlines := congrArg lines h
  rw [quarantineMessage, quarantineMessage, lines_message hplain.1 hplain.2.2 (fits_quarantined q'),
    lines_message hplain.1 hplain.2.2 (fits_quarantined q)] at hlines
  have hend : ∀ q : QuarantineRow, (quarantineEnd q keyId).flatMap lines =
      line "delivery_attempts" (intText q.delivery_attempts) :: (keyIdLine keyId).flatMap lines := by
    intro q
    have hnewline : cp '\n' ∉ intText q.delivery_attempts := by
      intro hmem
      exact absurd (JVal.printable_intText _ _ hmem) (by decide)
    rw [quarantineEnd, List.flatMap_cons, lines_line hplain.2.1, headLine, laterLines,
      lines_of_not_mem hnewline]
    rfl
  rw [hend, hend] at hlines
  obtain ⟨-, hlast⟩ := List.append_inj' (List.cons.inj hlines).2 rfl
  exact intText_injective (line_inj hplain.2.1 hplain.2.1 (List.cons.inj hlast).1).2

/-- **A hash covers its quarantined record exactly if the record is unambiguous.** -/
theorem covers_quarantined_iff (hinj : ∀ key, Function.Injective (C.hmacSha256 key))
    (hh : computeQuarantineRecordHash C q secret keyId = .ok h) :
    CoversQuarantined C secret keyId q h ↔ q.Unambiguous := by
  have hplain : PlainName "stream_message_id" ∧ (∀ G ∈ quarantineGaps, ∀ n ∈ G.names, PlainName n) ∧
      (quarantineGaps.map Gap.names).flatten.Nodup := by decide
  have hunique := message_unique_iff hplain.1 hplain.2.1 hplain.2.2 (fun _ _ _ => trivial)
    (fits_quarantined q) q.stream_message_id (quarantineEnd q keyId)
  constructor
  · intro hcovers
    have hsame : ∀ q' : QuarantineRow, q'.record_integrity_hash = some h →
        quarantineMessage q' keyId = quarantineMessage q keyId →
        Agree SameContent (quarantineRecordFields q) (quarantineRecordFields q') := by
      intro q' hstored hmessage
      exact hcovers q' hstored ((verifyQuarantineRecordHash_iff hinj hh hstored).mpr hmessage)
    refine ⟨?_, hunique.mp ?_⟩
    · intro s hs
      by_contra hambiguous
      obtain ⟨s', hne, htext⟩ := exists_same_noneText hambiguous
      simp only [QuarantineRow.nullable, List.mem_cons, List.not_mem_nil, or_false] at hs
      rcases hs with rfl | rfl | rfl | rfl
      · have hagree := hsame { q with raw_data := s', record_integrity_hash := some h } rfl
          (by simp only [quarantineMessage, quarantineValues, quarantineEnd, htext])
        exact hne (agree_quarantined.mp hagree).2.1.symm
      · have hagree := hsame { q with raw_signature := s', record_integrity_hash := some h } rfl
          (by simp only [quarantineMessage, quarantineValues, quarantineEnd, htext])
        exact hne (agree_quarantined.mp hagree).2.2.1.symm
      · have hagree := hsame { q with service := s', record_integrity_hash := some h } rfl
          (by simp only [quarantineMessage, quarantineValues, quarantineEnd, htext])
        exact hne (agree_quarantined.mp hagree).2.2.2.1.symm
      · have hagree := hsame { q with failure_detail := s', record_integrity_hash := some h } rfl
          (by simp only [quarantineMessage, quarantineValues, quarantineEnd, htext])
        exact hne (agree_quarantined.mp hagree).2.2.2.2.2.1.symm
    · intro s Vs hfit hmessage
      simp only [quarantineGaps, List.forall₂_cons_left_iff, List.forall₂_nil_left_iff] at hfit
      obtain ⟨raw_data, _, h₂, ⟨raw_signature, _, h₃, ⟨service, _, h₄, ⟨failure_category, _, h₅,
        ⟨failure_detail, _, h₆, rfl, rfl⟩, rfl⟩, rfl⟩, rfl⟩, rfl⟩ := hfit
      rw [fits_nil h₂, fits_nil h₃, fits_nil h₄, fits_nil h₅, fits_nil h₆] at hmessage ⊢
      have hagree := agree_quarantined.mp (hsame {
        stream_message_id := s, raw_data := some raw_data.next,
        raw_signature := some raw_signature.next, service := some service.next,
        failure_category := failure_category.next, failure_detail := some failure_detail.next,
        delivery_attempts := q.delivery_attempts, record_integrity_hash := some h,
        integrity_key_id := keyId } rfl hmessage)
      obtain ⟨hid, e₂, e₃, e₄, e₅, e₆, -⟩ := hagree
      exact ⟨hid.symm, by rw [quarantineValues, e₂, e₃, e₄, e₅, e₆]; rfl⟩
  · intro hq q' hstored hverify
    have hmessage := (verifyQuarantineRecordHash_iff hinj hh hstored).mp hverify
    have hattempts := attempts_of_message hmessage
    have hend : quarantineEnd q' keyId = quarantineEnd q keyId := by
      rw [quarantineEnd, hattempts, quarantineEnd]
    rw [quarantineMessage, hend] at hmessage
    obtain ⟨hid, hvalues⟩ := hunique.mpr hq.columns q'.stream_message_id _ (fits_quarantined q')
      hmessage
    simp only [quarantineValues, List.cons.injEq, GapValues.mk.injEq, and_true, true_and] at hvalues
    obtain ⟨e₂, e₃, e₄, e₅, e₆⟩ := hvalues
    have hpresent := hq.present
    simp only [QuarantineRow.nullable, List.forall_mem_cons] at hpresent
    obtain ⟨p₂, p₃, p₄, p₆, -⟩ := hpresent
    exact agree_quarantined.mpr ⟨hid.symm, (noneText_inj p₂ e₂).symm, (noneText_inj p₃ e₃).symm,
      (noneText_inj p₄ e₄).symm, e₅.symm, (noneText_inj p₆ e₆).symm, hattempts.symm⟩

end Quarantine

/-! ## Both tables -/

/-- **What the hashes certify.** The hash of an event covers it, up to what its context stands
for, exactly if the event is unambiguous, and never covers the context as it is stored; the hash
of a quarantined record covers it exactly if the record is unambiguous. -/
theorem tamper_evidence_iff (C : Crypto) (hinj : ∀ key, Function.Injective (C.hmacSha256 key))
    (secret : Str) (keyId : Option Str) (r : AuditRow) (q : QuarantineRow) (h h' : Str)
    (hr : r.Returned) (hh : computeAuditEventHash C r secret keyId = .ok h)
    (hh' : computeQuarantineRecordHash C q secret keyId = .ok h') :
    (Covers C SameContent secret keyId r h ↔ r.Unambiguous keyId) ∧
      ¬Covers C JVal.SameJson secret keyId r h ∧
      (CoversQuarantined C secret keyId q h' ↔ q.Unambiguous) :=
  ⟨covers_iff hinj hr hh, not_covers hr hh, covers_quarantined_iff hinj hh'⟩

namespace Sample

/-- An event with every column filled in. -/
def filled (action resource : Str) (hash : Option Str) : AuditRow where
  event_id := str "evt-1"
  timestamp := utcnow
  service := str "gateway"
  event_type := str "access"
  user_id := some (str "u-1")
  organization_id := some (str "org-1")
  tenant_scope := TenantScope.text .organization
  action := action
  resource := some resource
  decision := some (str "allow")
  reason := some (str "owner")
  trace_id := some (str "t-1")
  context := .obj []
  integrity_status := IntegrityStatus.text .valid
  record_integrity_hash := hash
  integrity_key_id := none

theorem filled_returned (action resource : Str) (hash : Option Str) :
    (filled action resource hash).Returned := by
  have hwhole : utcnow.Whole := by decide +kernel
  exact ⟨hwhole, .obj (by simp) (by simp) (by simp), rfl⟩

/-- A quarantined record with every column filled in. -/
def filledQuarantined : QuarantineRow where
  stream_message_id := str "1-0"
  raw_data := some (str "x")
  raw_signature := some (str "y")
  service := some (str "gateway")
  failure_category := str "unsigned"
  failure_detail := some (str "no signature")
  delivery_attempts := 1
  record_integrity_hash := none
  integrity_key_id := none

/-- The hash of a computation that has one. -/
theorem exists_hash {x : Except Exc Str} (h : x.isOk = true) : ∃ e, x = .ok e := by
  cases x with
  | error e => cases h
  | ok e => exact ⟨e, rfl⟩

end Sample

/-- Records without line breaks, under the digests that spell the message out. -/
theorem tamper_evidence_iff_filled : ∃ h h',
    Covers Sample.crypto SameContent (str "k") none (Sample.filled (str "read") (str "doc") none) h ∧
      CoversQuarantined Sample.crypto (str "k") none Sample.filledQuarantined h' := by
  obtain ⟨h, hh⟩ : ∃ h, computeAuditEventHash Sample.crypto
      (Sample.filled (str "read") (str "doc") none) (str "k") none = .ok h :=
    Sample.exists_hash (by decide +kernel)
  obtain ⟨h', hh'⟩ : ∃ h', computeQuarantineRecordHash Sample.crypto
      Sample.filledQuarantined (str "k") none = .ok h' :=
    Sample.exists_hash (by decide +kernel)
  obtain ⟨hevent, -, hquarantined⟩ := tamper_evidence_iff Sample.crypto Sample.crypto_injective
    (str "k") none _ _ h h' (Sample.filled_returned _ _ _) hh hh'
  refine ⟨h, h', hevent.mpr ?_, hquarantined.mpr ?_⟩
  · exact AuditRow.unambiguous_of_single_lines (by decide +kernel) (by decide +kernel) none
  · exact QuarantineRow.unambiguous_of_single_lines (by decide +kernel) (by decide +kernel)

/-- A line break moves text from one column to the next: another row verifies under the hash. -/
theorem shifted_row_verifies : ∃ (C : Crypto) (r r' : AuditRow) (h : Str),
    (∀ key, Function.Injective (C.hmacSha256 key)) ∧ r.Returned ∧ r'.Returned ∧
      computeAuditEventHash C r (str "k") none = .ok h ∧ r'.record_integrity_hash = some h ∧
      verifyAuditEventHash C r' (str "k") none = .ok true ∧
      ¬Agree SameContent (auditEventFields r) (auditEventFields r') := by
  obtain ⟨h, hh⟩ : ∃ h, computeAuditEventHash Sample.crypto
      (Sample.filled (str "read\nresource=a") (str "b") none) (str "k") none = .ok h :=
    Sample.exists_hash (by decide +kernel)
  have hr := Sample.filled_returned (str "read\nresource=a") (str "b") none
  have hr' := Sample.filled_returned (str "read") (str "a\nresource=b") (some h)
  refine ⟨Sample.crypto, _, _, h, Sample.crypto_injective, hr, hr', hh, rfl, ?_, ?_⟩
  · rw [verifyAuditEventHash_iff Sample.crypto_injective hr.timestamp hr'.timestamp hh rfl]
    have hmessage : ∀ time, auditMessage (Sample.filled (str "read") (str "a\nresource=b") (some h))
        time none = auditMessage (Sample.filled (str "read\nresource=a") (str "b") none) time none := by
      intro time
      rfl
    exact ⟨false, by simp, hmessage _⟩
  · intro hagree
    have haction : str "read\nresource=a" = str "read" := (agree_audit.mp hagree).2.2.2.2.2.2.2.1
    exact absurd haction (by decide)

end SecurityAudit
