import SecurityAudit.Scripts.CleanLedger
import SecurityAudit.Worker.Programs

/-!
# What the writers write, the verifier accepts

The writers hash a row before it is stored and the verifier hashes what it reads, so whatever
the database does to a row in between has to leave the canonical message alone: a timestamp in
another offset and with a fraction of a second, a context whose keys come back in another order
or as its JSON text. It does, for every event and every key.

On what makes a row complete the two sides do not agree. The verifier asks for a non-empty
`event_id`, `service`, `event_type` and `action`; the event model takes any string for the first
three and fills in the empty one for the last.
-/

namespace SecurityAudit

open RecordIntegrity VerifyIntegrity

variable {env : Env} {e : AuditEvent} {status : IntegrityStatus} {row stored : AuditRow}
  {keys : Keyring} {key keyId : Str}

/-! ## The context as it comes back -/

/-- What a JSON column can come back as: an equal value, through the ORM, or a text that spells
one. -/
def ReadsBack (context : JVal) (kvs : List (Str × JVal)) : Prop :=
  JVal.SameJson context (.obj kvs) ∨
    ∃ s v, context = .str s ∧ JVal.loads s = .ok v ∧ JVal.SameJson v (.obj kvs)

/-- Only an object is the same JSON value as an object. -/
theorem JVal.SameJson.eq_obj {v : JVal} {kvs : List (Str × JVal)} (h : JVal.SameJson v (.obj kvs)) :
    ∃ kvs', v = .obj kvs' := by
  unfold JVal.SameJson at h
  rw [JVal.sortKeys_obj] at h
  cases v with
  | obj kvs' => exact ⟨kvs', rfl⟩
  | arr xs => rw [JVal.sortKeys_arr] at h; cases h
  | null => cases h
  | bool b => cases h
  | int n => cases h
  | float x => cases h
  | str s => cases h

/-- However the context comes back, it has the canonical text it was written with. -/
theorem canonicalJson_readsBack {context : JVal} {kvs : List (Str × JVal)}
    (h : ReadsBack context kvs) :
    canonicalJson (orEmpty context) = canonicalJson (orEmpty (.obj kvs)) := by
  rcases h with h | ⟨s, v, rfl, hloads, h⟩
  · obtain ⟨kvs', rfl⟩ := h.eq_obj
    exact JVal.dumps_congr h
  · have hreading : jsonReading (.str s) = v := by rw [jsonReading, hloads]
    show JVal.dumps (jsonReading (.str s)) = JVal.dumps (.obj kvs)
    rw [hreading, JVal.dumps_congr h]

/-! ## One row -/

/-- The row read back hashes to what is stored with it. -/
theorem readBack_hash {context : JVal} (h : sinkRecord env e status = .ok row)
    (hs : row.stored? = some stored) (hread : ReadsBack context e.context) :
    ∃ key keyId hash, env.cfg.requireRecordIntegrityKey = .ok (key, keyId) ∧
      stored.integrity_key_id = some keyId ∧ stored.record_integrity_hash = some hash ∧
      RecordIntegrity.computeAuditEventHash env.crypto { stored with context := context } key
        (some keyId) = .ok hash := by
  obtain ⟨key, keyId, hash, hkey, hkeyId, hhash, hcompute⟩ := sinkRecord_hash h hs
  refine ⟨key, keyId, hash, hkey, hkeyId, hhash, ?_⟩
  -- storing a stored timestamp again changes nothing
  obtain ⟨timestamp, t, -, hstore, hstored⟩ := sinkRecord_stored h hs
  have ht : stored.timestamp.storeSecond? = some stored.timestamp := by
    rw [hstored]
    exact Naive.storeSecond?_of_whole (Naive.storeSecond?_whole hstore)
  have hcontext : canonicalJson (orEmpty context) = canonicalJson (orEmpty stored.context) := by
    rw [hstored]
    exact canonicalJson_readsBack hread
  rw [← hcompute]
  exact computeAuditEventHash_stored env.crypto ht hcontext key (some keyId)

/-- A row of either table that carries the hash of its own columns verifies under the keyring. -/
theorem verifies_of_hash {T : Table} {r : Record} {hash : Str} (hne : hash ≠ [])
    (hkeyId : r.text "integrity_key_id" = some keyId) (hkey : keys.get? keyId = some key)
    (hhash : r.storedHash = some hash) (hverify : T.verify r key (some keyId) = .ok true) :
    Verifies T keys r := by
  have hselected : selectedKey r keys = (some key, some keyId) := by
    unfold selectedKey
    rw [hkeyId, ← hkey]
  exact ⟨hash, key, hhash, hne, by rw [hselected], by rw [hselected]; exact hverify⟩

/-- The row of an event, read back, verifies. -/
theorem verifies_readBack {context : JVal} (h : sinkRecord env e status = .ok row)
    (hs : row.stored? = some stored) (hread : ReadsBack context e.context)
    (hcfg : env.cfg.requireRecordIntegrityKey = .ok (key, keyId))
    (hkey : keys.get? keyId = some key) :
    ({ stored with context := context } : AuditRow).record.verifyAuditEventHash env.crypto key
        (some keyId) = .ok true ∧
      Verifies (auditEvents env.crypto) keys
        ({ stored with context := context } : AuditRow).record := by
  obtain ⟨key', keyId', hash, hcfg', hkeyId, hhash, hcompute⟩ := readBack_hash h hs hread
  obtain ⟨rfl, rfl⟩ : key = key' ∧ keyId = keyId' := by
    have := Except.ok.inj (hcfg.symm.trans hcfg')
    exact ⟨congrArg Prod.fst this, congrArg Prod.snd this⟩
  have hverify := verifyAuditEventHash_of_compute env.crypto (r := { stored with context := context })
    hhash hcompute
  rw [← verifyAuditEventHash_record] at hverify
  exact ⟨hverify, verifies_of_hash (recordHash_ascii env.crypto hcompute).1 hkeyId hkey hhash hverify⟩

/-- A quarantine row verifies. -/
theorem verifies_quarantined {id : Str} {fields : Fields} {attempts : ℕ} {row : QuarantineRow}
    (h : quarantineRecord env id fields attempts = .ok row)
    (hcfg : env.cfg.requireRecordIntegrityKey = .ok (key, keyId))
    (hkey : keys.get? keyId = some key) :
    row.record.verifyQuarantineRecordHash env.crypto key (some keyId) = .ok true ∧
      Verifies (quarantinedAuditEvents env.crypto) keys row.record := by
  obtain ⟨key', keyId', hash, hcfg', hcompute, rfl⟩ := quarantineRecord_eq_ok h
  obtain ⟨rfl, rfl⟩ : key = key' ∧ keyId = keyId' := by
    have := Except.ok.inj (hcfg.symm.trans hcfg')
    exact ⟨congrArg Prod.fst this, congrArg Prod.snd this⟩
  -- the hash does not cover the two columns that were added to the row
  have hverify : hashMatches (some hash) (.ok hash) = .ok true := hashMatches_self env.crypto hcompute
  rw [← hcompute] at hverify
  exact ⟨hverify, verifies_of_hash (recordHash_ascii env.crypto hcompute).1 rfl hkey rfl hverify⟩

/-! ## One more row in a table -/

theorem withVerdict_append {T : Table} (v : Verdict) (rows rows' : List Record) :
    withVerdict T keys v (rows ++ rows') = withVerdict T keys v rows ++ withVerdict T keys v rows' :=
  List.filter_append ..

/-- The counts with one valid row more. -/
structure OneMoreValid (stats stats' : Stats) : Prop where
  checked : stats'.checked = stats.checked + 1
  valid : stats'.valid = stats.valid + 1
  invalid : stats'.invalid = stats.invalid
  unverifiable : stats'.unverifiable = stats.unverifiable
  no_baseline : stats'.no_baseline = stats.no_baseline

/-- A row that verifies is counted as valid and changes no other count, wherever it stands in the
table. -/
theorem scan_insert {T : Table} {r : Record} {before after : List Record} {stats : Stats}
    (hr : Verifies T keys r) (h : scan T keys (before ++ after) [] .zero = .ok stats) :
    ∃ stats', scan T keys (before ++ r :: after) [] .zero = .ok stats' ∧
      OneMoreValid stats stats' := by
  have hv : verdict T keys r = .ok .valid := verdict_eq_valid.mpr hr
  have hs := scan_spec h
  have hverdicts : ∀ x ∈ before ++ r :: after, ∃ v, verdict T keys x = .ok v := by
    intro x hx
    rcases List.mem_append.mp hx with hx | hx
    · exact hs.verdicts x (List.mem_append_left _ hx)
    · rcases List.mem_cons.mp hx with rfl | hx
      · exact ⟨_, hv⟩
      · exact hs.verdicts x (List.mem_append_right _ hx)
  obtain ⟨stats', h'⟩ : ∃ stats', scan T keys (before ++ r :: after) [] .zero = .ok stats' :=
    scan_isOk.mpr hverdicts
  have hs' := scan_spec h'
  have hinsert : ∀ w, withVerdict T keys w (before ++ r :: after) =
      withVerdict T keys w before ++ ((if Verdict.valid = w then [r] else []) ++
        withVerdict T keys w after) := by
    intro w
    rw [withVerdict_append, withVerdict_cons hv]
  refine ⟨stats', h', ?_, ?_, ?_, ?_, ?_⟩
  · rw [hs'.checked, hs.checked]
    simp only [List.length_append, List.length_cons]
    omega
  · rw [hs'.valid, hs.valid, hinsert, withVerdict_append]
    simp only [List.length_append, if_pos, List.length_cons, List.length_nil]
    omega
  · rw [hs'.invalid, hs.invalid, hinsert, withVerdict_append, if_neg (by decide), List.nil_append]
  · rw [hs'.unverifiable, hs.unverifiable, hinsert, withVerdict_append, if_neg (by decide),
      List.nil_append]
  · rw [hs'.no_baseline, hs.no_baseline, hinsert, withVerdict_append, if_neg (by decide),
      List.nil_append]

/-! ## The round trip -/

/-- **What is written verifies when it is read.** Under a keyring that maps the writer's key id to
its key: the row of any event and classification, as the database keeps it and with its context
in whatever form it comes back, verifies, and a pass over any table counts it as valid; and so
does every quarantine row. -/
theorem write_read_verify (hcfg : env.cfg.requireRecordIntegrityKey = .ok (key, keyId))
    (hkey : keys.get? keyId = some key) :
    (∀ e status row stored context, sinkRecord env e status = .ok row →
      row.stored? = some stored → ReadsBack context e.context →
      ({ stored with context := context } : AuditRow).record.verifyAuditEventHash env.crypto key
          (some keyId) = .ok true ∧
        ∀ before after stats, verifyAuditEvents env.crypto keys (before ++ after) = .ok stats →
          ∃ stats', verifyAuditEvents env.crypto keys
              (before ++ ({ stored with context := context } : AuditRow).record :: after) =
                .ok stats' ∧ OneMoreValid stats stats') ∧
    ∀ id fields attempts row, quarantineRecord env id fields attempts = .ok row →
      row.record.verifyQuarantineRecordHash env.crypto key (some keyId) = .ok true ∧
        ∀ before after stats,
          verifyQuarantineRecords env.crypto keys (before ++ after) = .ok stats →
          ∃ stats', verifyQuarantineRecords env.crypto keys (before ++ row.record :: after) =
            .ok stats' ∧ OneMoreValid stats stats' := by
  constructor
  · intro e status row stored context h hs hread
    obtain ⟨hverify, hr⟩ := verifies_readBack h hs hread hcfg hkey
    exact ⟨hverify, fun before after stats hscan => scan_insert hr hscan⟩
  · intro id fields attempts row h
    obtain ⟨hverify, hr⟩ := verifies_quarantined h hcfg hkey
    exact ⟨hverify, fun before after stats hscan => scan_insert hr hscan⟩

theorem Sample.requireRecordIntegrityKey_env : Sample.env.cfg.requireRecordIntegrityKey =
    .ok (str "0123456789abcdef0123456789abcdef", str "2026-01") := by
  decide +kernel

/-- The row of a handled entry, with its empty context read back as text. -/
theorem write_read_verify_named : ∃ stored : AuditRow,
    ({ stored with context := .str (str "\x7b \x7d") } : AuditRow).record.verifyAuditEventHash
      Sample.crypto (str "0123456789abcdef0123456789abcdef") (some (str "2026-01")) = .ok true := by
  obtain ⟨e, stored, h, hchecked⟩ : ∃ e stored, Recorded Sample.env Sample.named e stored ∧
      decide (e.context.isEmpty = true) = true :=
    exists_recorded [] Sample.utcnow (fun e _ => decide (e.context.isEmpty = true))
      (by decide +kernel)
  have hempty : e.context = [] := List.isEmpty_iff.mp (of_decide_eq_true hchecked)
  obtain ⟨row, hrow, -, hstored⟩ := h.writes
  have hread : ReadsBack (.str (str "\x7b \x7d")) e.context :=
    .inr ⟨_, .obj [], rfl, by rfl, by rw [hempty]; exact .refl _⟩
  have hkey : Sample.keyring.get? (str "2026-01") =
      some (str "0123456789abcdef0123456789abcdef") := by decide
  exact ⟨stored, ((write_read_verify Sample.requireRecordIntegrityKey_env hkey).1 e _ row stored _
    hrow hstored hread).1⟩

/-! ## What makes a record complete -/

/-- The columns the verifier requires of a row of `audit_events` are not empty. -/
def AuditRow.Filled (r : AuditRow) : Prop :=
  r.event_id ≠ [] ∧ r.service ≠ [] ∧ r.event_type ≠ [] ∧ r.action ≠ []

theorem missing_text {s : Str} : missing (.text (some s)) = false ↔ s ≠ [] := by
  cases s <;> simp [missing]

theorem complete_record (C : Crypto) (r : AuditRow) :
    Complete (auditEvents C) r.record ↔ r.Filled := by
  have htime : missing (.time (.naive r.timestamp)) = false := rfl
  unfold Complete AuditRow.Filled
  simp only [auditEvents, List.forall_mem_cons, List.not_mem_nil, false_imp_iff, forall_const,
    and_true]
  show missing (.text (some r.event_id)) = false ∧ missing (.time (.naive r.timestamp)) = false ∧
    missing (.text (some r.service)) = false ∧ missing (.text (some r.event_type)) = false ∧
    missing (.text (some r.action)) = false ↔ _
  rw [missing_text, missing_text, missing_text, missing_text]
  simp [htime]

/-- A quarantine row is always complete: its id has a dash in it, and its category is one of
two. -/
theorem complete_quarantined (C : Crypto) {id : StreamId} {fields : Fields} {attempts : ℕ}
    {row : QuarantineRow} (h : quarantineRecord env id.text fields attempts = .ok row) :
    Complete (quarantinedAuditEvents C) row.record := by
  obtain ⟨key, keyId, hash, -, -, rfl⟩ := quarantineRecord_eq_ok h
  have hid : id.text ≠ [] := by
    unfold StreamId.text
    simp
  have hcategory : ∀ raw, (classifyPoisonReason raw).failure_category ≠ [] := by
    have hnames : str "malformed" ≠ [] ∧ str "persistence_exhausted" ≠ [] := by decide
    intro raw
    unfold classifyPoisonReason
    split
    · exact hnames.1
    · split
      · exact hnames.1
      · exact hnames.2
      · exact hnames.1
  intro field hfield
  simp only [quarantinedAuditEvents, List.mem_cons, List.not_mem_nil, or_false] at hfield
  rcases hfield with rfl | rfl | rfl
  · exact missing_text.mpr hid
  · exact missing_text.mpr (hcategory _)
  · rfl

/-- The rows of the two tables, as the verifier reads them. -/
def Shared.eventRecords (s : Shared) : List Record := s.auditEvents.map fun r => r.2.record

def Shared.quarantineRecords (s : Shared) : List Record := s.quarantined.map QuarantineRow.record

/-- In a ledger that only workers wrote everything but completeness is as it should be. -/
theorem cleanTable_of_reachable {s : Shared} (h : Reachable env s)
    (hcfg : env.cfg.requireRecordIntegrityKey = .ok (key, keyId))
    (hkey : keys.get? keyId = some key) :
    (CleanTable (auditEvents env.crypto) keys s.eventRecords ↔
        ∀ r ∈ s.auditEvents, r.2.Filled) ∧
      CleanTable (quarantinedAuditEvents env.crypto) keys s.quarantineRecords := by
  have hi : Inv env (fun _ _ _ => True) s :=
    inv_of_reachableWhen (fun _ _ => trivial) (fun _ _ _ _ => trivial) h.when
  constructor
  · have hcomplete : (∀ r ∈ s.eventRecords, Complete (auditEvents env.crypto) r) ↔
        ∀ r ∈ s.auditEvents, r.2.Filled := by
      rw [Shared.eventRecords, List.forall_mem_map]
      exact forall₂_congr fun r _ => complete_record env.crypto r.2
    rw [← hcomplete]
    refine ⟨fun hclean => hclean.complete, fun hall => ⟨?_, hall, ?_⟩⟩
    · intro r hr
      obtain ⟨p, hp, rfl⟩ := List.mem_map.mp hr
      obtain ⟨_, _, e, row, -, -, hrow, hstored⟩ := (hi.rows p hp).exists_source
      -- read back unchanged
      have hsame : ReadsBack p.2.context e.context := by
        obtain ⟨_, _, -, -, heq⟩ := sinkRecord_stored hrow hstored
        rw [heq]
        exact .inl (.refl _)
      exact (verifies_readBack hrow hstored hsame hcfg hkey).2
    · -- `event_id` is the primary key
      have hinj : Function.Injective (some : Str → Option Str) := Option.some_injective _
      rw [Shared.eventRecords, List.map_map]
      exact hi.eventIds.map hinj |> fun h => by rwa [List.map_map] at h
  · refine ⟨?_, ?_, ?_⟩
    · intro r hr
      obtain ⟨row, hrow, rfl⟩ := List.mem_map.mp hr
      obtain ⟨id, fields, attempts, hwritten⟩ := hi.quarantined row hrow
      exact (verifies_quarantined hwritten hcfg hkey).2
    · intro r hr
      obtain ⟨row, hrow, rfl⟩ := List.mem_map.mp hr
      obtain ⟨id, fields, attempts, hwritten⟩ := hi.quarantined row hrow
      exact complete_quarantined env.crypto hwritten
    · have hinj : Function.Injective (some : Str → Option Str) := Option.some_injective _
      rw [Shared.quarantineRecords, List.map_map]
      exact hi.messageIds.map hinj |> fun h => by rwa [List.map_map] at h

/-- The hash of a row that verifies is ASCII. -/
theorem asciiHash_of_reachable {s : Shared} (h : Reachable env s) :
    (∀ r ∈ s.eventRecords, r.AsciiHash) ∧ ∀ r ∈ s.quarantineRecords, r.AsciiHash := by
  have hi : Inv env (fun _ _ _ => True) s :=
    inv_of_reachableWhen (fun _ _ => trivial) (fun _ _ _ _ => trivial) h.when
  constructor
  · intro r hr hash hhash
    obtain ⟨p, hp, rfl⟩ := List.mem_map.mp hr
    obtain ⟨_, _, e, row, -, -, hrow, hstored⟩ := (hi.rows p hp).exists_source
    obtain ⟨_, _, hash', -, -, hhash', hcompute⟩ := sinkRecord_hash hrow hstored
    obtain rfl : hash' = hash := Option.some.inj (hhash'.symm.trans hhash)
    exact (recordHash_ascii env.crypto hcompute).2
  · intro r hr hash hhash
    obtain ⟨row, hrow, rfl⟩ := List.mem_map.mp hr
    obtain ⟨id, fields, attempts, hwritten⟩ := hi.quarantined row hrow
    obtain ⟨_, _, hash', -, hcompute, rfl⟩ := quarantineRecord_eq_ok hwritten
    obtain rfl : hash' = hash := Option.some.inj hhash
    exact (recordHash_ascii env.crypto hcompute).2

/-- The exit code for a ledger that only workers wrote. -/
theorem main_eq_of_reachable {s : Shared} (h : Reachable env s)
    (hcfg : env.cfg.requireRecordIntegrityKey = .ok (key, keyId))
    {legacy keyId' current : Option Str} (hkeys : resolveKeyring legacy keyId' current = .ok keys)
    (hkey : keys.get? keyId = some key) :
    (VerifyIntegrity.main env.crypto legacy keyId' current s.eventRecords s.quarantineRecords =
        .ok 0 ↔ ∀ r ∈ s.auditEvents, r.2.Filled) ∧
      (VerifyIntegrity.main env.crypto legacy keyId' current s.eventRecords s.quarantineRecords =
        .ok 1 ↔ ¬∀ r ∈ s.auditEvents, r.2.Filled) := by
  obtain ⟨hevents, hquarantine⟩ := asciiHash_of_reachable h
  obtain ⟨e, he⟩ : ∃ e, verifyAuditEvents env.crypto keys s.eventRecords = .ok e :=
    verifyAuditEvents_isOk hevents
  obtain ⟨q, hq⟩ : ∃ q, verifyQuarantineRecords env.crypto keys s.quarantineRecords = .ok q :=
    verifyQuarantineRecords_isOk hquarantine
  obtain ⟨hcleanEvents, hcleanQuarantine⟩ := cleanTable_of_reachable h hcfg hkey
  have hreport : report e = true ∧ report q = true ↔ ∀ r ∈ s.auditEvents, r.2.Filled := by
    rw [report_iff he, report_iff hq, hcleanEvents]
    exact and_iff_left hcleanQuarantine
  rw [main_eq hkeys he hq, ← hreport]
  by_cases hall : report e = true ∧ report q = true
  · simp [hall]
  · simp [hall]

/-- **Where writer and verifier agree.** A pass over the stored row of an event finds no
structural problem just where the event's `event_id`, `service`, `event_type` and `action` are not
empty. A verifier that has the writer's key exits with 0 on a ledger that only workers wrote
just where that holds of every row. -/
theorem writer_verifier_agree_iff (hcfg : env.cfg.requireRecordIntegrityKey = .ok (key, keyId))
    {legacy keyId' current : Option Str} (hkeys : resolveKeyring legacy keyId' current = .ok keys)
    (hkey : keys.get? keyId = some key) :
    (∀ e status row stored, sinkRecord env e status = .ok row → row.stored? = some stored →
      ∃ stats, verifyAuditEvents env.crypto keys [stored.record] = .ok stats ∧
        (stats.structural = [] ↔
          e.event_id ≠ [] ∧ e.service ≠ [] ∧ e.event_type ≠ [] ∧ e.action ≠ [])) ∧
    ∀ s, Reachable env s →
      (VerifyIntegrity.main env.crypto legacy keyId' current s.eventRecords s.quarantineRecords =
        .ok 0 ↔ ∀ r ∈ s.auditEvents, r.2.Filled) := by
  constructor
  · intro e status row stored h hs
    obtain ⟨_, t, -, -, hstored⟩ := sinkRecord_stored h hs
    have hread : ReadsBack stored.context e.context := by
      rw [hstored]
      exact .inl (.refl _)
    obtain ⟨-, hverifies⟩ := verifies_readBack h hs hread hcfg hkey
    obtain ⟨stats, hscan⟩ : ∃ stats, scan (auditEvents env.crypto) keys [stored.record] [] .zero =
        .ok stats :=
      scan_isOk.mpr (by simpa using ⟨_, verdict_eq_valid.mpr hverifies⟩)
    have hstructural : stats.structural = problems (auditEvents env.crypto) [] stored.record := by
      rw [(scan_spec hscan).structural]
      simp [structuralProblems, Stats.zero]
    refine ⟨stats, hscan, ?_⟩
    rw [hstructural, problems_eq_nil, complete_record, hstored]
    simp [AuditRow.Filled, eventRow]
  · exact fun s h => (main_eq_of_reachable h hcfg hkeys hkey).1

/-- The entry whose payload is `{"event_id": "evt-1", "service": "gateway", "event_type":
"login"}`. -/
theorem writer_verifier_agree_iff_named : ∃ s, Reachable Sample.env s ∧ s.auditEvents ≠ [] ∧
    (VerifyIntegrity.main Sample.crypto none Sample.cfg.recordIntegrityKeyId
      Sample.cfg.recordIntegrityKey s.eventRecords s.quarantineRecords = .ok 0 ↔
        ∀ r ∈ s.auditEvents, r.2.Filled) := by
  obtain ⟨e, stored, h, -⟩ := Sample.recorded_named
  have hrun : Reachable Sample.env _ := (Quiet.handled lenient_everything h (by decide)
    (fun _ _ => trivial) (fun _ _ _ => trivial) (str "worker-1")).reachableWhen.reachable
  exact ⟨_, hrun, List.cons_ne_nil _ _, (writer_verifier_agree_iff
    Sample.requireRecordIntegrityKey_env Sample.resolveKeyring_keyring (by decide)).2 _ hrun⟩

/-- That payload has no `action`, so its row has an empty one, and a ledger with nothing in it
but this row does not pass. -/
theorem action_defaults_to_empty : ∃ s, Reachable Sample.env s ∧
    VerifyIntegrity.main Sample.crypto none Sample.cfg.recordIntegrityKeyId
      Sample.cfg.recordIntegrityKey s.eventRecords s.quarantineRecords = .ok 1 := by
  obtain ⟨e, stored, h, hchecked⟩ : ∃ e stored, Recorded Sample.env Sample.named e stored ∧
      decide (stored.action = []) = true :=
    exists_recorded [] Sample.utcnow (fun _ stored => decide (stored.action = []))
      (by decide +kernel)
  have hrun : Reachable Sample.env _ := (Quiet.handled lenient_everything h (by decide)
    (fun _ _ => trivial) (fun _ _ _ => trivial) (str "worker-1")).reachableWhen.reachable
  refine ⟨_, hrun, (main_eq_of_reachable hrun Sample.requireRecordIntegrityKey_env
    Sample.resolveKeyring_keyring (by decide)).2.mpr fun hall => ?_⟩
  obtain ⟨-, -, -, haction⟩ := hall _ (List.mem_singleton.mpr rfl)
  exact haction (of_decide_eq_true hchecked)

end SecurityAudit
