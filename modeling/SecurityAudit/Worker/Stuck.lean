import SecurityAudit.Audit.Record
import SecurityAudit.Consumers.Diagnosis
import SecurityAudit.Worker.Lifecycle

/-!
# An entry that nobody can settle

A JSON text can escape half a surrogate pair, and `json.loads` accepts it. Where the `service` of a
payload has one, neither row can be hashed, for the canonical message cannot be encoded:
`Sink.write` fails on it, and so does `QuarantineSink.write`, each time. Such an entry is never
acknowledged and has no row in either table as long as it is in the stream
(`unencodable_never_acked`). The quarantine gets it only without its payload, once it was trimmed.
-/

namespace SecurityAudit

open RecordIntegrity

variable {env : Env} {s t : Shared} {m : Message}

/-- The payload is a JSON object whose `service` has a surrogate. -/
def Message.Unencodable (m : Message) : Prop :=
  ∃ raw kvs service, m.fields.get "data" = some raw ∧ JVal.loads raw = .ok (.obj kvs) ∧
    JVal.lookup (str "service") kvs = some (.str service) ∧ ¬JVal.Clean service

/-- `QuarantineSink.write` cannot hash its row. -/
theorem Message.Unencodable.quarantineRecord_ne_ok (h : m.Unencodable) (messageId : Str)
    (attempts : ℕ) (row : QuarantineRow) :
    quarantineRecord env messageId m.fields attempts ≠ .ok row := by
  intro hrow
  obtain ⟨raw, kvs, service, hdata, hloads, hservice, hdirty⟩ := h
  obtain ⟨key, keyId, hash, -, hhash, -⟩ := quarantineRecord_eq_ok hrow
  have hcanonical : (poisonRow messageId m.fields attempts).record.Canonical
      quarantineRecordFieldNames key (some keyId) :=
    (recordHash_isOk env.crypto false).mp ⟨hash, hhash⟩
  have hclean : (FieldValue.text (poisonRow messageId m.fields attempts).service).Canonical :=
    hcanonical.fields "service" (by decide)
  -- the service in the row is the one in the payload
  have hread : (poisonRow messageId m.fields attempts).service = some service := by
    show (classifyPoisonReason (m.fields.get "data")).service = some service
    rw [hdata, classifyPoisonReason, hloads]
    show serviceOf kvs = some service
    rw [serviceOf, hservice]
  exact hdirty (hclean service hread)

/-- `Sink.write` cannot hash its row either. -/
theorem Message.Unencodable.sinkRecord_ne_ok (h : m.Unencodable) {e : AuditEvent}
    (hparses : m.ParsesTo env e) (status : IntegrityStatus) (row : AuditRow) :
    sinkRecord env e status ≠ .ok row := by
  intro hrow
  obtain ⟨raw, kvs, service, hdata, hloads, hservice, hdirty⟩ := h
  obtain ⟨uuid, utcnow, hparse⟩ := hparses
  rw [hdata] at hparse
  obtain ⟨raw', kvs', hraw, hloads', hvalid⟩ := parseAuditEvent_eq_ok.mp hparse
  obtain rfl : raw = raw' := Option.some.inj hraw
  obtain rfl : kvs = kvs' := JVal.obj.inj (Except.ok.inj (hloads.symm.trans hloads'))
  have hsame : e.service = service := by
    have hread := serviceOf_of_validate hvalid
    rw [serviceOf, hservice] at hread
    exact (Option.some.inj hread).symm
  obtain ⟨key, keyId, time, hash, -, -, hhash, -⟩ := sinkRecord_eq_ok hrow
  have hcanonical : (eventRow e time status).record.Canonical auditEventFieldNames key
      (some keyId) := (recordHash_isOk env.crypto false).mp ⟨hash, hhash⟩
  have hclean : (FieldValue.text (some e.service)).Canonical :=
    hcanonical.fields "service" (by decide)
  exact hdirty (hsame ▸ hclean e.service rfl)

/-! ## What the quarantine is given -/

/-- There was an entry with this id. -/
def Shared.Seen (s : Shared) (id : StreamId) : Prop := ∃ m ∈ s.history, m.id = id

/-- The entry was trimmed, or another one had its id: it will not be in the stream again. -/
def Shared.Gone (s : Shared) (m : Message) : Prop := s.Seen m.id ∧ m ∉ s.stream

variable (m) in
/-- The entry is not in the quarantine as long as it is in the stream. -/
structure Shared.Spares (s : Shared) : Prop where
  ids : s.history.Pairwise fun a b => a.id < b.id
  stream : ∀ m' ∈ s.stream, m' ∈ s.history
  listed : ∀ g, s.group = some g → ∀ p ∈ g.pel, s.Seen p.id
  sources : ∀ q ∈ s.quarantined, ∃ id, s.Seen id ∧ q.stream_message_id = id.text
  spared : m ∈ s.stream → ∀ q ∈ s.quarantined, q.stream_message_id ≠ m.id.text

/-- Only the rows of a range reply are the entry's own, unless it is gone. -/
def FetchedFrom (m : Message) (id : StreamId) (range : List Message) (s : Shared) : Prop :=
  s.Seen id → id = m.id → StreamReader.fieldsOfRange range = m.fields ∨ s.Gone m

variable (m) in
/-- The contract: the entry is quarantined only once it is gone. -/
def spareContract : Contract workerSig Shared where
  inv := Shared.Spares m
  rely s t := (∀ id, s.Seen id → t.Seen id) ∧ (s.Gone m → t.Gone m)
  pre
    | .commitQuarantined source row, s => s.Seen source ∧ row.stream_message_id = source.text ∧
      (source = m.id → m ∉ s.stream)
    | _, _ => True
  post
    | .xpendingRange, .ok infos, s => ∀ id, InRows id infos → s.Seen id
    | .xrange id, .ok range, s => FetchedFrom m id range s
    | _, _, _ => True
  rely_refl _ := ⟨fun _ h => h, fun h => h⟩
  rely_trans h h' := ⟨fun id hs => h'.1 id (h.1 id hs), fun hs => h'.2 (h.2 hs)⟩

namespace Shared.Spares

/-- A change of the group whose pending ids were seen. -/
theorem of_group (h : s.Spares m) {o : Option Group}
    (hlisted : ∀ g, o = some g → ∀ p ∈ g.pel, s.Seen p.id) :
    ({ s with group := o } : Shared).Spares m :=
  ⟨h.ids, h.stream, hlisted, h.sources, h.spared⟩

/-- What `XRANGE` returns for the entry's id. -/
theorem fetched (h : s.Spares m) (id : StreamId) :
    FetchedFrom m id (s.stream.filter fun m' => m'.id = id) s := by
  rintro hseen rfl
  by_cases hm : m ∈ s.stream
  · left
    have hnodup : (s.history.map Message.id).Nodup :=
      List.pairwise_map.mpr (h.ids.imp fun hab => hab.ne)
    have hmem : m ∈ s.stream.filter fun m' => m'.id = m.id :=
      List.mem_filter.mpr ⟨hm, decide_eq_true rfl⟩
    cases hrange : s.stream.filter fun m' => m'.id = m.id with
    | nil =>
      rw [hrange] at hmem
      cases hmem
    | cons first rest =>
      -- ids are not used twice, so the first entry of the range is this one
      have hfirst : first ∈ s.stream.filter fun m' => m'.id = m.id :=
        hrange ▸ List.mem_cons_self
      have hid : first.id = m.id := of_decide_eq_true (List.mem_filter.mp hfirst).2
      have hsame : first = m := List.inj_on_of_nodup_map hnodup
        (h.stream first (List.mem_of_mem_filter hfirst)) (h.stream m hm) hid
      show first.fields = m.fields
      rw [hsame]
  · exact .inr ⟨hseen, hm⟩

/-- A carried out call spares the entry. -/
theorem executes (h : s.Spares m) {c : Call} (hpre : (spareContract m).pre c s) {v : c.Reply}
    (hexec : Executes env c s v t) :
    t.Spares m ∧ (spareContract m).rely s t ∧ (spareContract m).post c (.ok v) t := by
  have hrefl : (spareContract m).rely s s := (spareContract m).rely_refl s
  cases hexec with
  | xgroupCreate free =>
    refine ⟨h.of_group ?_, hrefl, trivial⟩
    rintro _ ⟨⟩ p hp
    cases hp
  | @xreadgroup _ g consumer hg =>
    refine ⟨h.of_group ?_, hrefl, trivial⟩
    rintro _ ⟨⟩ p hp
    rcases List.mem_append.mp hp with hp | hp
    · exact h.listed g hg p hp
    · obtain ⟨m', hm', rfl⟩ := List.mem_map.mp hp
      exact ⟨m', h.stream m' (Group.mem_newMessages hm'), rfl⟩
  | @xpendingRange _ g infos hg hinfos =>
    refine ⟨⟨h.ids, h.stream, h.listed, h.sources, h.spared⟩, hrefl, ?_⟩
    rintro _ ⟨info, hinfo, rfl⟩
    rw [hinfos] at hinfo
    obtain ⟨p, hp, hid⟩ := Group.lists_of_mem_pendingRange hinfo
    exact hid ▸ h.listed g hg p hp
  | @xrange _ id => exact ⟨h, hrefl, h.fetched id⟩
  | @xclaim _ g consumer ids hg =>
    refine ⟨h.of_group ?_, hrefl, trivial⟩
    rintro _ ⟨⟩ p hp
    obtain ⟨p', hp', hid⟩ := Group.lists_of_claim ⟨p, hp, rfl⟩
    exact hid ▸ h.listed g hg p' hp'
  | @xack _ id reason =>
    refine ⟨⟨h.ids, h.stream, ?_, h.sources, h.spared⟩, hrefl, trivial⟩
    intro g' hg' p hp
    obtain ⟨g, hg, rfl⟩ := Option.map_eq_some_iff.mp hg'
    exact h.listed g hg p (List.mem_of_mem_filter hp)
  | @commitQuarantined _ source row fits free =>
    -- the one call that adds a row: it is of an entry that was seen, and not of `m`
    obtain ⟨hseen, htext, hgone⟩ := hpre
    refine ⟨⟨h.ids, h.stream, h.listed, fun q hq => ?_, fun hm q hq hid => ?_⟩, hrefl, trivial⟩
    · rcases List.mem_append.mp hq with hq | hq
      · exact h.sources q hq
      · rw [List.mem_singleton.mp hq]
        exact ⟨source, hseen, htext⟩
    · rcases List.mem_append.mp hq with hq | hq
      · exact h.spared hm q hq hid
      · rw [List.mem_singleton.mp hq] at hid
        exact hgone (StreamId.text_injective (htext.symm.trans hid)) hm
  | _ => exact ⟨⟨h.ids, h.stream, h.listed, h.sources, h.spared⟩, hrefl, trivial⟩

/-- What happens without a worker brings no entry back. -/
theorem drift (h : s.Spares m) (hdrift : Drift s t) :
    t.Spares m ∧ (spareContract m).rely s t := by
  cases hdrift with
  | tick ms => exact ⟨⟨h.ids, h.stream, h.listed, h.sources, h.spared⟩, (spareContract m).rely_refl s⟩
  | @xadd m' positive newer =>
    have hseen : ∀ id, s.Seen id →
        ({ s with stream := s.stream ++ [m'], history := s.history ++ [m'] } : Shared).Seen id := by
      rintro id ⟨m₁, hm₁, hid⟩
      exact ⟨m₁, List.mem_append_left _ hm₁, hid⟩
    refine ⟨⟨?_, fun m₁ hm₁ => ?_, fun g hg p hp => hseen _ (h.listed g hg p hp),
      fun q hq => ?_, fun hm q hq hid => ?_⟩, hseen, ?_⟩
    · rw [List.pairwise_append]
      refine ⟨h.ids, List.pairwise_singleton _ _, fun a ha b hb => ?_⟩
      rw [List.mem_singleton.mp hb]
      exact newer a ha
    · rcases List.mem_append.mp hm₁ with hm₁ | hm₁
      · exact List.mem_append_left _ (h.stream m₁ hm₁)
      · exact List.mem_append_right _ hm₁
    · obtain ⟨id, hid, htext⟩ := h.sources q hq
      exact ⟨id, hseen id hid, htext⟩
    · rcases List.mem_append.mp hm with hm | hm
      · exact h.spared hm q hq hid
      · -- the ids in the quarantine are older than a new one
        obtain ⟨id, ⟨m₁, hm₁, hid₁⟩, htext⟩ := h.sources q hq
        have hlt : m₁.id < m'.id := newer m₁ hm₁
        rw [hid₁, ← List.mem_singleton.mp hm, StreamId.text_injective (htext.symm.trans hid)] at hlt
        exact lt_irrefl _ hlt
    · rintro ⟨⟨m₁, hm₁, hid⟩, hgone⟩
      refine ⟨hseen _ ⟨m₁, hm₁, hid⟩, fun hmem => ?_⟩
      -- a new id is larger than those there were
      rcases List.mem_append.mp hmem with hmem | hmem
      · exact hgone hmem
      · have hlt : m₁.id < m'.id := newer m₁ hm₁
        rw [hid, List.mem_singleton.mp hmem] at hlt
        exact lt_irrefl _ hlt
  | trim hkept =>
    refine ⟨⟨h.ids, fun m' hm' => h.stream m' (hkept.subset hm'), h.listed, h.sources,
      fun hm => h.spared (hkept.subset hm)⟩, fun _ hs => hs, ?_⟩
    exact fun hgone => ⟨hgone.1, fun hmem => hgone.2 (hkept.subset hmem)⟩
  | groupLost =>
    refine ⟨h.of_group ?_, (spareContract m).rely_refl s⟩
    rintro _ ⟨⟩

end Shared.Spares

theorem spare_sound : (spareContract m).Sound (world env) where
  call := by
    intro c s r t hi hpre hanswer
    have herror : ∀ e (u : Shared), (spareContract m).post c (.error e) u := by
      intro e u
      cases c <;> trivial
    cases hanswer with
    | done hexec => exact Shared.Spares.executes hi hpre hexec
    | lost hexec he =>
      obtain ⟨hspares, hrely, -⟩ := Shared.Spares.executes hi hpre hexec
      exact ⟨hspares, hrely, herror _ _⟩
    | refused hfails => exact ⟨hi, (spareContract m).rely_refl _, herror _ _⟩
  drift hi hd := Shared.Spares.drift hi hd

/-- What `quarantine_and_ack` commits is the row of its own entry. -/
def Call.CommitsRowOf (env : Env) (entry : StreamReader.PoisonEntry) : Call → Prop
  | .commitQuarantined source row => source = entry.message_id ∧
    quarantineRecord env entry.message_id.text entry.fields entry.delivery_attempts = .ok row
  | _ => True

variable (env) in
theorem commitsRowOf_quarantineAndAck (entry : StreamReader.PoisonEntry) :
    (quarantineAndAck env entry).All (Call.CommitsRowOf env entry) := by
  have hwrite : (QuarantineSink.write env entry.message_id entry.fields
      entry.delivery_attempts).All (Call.CommitsRowOf env entry) := by
    unfold QuarantineSink.write
    cases hrow : quarantineRecord env entry.message_id.text entry.fields
        entry.delivery_attempts with
    | error e => trivial
    | ok row =>
      have hcommit : Call.CommitsRowOf env entry (.commitQuarantined entry.message_id row) :=
        ⟨rfl, hrow⟩
      rw [Prog.ofExcept_ok, Prog.ret_bind]
      refine Prog.All.bind ?_ fun _ => (Prog.all_perform trivial).bind fun _ => trivial
      refine Prog.All.bind (Prog.all_perform hcommit).attempt fun o => ?_
      cases o with
      | ok _ => trivial
      | error e =>
        cases e with
        | integrityError => exact Prog.all_perform trivial
        | _ => trivial
  refine Prog.All.bind (Prog.all_perform trivial) fun _ => ?_
  refine ((calls_tryWrite hwrite fun _ => trivial).ensuring (Prog.all_perform trivial)).bind
    fun written => ?_
  cases written with
  | false => trivial
  | true =>
    exact (Prog.all_perform trivial).bind fun _ => (Prog.all_perform trivial).bind fun _ => trivial

/-- The workers quarantine the entry only without its payload. -/
theorem spare_rule (hbad : m.Unencodable) : LoopRule env (spareContract m)
    (fun info s => s.Seen info.message_id) (fun _ _ => True)
    (fun entry s => s.Seen entry.message_id ∧
      (entry.message_id = m.id → entry.fields = m.fields ∨ s.Gone m)) where
  row h hrely := hrely.1 _ h
  known _ _ := trivial
  poison h hrely := ⟨hrely.1 _ h.1, fun hid => (h.2 hid).imp_right hrely.2⟩
  recreates hc _ := by
    cases ‹Call› with
    | commitQuarantined source row => exact hc.elim
    | _ => trivial
  sleeps _ _ := trivial
  reads _ _ := trivial
  received _ _ _ _ _ := trivial
  lists _ := trivial
  listed hpost info hinfo := hpost info.message_id ⟨info, hinfo, rfl⟩
  ranges _ _ := trivial
  fetched hseen hpost := ⟨hseen, fun hid => hpost hseen hid⟩
  claims _ _ := trivial
  claimed _ _ _ := trivial
  handleMessage m' s _ _ := by
    refine Safe.of_all (calls_handleMessage env m') (fun c t hc => ?_) s
    cases c with
    | commitQuarantined source row => exact hc.elim
    | _ => trivial
  quarantineAndAck entry s _ hpoison := by
    apply Safe.of_all_while (commitsRowOf_quarantineAndAck env entry) (J := fun t =>
      t.Seen entry.message_id ∧ (entry.message_id = m.id → entry.fields = m.fields ∨ t.Gone m)) _ _
      hpoison
    · exact fun h hrely => ⟨hrely.1 _ h.1, fun hid => (h.2 hid).imp_right hrely.2⟩
    · rintro c t hc ⟨hseen, hfields⟩
      cases c with
      | commitQuarantined source row =>
        obtain ⟨rfl, hrow⟩ := hc
        have htext : row.stream_message_id = entry.message_id.text := by
          obtain ⟨_, _, _, -, -, rfl⟩ := quarantineRecord_eq_ok hrow
          rfl
        refine ⟨hseen, htext, fun hid => ?_⟩
        rcases hfields hid with hown | hgone
        · -- with the payload there is no row to commit
          rw [hown] at hrow
          exact absurd hrow (hbad.quarantineRecord_ne_ok _ _ row)
        · exact hgone.2
      | _ => trivial

/-- **An entry that nobody can settle.** As long as an entry whose `service` cannot be encoded is in
the stream, it is not acknowledged and has no row, in any run. -/
theorem unencodable_never_acked (h : Reachable env s) (hm : m ∈ s.stream)
    (hbad : m.Unencodable) :
    ¬s.Acked m.id ∧ (∀ r ∈ s.auditEvents, r.1 ≠ m.id) ∧
      ∀ q ∈ s.quarantined, q.stream_message_id ≠ m.id.text := by
  obtain ⟨cfg, hreach, rfl⟩ := h
  have hinitial : Shared.initial.Spares m := by
    refine ⟨.nil, ?_, ?_, ?_, ?_⟩ <;> simp [Shared.initial]
  have hrule : LoopRule env (spareContract m) _ _ _ := spare_rule hbad
  have hspares : cfg.state.Spares m :=
    (spare_sound.reach (fun p hp s hi => hrule.worker hp hi) hinitial hreach).1
  -- an event that was handled had a row to write
  have hi : Inv env (fun _ e status => ∃ row, sinkRecord env e status = .ok row) cfg.state :=
    inv_of_reachableWhen (fun hrow _ => ⟨_, hrow⟩) (fun _ _ _ hrow => ⟨_, hrow⟩)
      (Reachable.when ⟨cfg, hreach, rfl⟩)
  have hknown : m ∈ cfg.state.history := hspares.stream m hm
  refine ⟨?_, fun r hr hid => ?_, hspares.spared hm⟩
  · rintro ⟨reason, hacked⟩
    have hevidence := hi.acked _ hacked
    cases reason with
    | handled e status =>
      obtain ⟨-, hparsed, r, -, row, hrow⟩ := hevidence
      obtain ⟨m', hm', hid, hparses⟩ := hi.parsed _ hparsed
      rw [hi.message_unique hm' hknown hid] at hparses
      exact hbad.sinkRecord_ne_ok hparses status row hrow
    | quarantined =>
      obtain ⟨q, hq, hid⟩ := hevidence
      exact hspares.spared hm q hq hid
  · obtain ⟨e, row, hparses, hrow, -⟩ := hi.row_parsed hknown hr hid
    exact hbad.sinkRecord_ne_ok hparses _ row hrow

namespace Sample

/-- The service is half of a surrogate pair. -/
def halvedData : Str := str "\x7b\"service\": \"\\ud800\", \"event_type\": \"login\"\x7d"

def halved : Message := ⟨toLex (1, 0), [(str "data", halvedData)]⟩

theorem unencodable_halved : halved.Unencodable := by
  have hcheck : ((JVal.loads halvedData).toOption.any fun v =>
      (AuditEvent.dictField v).toOption.any fun kvs =>
        (serviceOf kvs).any fun service => service.any isSurrogate) = true := by decide +kernel
  cases hloads : JVal.loads halvedData with
  | error e =>
    rw [hloads] at hcheck
    cases hcheck
  | ok v =>
    rw [hloads] at hcheck
    cases v with
    | obj kvs =>
      obtain ⟨service, hservice, hdirty⟩ := (Option.any_eq_true _ _).mp
        (show (serviceOf kvs).any (fun service => service.any isSurrogate) = true from hcheck)
      obtain ⟨c, hc, hsurrogate⟩ := List.any_eq_true.mp hdirty
      refine ⟨halvedData, kvs, service, by decide +kernel, hloads, ?_, fun hclean => ?_⟩
      · unfold serviceOf at hservice
        split at hservice
        · next hlookup => rw [hlookup, Option.some.inj hservice]
        · cases hservice
      · rw [hclean c hc] at hsurrogate
        cases hsurrogate
    | _ => cases hcheck

end Sample

/-- Such an entry is read by a worker, and stays pending. -/
theorem unencodable_never_acked_read : ∃ s, Reachable Sample.env s ∧ Sample.halved ∈ s.stream ∧
    (∃ g, s.group = some g ∧ g.Lists Sample.halved.id) ∧
    ¬s.Acked Sample.halved.id ∧ (∀ r ∈ s.auditEvents, r.1 ≠ Sample.halved.id) ∧
      ∀ q ∈ s.quarantined, q.stream_message_id ≠ Sample.halved.id.text := by
  have hpositive : ∀ m ∈ [Sample.halved], toLex (0, 0) < m.id := by decide
  have hrun : Quiet Sample.env everything (Shared.received [Sample.halved] (str "worker-1")) :=
    (Quiet.added hpositive (List.pairwise_singleton _ _)).visit (solo_run_first lenient_everything
      (List.cons_ne_nil _ _) hpositive (by simp) (fun _ _ => trivial) (.here _ _))
  have hreach := hrun.reachableWhen.reachable
  have hmem : Sample.halved ∈ (Shared.received [Sample.halved] (str "worker-1")).stream :=
    List.mem_singleton.mpr rfl
  exact ⟨_, hreach, hmem, ⟨_, rfl, _, List.mem_singleton.mpr rfl, rfl⟩,
    unencodable_never_acked hreach hmem Sample.unencodable_halved⟩

end SecurityAudit
