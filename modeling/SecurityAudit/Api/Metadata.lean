import SecurityAudit.Api.Pages

/-!
# What the read routes show of the context

Both read routes replace the context of a row by `project_safe_metadata`, which keeps the members
of the outermost object whose keys are on the allowlist, each with its whole value. A value that
is a text or a number has nothing more to show. An array or an object under an allowlisted key is
shown with all that is in it, and only where every key in it is on the allowlist too do the
routes show allowlisted keys alone.
-/

namespace SecurityAudit

/-- The key occurs in some object of the value. -/
inductive JVal.Mentions (key : Str) : JVal → Prop where
  | elem {xs : List JVal} {x : JVal} (mem : x ∈ xs) (h : Mentions key x) : Mentions key (.arr xs)
  | key {kvs : List (Str × JVal)} {v : JVal} (mem : (key, v) ∈ kvs) : Mentions key (.obj kvs)
  | member {kvs : List (Str × JVal)} {kv : Str × JVal} (mem : kv ∈ kvs)
      (h : Mentions key kv.2) : Mentions key (.obj kvs)

/-- A value that is neither an array nor an object. -/
def JVal.IsScalar : JVal → Prop
  | .arr _ => False
  | .obj _ => False
  | _ => True

theorem JVal.IsScalar.not_mentions {v : JVal} (h : v.IsScalar) (key : Str) : ¬v.Mentions key := by
  intro hm
  cases hm <;> exact h

namespace AuditQuery

/-- `k in SAFE_METADATA_KEYS`. -/
def SafeKey (k : Str) : Prop := ∃ key ∈ safeMetadataKeys, k = str key

/-- Every key that occurs anywhere in the value is on the allowlist. -/
def OnlySafeKeys (v : JVal) : Prop := ∀ k, v.Mentions k → SafeKey k

/-- The contexts agree on the scalar values of allowlisted keys. -/
def ScalarsAgree (c c' : List (Str × JVal)) : Prop :=
  ∀ key ∈ safeMetadataKeys, ∀ v : JVal, v.IsScalar →
    (JVal.lookup (str key) c = some v ↔ JVal.lookup (str key) c' = some v)

/-- What is not a scalar under an allowlisted key has allowlisted keys only, and is the same in
both contexts. -/
def NestedSafely (c c' : List (Str × JVal)) : Prop :=
  ∀ key ∈ safeMetadataKeys, ∀ v : JVal, ¬v.IsScalar →
    (JVal.lookup (str key) c = some v ↔ JVal.lookup (str key) c' = some v) ∧
      (JVal.lookup (str key) c = some v → OnlySafeKeys v)

/-! ## The projection -/

/-- `project_safe_metadata` of an object. -/
def projected (context : List (Str × JVal)) : List (Str × JVal) :=
  safeMetadataKeys.filterMap fun key =>
    (JVal.lookup (str key) context).map fun v => (str key, v)

theorem projectSafeMetadata_obj {r : AuditRow} {context : List (Str × JVal)}
    (h : r.context = .obj context) : projectSafeMetadata r = projected context := by
  unfold projectSafeMetadata
  rw [h]
  rfl

theorem mem_projected {context : List (Str × JVal)} {kv : Str × JVal} :
    kv ∈ projected context ↔
      ∃ key ∈ safeMetadataKeys, JVal.lookup (str key) context = some kv.2 ∧ kv.1 = str key := by
  obtain ⟨k, v⟩ := kv
  simp only [projected, List.mem_filterMap, Option.map_eq_some_iff, Prod.mk.injEq]
  constructor
  · rintro ⟨key, hkey, w, hlookup, rfl, rfl⟩
    exact ⟨key, hkey, hlookup, rfl⟩
  · rintro ⟨key, hkey, hlookup, rfl⟩
    exact ⟨key, hkey, v, hlookup, rfl, rfl⟩

/-- The projection shows allowlisted keys only, exactly if what is under them does. -/
theorem onlySafeKeys_projected (context : List (Str × JVal)) :
    OnlySafeKeys (.obj (projected context)) ↔
      ∀ key ∈ safeMetadataKeys, ∀ v, JVal.lookup (str key) context = some v → OnlySafeKeys v := by
  constructor
  · intro h key hkey v hlookup k hk
    have hmem : (str key, v) ∈ projected context := mem_projected.mpr ⟨key, hkey, hlookup, rfl⟩
    exact h k (.member hmem hk)
  · intro h k hk
    cases hk with
    | key hmem =>
      obtain ⟨key, hkey, -, hk⟩ := mem_projected.mp hmem
      exact ⟨key, hkey, hk⟩
    | member hmem hk =>
      obtain ⟨key, hkey, hlookup, -⟩ := mem_projected.mp hmem
      exact h key hkey _ hlookup k hk

/-- Two projections are the same exactly if the contexts agree on the allowlisted keys. -/
theorem projected_eq_iff {c c' : List (Str × JVal)} : projected c = projected c' ↔
    ∀ key ∈ safeMetadataKeys, JVal.lookup (str key) c = JVal.lookup (str key) c' := by
  have hof : ∀ {c c' : List (Str × JVal)}, projected c = projected c' →
      ∀ key ∈ safeMetadataKeys, ∀ v, JVal.lookup (str key) c = some v →
        JVal.lookup (str key) c' = some v := by
    intro c c' h key hkey v hlookup
    have hmem : (str key, v) ∈ projected c := mem_projected.mpr ⟨key, hkey, hlookup, rfl⟩
    rw [h] at hmem
    obtain ⟨key', -, hlookup', hstr⟩ := mem_projected.mp hmem
    rwa [str_injective hstr]
  constructor
  · intro h key hkey
    exact Option.ext fun v => ⟨hof h key hkey v, hof h.symm key hkey v⟩
  · intro h
    refine List.filterMap_congr fun key hkey => ?_
    rw [h key hkey]

/-- Where the scalars agree, only what is nested can differ. -/
theorem nestedSafely_iff {c c' : List (Str × JVal)} (h : ScalarsAgree c c') :
    NestedSafely c c' ↔ projected c = projected c' ∧ OnlySafeKeys (.obj (projected c)) := by
  rw [projected_eq_iff, onlySafeKeys_projected]
  constructor
  · intro hnested
    refine ⟨fun key hkey => Option.ext fun v => ?_, fun key hkey v hlookup => ?_⟩
    · by_cases hv : v.IsScalar
      · exact h key hkey v hv
      · exact (hnested key hkey v hv).1
    · by_cases hv : v.IsScalar
      · exact fun k hk => absurd hk (hv.not_mentions k)
      · exact (hnested key hkey v hv).2 hlookup
  · rintro ⟨hsame, hsafe⟩ key hkey v -
    exact ⟨by rw [hsame key hkey], hsafe key hkey v⟩

end AuditQuery

open AuditQuery

/-! ## The routes -/

/-- The ledger with other contexts. -/
def AuditTable.withContexts (t : AuditTable) (context : AuditRow → List (Str × JVal)) :
    AuditTable where
  rows := t.rows.map fun r => { r with context := .obj (context r) }
  primaryKey := by
    rw [List.map_map]
    exact t.primaryKey

/-- Every key in the metadata and the contexts that the routes show of the ledger is on the
allowlist. -/
structure ShowsSafeKeys (t : AuditTable) : Prop where
  safe : ∀ q organization_id access body,
    listSafeAuditEventsRoute q organization_id access (some t) = .ok (.list body) →
      ∀ item ∈ body.items, OnlySafeKeys (.obj item.metadata)
  all : ∀ page page_size f body, listAuditEventsRoute page page_size f (some t) = .ok (some body) →
    ∀ item ∈ body.items, OnlySafeKeys (.obj item.context)

/-- Every request is answered from both ledgers alike. -/
structure SameAnswers (t t' : AuditTable) : Prop where
  safe : ∀ q organization_id access, listSafeAuditEventsRoute q organization_id access (some t) =
    listSafeAuditEventsRoute q organization_id access (some t')
  all : ∀ page page_size f, listAuditEventsRoute page page_size f (some t) =
    listAuditEventsRoute page page_size f (some t')

/-! ### What is selected -/

/-- A query whose condition does not read the context selects the same rows. -/
theorem pageAndTotal_withContexts (t : AuditTable) (context : AuditRow → List (Str × JVal))
    {p : AuditRow → Bool} (hp : ∀ r, p { r with context := .obj (context r) } = p r)
    (page page_size : ℕ) :
    pageAndTotal (t.withContexts context) p page page_size =
      ((pageAndTotal t p page page_size).1.map fun r => { r with context := .obj (context r) },
        (pageAndTotal t p page page_size).2) :=
  Prod.ext (Select.page_map hp (fun _ _ => Iff.rfl) _ _ t.rows) (Select.count_map hp t.rows)

/-- A page holds rows of the ledger. -/
theorem mem_of_mem_page {t : AuditTable} {p : AuditRow → Bool} {page page_size : ℕ} {r : AuditRow}
    (h : r ∈ (pageAndTotal t p page page_size).1) : r ∈ t.rows := by
  have hsorted := List.mem_of_mem_drop (List.mem_of_mem_take h)
  exact (List.mem_filter.mp ((List.mem_insertionSort _).mp hsorted)).1

/-- The answer of the tenant-safe route that is a list. -/
theorem safeRoute_list {q : SafeQuery} {organization_id : Option Str} {access : AuditAccess}
    {t : AuditTable} {body : SafeAuditEventList}
    (h : listSafeAuditEventsRoute q organization_id access (some t) = .ok (.list body)) :
    ∃ organization_id', body = safeBody q (listSafeAuditEvents t q.page q.page_size organization_id'
      access.platform_wide q.filters) := by
  unfold listSafeAuditEventsRoute at h
  obtain ⟨reversed, -, h⟩ := bind_eq_ok.mp h
  cases reversed with
  | true => cases Except.ok.inj h
  | false =>
    rw [if_neg Bool.false_ne_true] at h
    split_ifs at h
    · cases Except.ok.inj h
    · exact ⟨_, (SafeResponse.list.inj (Except.ok.inj h)).symm⟩
    · exact ⟨_, (SafeResponse.list.inj (Except.ok.inj h)).symm⟩

/-- The answer of the other route. -/
theorem listAuditEventsRoute_eq (page page_size : ℕ) (f : Filters) (t : AuditTable) :
    listAuditEventsRoute page page_size f (some t) =
      ((listAuditEvents t page page_size none f).1.mapM auditEventOut).map fun items =>
        some ⟨items, (listAuditEvents t page page_size none f).2, page, page_size,
          totalPages (listAuditEvents t page page_size none f).2 page_size⟩ := by
  unfold listAuditEventsRoute
  cases hresult : listAuditEvents t page page_size none f with
  | mk rows total =>
    simp only [hresult]
    cases rows.mapM auditEventOut <;> rfl

/-- Some request of a caller with access to everything shows the row. -/
theorem exists_shown {t : AuditTable} {r : AuditRow} (h : r ∈ t.rows) :
    ∃ q : SafeQuery, r ∈ (listSafeAuditEvents t q.page q.page_size none true q.filters).1 ∧
      ∀ t', listSafeAuditEventsRoute q none ⟨true, none⟩ (some t') =
        .ok (.list (safeBody q (listSafeAuditEvents t' q.page q.page_size none true q.filters))) := by
  let f : Filters := ⟨none, none, none, none, none, none, none⟩
  have hall : ∀ r, (inScope none true r && f.onColumns r && f.onTimestamp r) = true ↔ True :=
    fun r => iff_of_true rfl trivial
  have hpartition := partition_pageAndTotal t hall (le_refl 1)
  obtain ⟨k, -, hk⟩ := List.mem_flatMap.mp ((hpartition.matching r).mpr ⟨h, trivial⟩)
  exact ⟨⟨k + 1, 1, f, by omega, le_refl 1, by omega⟩, hk, fun t' => rfl⟩

/-- What a loop that returned made of its elements. -/
theorem mem_of_mapM {α β : Type} {f : α → Except Exc β} {xs : List α} {ys : List β}
    (h : xs.mapM f = .ok ys) {y : β} (hy : y ∈ ys) : ∃ x ∈ xs, f x = .ok y := by
  induction xs generalizing ys with
  | nil =>
    cases Except.ok.inj h
    cases hy
  | cons x xs ih =>
    rw [List.mapM_cons] at h
    obtain ⟨z, hz, h⟩ := bind_eq_ok.mp h
    obtain ⟨zs, hzs, h⟩ := bind_eq_ok.mp h
    rw [← Except.ok.inj h] at hy
    rcases List.mem_cons.mp hy with rfl | hy
    · exact ⟨x, by simp, hz⟩
    · obtain ⟨x', hx', hfx'⟩ := ih hzs hy
      exact ⟨x', by simp [hx'], hfx'⟩

/-- What the routes show of the contexts is the projections of the rows. -/
theorem showsSafeKeys_iff (t : AuditTable) :
    ShowsSafeKeys t ↔ ∀ r ∈ t.rows, OnlySafeKeys (.obj (projectSafeMetadata r)) := by
  constructor
  · intro h r hr
    obtain ⟨q, hpage, hroute⟩ := exists_shown hr
    exact h.safe q none ⟨true, none⟩ _ (hroute t) (safeItem r) (List.mem_map_of_mem hpage)
  · intro h
    constructor
    · intro q organization_id access body hbody item hitem
      obtain ⟨_, rfl⟩ := safeRoute_list hbody
      obtain ⟨r, hr, rfl⟩ := List.mem_map.mp hitem
      exact h r (mem_of_mem_page hr)
    · intro page page_size f body hbody item hitem
      rw [listAuditEventsRoute_eq] at hbody
      obtain ⟨items, hitems, hbody⟩ := map_eq_ok.mp hbody
      obtain rfl := Option.some.inj hbody
      obtain ⟨r, hr, hout⟩ := mem_of_mapM hitems hitem
      have hcontext : item.context = projectSafeMetadata r := by
        unfold auditEventOut at hout
        split at hout
        · rw [← Except.ok.inj hout]
        · cases hout
      rw [hcontext]
      exact h r (mem_of_mem_page hr)

/-- Two ledgers that differ in their contexts only answer alike, exactly if the projections are
the same. -/
theorem sameAnswers_iff {t : AuditTable} (hobject : ∀ r ∈ t.rows, ∃ c, r.context = .obj c)
    (context : AuditRow → List (Str × JVal)) :
    SameAnswers t (t.withContexts context) ↔
      ∀ r ∈ t.rows, projectSafeMetadata r = projected (context r) := by
  constructor
  · intro h r hr
    obtain ⟨q, hpage, hroute⟩ := exists_shown hr
    have hsame := h.safe q none ⟨true, none⟩
    rw [hroute, hroute] at hsame
    have hitems := congrArg SafeAuditEventList.items (SafeResponse.list.inj (Except.ok.inj hsame))
    have hselected : listSafeAuditEvents (t.withContexts context) q.page q.page_size none true
        q.filters = _ := pageAndTotal_withContexts t context (fun _ => rfl) q.page q.page_size
    rw [hselected, safeBody, safeBody] at hitems
    simp only [List.map_map] at hitems
    exact congrArg SafeAuditEventOut.metadata (List.map_inj_left.mp hitems r hpage)
  · intro h
    have hitem : ∀ r ∈ t.rows, safeItem { r with context := .obj (context r) } = safeItem r := by
      intro r hr
      show ({ safeItem r with metadata := projected (context r) } : SafeAuditEventOut) = safeItem r
      rw [← h r hr]
      rfl
    have hout : ∀ r ∈ t.rows,
        auditEventOut { r with context := .obj (context r) } = auditEventOut r := by
      intro r hr
      obtain ⟨c, hc⟩ := hobject r hr
      have hprojected := h r hr
      unfold auditEventOut
      rw [hc, hprojected]
      rfl
    constructor
    · intro q organization_id access
      have hbody : ∀ org pw, safeBody q (listSafeAuditEvents t q.page q.page_size org pw q.filters) =
          safeBody q (listSafeAuditEvents (t.withContexts context) q.page q.page_size org pw
            q.filters) := by
        intro org pw
        have hselected : listSafeAuditEvents (t.withContexts context) q.page q.page_size org pw
            q.filters = _ := pageAndTotal_withContexts t context (fun _ => rfl) q.page q.page_size
        rw [hselected, safeBody, safeBody, List.map_map]
        congr 1
        exact List.map_congr_left fun r hr => (hitem r (mem_of_mem_page hr)).symm
      unfold listSafeAuditEventsRoute
      simp only [hbody]
    · intro page page_size f
      have hselected : listAuditEvents (t.withContexts context) page page_size none f = _ :=
        pageAndTotal_withContexts t context (fun _ => rfl) page page_size
      have hmapM : ∀ rows : List AuditRow, (∀ r ∈ rows, r ∈ t.rows) →
          (rows.map fun r => { r with context := .obj (context r) }).mapM auditEventOut =
            rows.mapM auditEventOut := by
        intro rows hrows
        induction rows with
        | nil => rfl
        | cons r rows ih =>
          rw [List.map_cons, List.mapM_cons, List.mapM_cons, hout r (hrows r (by simp)),
            ih fun x hx => hrows x (by simp [hx])]
      rw [listAuditEventsRoute_eq, listAuditEventsRoute_eq, hselected,
        hmapM _ fun r hr => mem_of_mem_page hr]
      rfl

/-- **Safe metadata is allowlisted at every depth**, and shows nothing but the scalar values of
allowlisted keys, of every ledger and any other contexts that agree with its own on those,
exactly if what is nested under allowlisted keys has allowlisted keys only and is the same. -/
theorem safe_metadata_iff {t : AuditTable} (hobject : ∀ r ∈ t.rows, ∃ c, r.context = .obj c)
    (context : AuditRow → List (Str × JVal))
    (hagree : ∀ r ∈ t.rows, ∀ c, r.context = .obj c → ScalarsAgree c (context r)) :
    (ShowsSafeKeys t ∧ ShowsSafeKeys (t.withContexts context) ∧
      SameAnswers t (t.withContexts context)) ↔
      ∀ r ∈ t.rows, ∀ c, r.context = .obj c → NestedSafely c (context r) := by
  rw [showsSafeKeys_iff, showsSafeKeys_iff, sameAnswers_iff hobject context]
  have hother : (∀ r ∈ (t.withContexts context).rows, OnlySafeKeys (.obj (projectSafeMetadata r))) ↔
      ∀ r ∈ t.rows, OnlySafeKeys (.obj (projected (context r))) := List.forall_mem_map
  rw [hother]
  constructor
  · rintro ⟨hsafe, -, hsame⟩ r hr c hc
    rw [nestedSafely_iff (hagree r hr c hc), ← projectSafeMetadata_obj hc]
    exact ⟨hsame r hr, hsafe r hr⟩
  · intro h
    have hrow : ∀ r ∈ t.rows, projectSafeMetadata r = projected (context r) ∧
        OnlySafeKeys (.obj (projectSafeMetadata r)) := by
      intro r hr
      obtain ⟨c, hc⟩ := hobject r hr
      rw [projectSafeMetadata_obj hc]
      exact (nestedSafely_iff (hagree r hr c hc)).mp (h r hr c hc)
    refine ⟨fun r hr => (hrow r hr).2, fun r hr => ?_, fun r hr => (hrow r hr).1⟩
    rw [← (hrow r hr).1]
    exact (hrow r hr).2

/-! ## Nested and flat contexts -/

namespace Sample

/-- A password under an allowlisted key. -/
def nestedContext (password : String) : List (Str × JVal) :=
  [(str "run_id", .obj [(str "password", .str (str password))])]

/-- A password beside an allowlisted key. -/
def flatContext (password : String) : List (Str × JVal) :=
  [(str "run_id", .str (str "run-1")), (str "password", .str (str password))]

/-- A ledger of one event. -/
def ledgerOf (context : List (Str × JVal)) : AuditTable :=
  ⟨[{ rowOf "evt-1" "1" with context := .obj context }], List.nodup_singleton _⟩

theorem ledgerOf_object {context : List (Str × JVal)} :
    ∀ r ∈ (ledgerOf context).rows, ∃ c, r.context = .obj c :=
  List.forall_mem_singleton.mpr ⟨context, rfl⟩

theorem ledgerOf_agree {context context' : List (Str × JVal)} (h : ScalarsAgree context context') :
    ∀ r ∈ (ledgerOf context).rows, ∀ c, r.context = .obj c → ScalarsAgree c context' := by
  refine List.forall_mem_singleton.mpr fun c hc => ?_
  rw [← JVal.obj.inj hc]
  exact h

end Sample

/-- A password under an allowlisted key is shown, with its key. -/
theorem safe_metadata_shows_password :
    (¬∀ t : AuditTable, (∀ r ∈ t.rows, ∃ c, r.context = .obj c) → ShowsSafeKeys t) ∧
      ¬∀ (t : AuditTable) (context : AuditRow → List (Str × JVal)),
        (∀ r ∈ t.rows, ∃ c, r.context = .obj c) →
        (∀ r ∈ t.rows, ∀ c, r.context = .obj c → ScalarsAgree c (context r)) →
          SameAnswers t (t.withContexts context) := by
  constructor
  · intro h
    have hshows := (showsSafeKeys_iff _).mp
      (h (Sample.ledgerOf (Sample.nestedContext "hunter1")) Sample.ledgerOf_object)
    have hkeys : OnlySafeKeys (.obj (projected (Sample.nestedContext "hunter1"))) :=
      hshows _ List.mem_cons_self
    have hmentions : JVal.Mentions (str "password")
        (.obj (projected (Sample.nestedContext "hunter1"))) :=
      .member List.mem_cons_self (.key List.mem_cons_self)
    have hunsafe : ¬∃ key ∈ safeMetadataKeys, str "password" = str key := by decide
    exact hunsafe (hkeys _ hmentions)
  · intro h
    have hagree : ScalarsAgree (Sample.nestedContext "hunter1") (Sample.nestedContext "hunter2") := by
      intro key hkey v hv
      have hnone : ∀ password, JVal.lookup (str key) (Sample.nestedContext password) ≠ some v := by
        intro password hlookup
        obtain ⟨kv, hkv, rfl⟩ := Option.map_eq_some_iff.mp hlookup
        rw [List.mem_singleton.mp (List.mem_of_find?_eq_some hkv)] at hv
        exact hv
      exact iff_of_false (hnone "hunter1") (hnone "hunter2")
    have hsame := h (Sample.ledgerOf (Sample.nestedContext "hunter1"))
      (fun _ => Sample.nestedContext "hunter2") Sample.ledgerOf_object (Sample.ledgerOf_agree hagree)
    have hprojected : projected (Sample.nestedContext "hunter1") =
        projected (Sample.nestedContext "hunter2") :=
      (sameAnswers_iff Sample.ledgerOf_object _).mp hsame _ List.mem_cons_self
    obtain ⟨hkv, -⟩ := List.cons.inj hprojected
    obtain ⟨hmember, -⟩ := List.cons.inj (JVal.obj.inj (Prod.mk.inj hkv).2)
    have htext : str "hunter1" = str "hunter2" := JVal.str.inj (Prod.mk.inj hmember).2
    exact absurd htext (by decide)

/-- A password beside the allowlisted keys is not shown. -/
theorem safe_metadata_iff_flat :
    (ShowsSafeKeys (Sample.ledgerOf (Sample.flatContext "hunter1")) ∧
      ShowsSafeKeys ((Sample.ledgerOf (Sample.flatContext "hunter1")).withContexts
        fun _ => Sample.flatContext "hunter2") ∧
      SameAnswers (Sample.ledgerOf (Sample.flatContext "hunter1"))
        ((Sample.ledgerOf (Sample.flatContext "hunter1")).withContexts
          fun _ => Sample.flatContext "hunter2")) ↔
      ∀ r ∈ (Sample.ledgerOf (Sample.flatContext "hunter1")).rows, ∀ c, r.context = .obj c →
        NestedSafely c (Sample.flatContext "hunter2") := by
  have hagree : ScalarsAgree (Sample.flatContext "hunter1") (Sample.flatContext "hunter2") := by
    intro key hkey v _
    have hother : ∀ key ∈ safeMetadataKeys, str "password" ≠ str key := by decide
    have hlookup : ∀ password, JVal.lookup (str key) (Sample.flatContext password) =
        JVal.lookup (str key) [(str "run_id", .str (str "run-1"))] := by
      intro password
      simp only [JVal.lookup, Sample.flatContext, List.find?_cons, hother key hkey, decide_false]
    rw [hlookup, hlookup]
  exact safe_metadata_iff Sample.ledgerOf_object _ (Sample.ledgerOf_agree hagree)

end SecurityAudit
