import SecurityAudit.Api.Pages
import SecurityAudit.Scripts.Retention

/-!
# Page after page of a ledger at work: `api/routes_audit_safe.py`

A caller of `/audit/events/safe` who wants all events asks for one page after the other, up to the
`total_pages` of the last answer. Meanwhile workers insert events, of any timestamp, and the
retention script deletes old ones, so the pages are cut out of different results. An event may then
come twice. But an event that was there at the start and is too new for the retention script is not
missed (`export_complete`): before it come only rows that stay, so its place never moves to a page
that was asked for already.
-/

namespace SecurityAudit

open AuditQuery

namespace Retention

open Immutability

/-! ## The ledger at work -/

variable {srv : Server}

/-- `audit_events` as the queries see it. -/
def ledger (s : State srv) : AuditTable where
  rows := (s.db.rows .audit_events).map AuditEventRecord.toAuditRow
  primaryKey := by
    have hkeys := s.db.unique .audit_events
    rw [List.map_map]
    -- ids that the collation tells apart are different
    have hweights : ((s.db.rows .audit_events).map fun r => [srv.weight r.event_id]).Nodup := hkeys
    refine List.Nodup.of_map (fun id => [srv.weight id]) ?_
    rwa [List.map_map]

/-- A deletion that this call makes is of rows older than `cut`. -/
def Within (cut : Naive) (c : Call) : Prop :=
  ∀ t cutoff, c = .deleteEligible t cutoff → cutoff.us ≤ cut.us

/-- Others insert, or the retention script makes a call. -/
inductive Changes (cut : Naive) : State srv → State srv → Prop where
  | others {s s' : State srv} (h : OthersWrite s s') : Changes cut s s'
  | retention {s s' : State srv} {c : Call} {r : sqlSig.Answer c} (hcut : Within cut c)
      (h : Answers c s r s') : Changes cut s s'

/-- Whole runs of the retention script with such a cutoff, others at work, are made of these
steps. -/
theorem changes_of_runs {α : Type} {p : Prog sqlSig α} {o : Except Exc α} {cut : Naive}
    {s u : State srv} {trace : List (Step srv)} (h : Runs (world srv) p s trace o u)
    (hcut : ∀ e ∈ trace, Within cut e.event.1) : Relation.ReflTransGen (Changes cut) s u := by
  induction h with
  | ret a s => exact .refl
  | raise e s => exact .refl
  | @call c next s₀ s s' t r trace o drifted answered _ ih =>
    have hdrift : Relation.ReflTransGen (Changes cut) s₀ s :=
      drifted.lift id fun _ _ h => .others h
    have hcall : Changes cut s s' := .retention (hcut _ List.mem_cons_self) answered
    exact hdrift.trans (.head hcall (ih fun e he => hcut e (List.mem_cons_of_mem _ he)))

/-- What the open transaction has deleted is older than `cut`. -/
def Expired (cut : Naive) (s : State srv) : Prop :=
  ∀ k ∈ s.pending .audit_events, ∃ r ∈ s.db.rows .audit_events,
    (schema srv).key .audit_events r = k ∧ r.timestamp.us < cut.us

/-- Rows that are not older than `cut` stay. -/
def Kept (cut : Naive) (s s' : State srv) : Prop :=
  ∀ r ∈ s.db.rows .audit_events, cut.us ≤ r.timestamp.us → r ∈ s'.db.rows .audit_events

theorem expired_fresh {cut : Naive} (s : State srv) : Expired cut s.fresh := by
  intro k hk
  cases hk

/-- The eligible rows of a delete are older than its cutoff. -/
theorem expired_deleted {cut cutoff : Naive} {s : State srv} {t : Table} (hs : Expired cut s)
    (hcut : cutoff.us ≤ cut.us) : Expired cut (s.deleted t cutoff) := by
  intro k hk
  by_cases ht : t = .audit_events
  · subst ht
    simp only [State.deleted, Function.update_self, List.mem_append, List.mem_map] at hk
    rcases hk with hk | ⟨r, hr, rfl⟩
    · exact hs k hk
    · simp only [State.eligible, List.mem_filter, decide_eq_true_eq] at hr
      obtain ⟨hr, -, hold, -⟩ := hr
      exact ⟨r, hr, rfl, lt_of_lt_of_le hold hcut⟩
  · refine hs k ?_
    simpa [State.deleted, Function.update_of_ne (Ne.symm ht)] using hk

/-- What is committed are deletions of rows older than `cut`. -/
theorem kept_committed {cut : Naive} {s : State srv} (hs : Expired cut s) :
    Kept cut s s.committed := by
  intro r hr hnew
  refine List.mem_filter.mpr ⟨hr, decide_eq_true fun hpending => ?_⟩
  obtain ⟨r', hr', hkey, hold⟩ := hs _ hpending
  obtain rfl : r' = r := Sql.Db.eq_of_key hr' hr hkey
  omega

/-- One step takes no row away that is not older than `cut`. -/
theorem kept_of_changes {cut : Naive} {s s' : State srv} (hs : Expired cut s)
    (h : Changes cut s s') : Expired cut s' ∧ Kept cut s s' := by
  cases h with
  | others h =>
    refine ⟨fun k hk => ?_, fun r hr _ => h.inserted _ (by simp [recordTables]) r hr⟩
    rw [h.pending] at hk
    obtain ⟨r, hr, hkey, hold⟩ := hs k hk
    exact ⟨r, h.inserted _ (by simp [recordTables]) r hr, hkey, hold⟩
  | retention hcut h =>
    cases h with
    | connected s t => exact ⟨expired_fresh s, fun r hr _ => hr⟩
    | closed s t => exact ⟨expired_fresh s, fun r hr _ => hr⟩
    | deleted s t cutoff => exact ⟨expired_deleted hs (hcut t cutoff rfl), fun r hr _ => hr⟩
    | committed s t =>
      refine ⟨fun k hk => ?_, kept_committed hs⟩
      cases hk
    | commitLost s t e =>
      -- the deletions are committed, although the script does not know
      refine ⟨fun k hk => ?_, kept_committed hs⟩
      cases hk
    | _ => exact ⟨hs, fun r hr _ => hr⟩

theorem kept_of_reach {cut : Naive} {s s' : State srv} (hs : Expired cut s)
    (h : Relation.ReflTransGen (Changes cut) s s') : Expired cut s' ∧ Kept cut s s' := by
  induction h with
  | refl => exact ⟨hs, fun r hr _ => hr⟩
  | tail _ hstep ih =>
    obtain ⟨hexpired, hkept⟩ := ih
    obtain ⟨hexpired', hkept'⟩ := kept_of_changes hexpired hstep
    exact ⟨hexpired', fun r hr hnew => hkept' r (hkept r hr hnew) hnew⟩

end Retention

/-! ## Page after page -/

open Immutability (Server)

/-- The query for a page. -/
def SafeQuery.ofPage (q : SafeQuery) (page : ℕ) (h : 1 ≤ page) : SafeQuery :=
  { q with page := page, page_pos := h }

/-- The rows that the route selects for a caller. -/
def selected (q : SafeQuery) (organization_id : Option Str) (access : AuditAccess) :
    AuditRow → Bool := fun r =>
  inScope (if access.platform_wide then organization_id else access.organization_id)
    access.platform_wide r && q.filters.onColumns r && q.filters.onTimestamp r

/-- The items of the pages from `page` on, up to the last one there is when it is answered. Between
two answers the ledger is at work. -/
inductive Exported {srv : Server} (cut : Naive) (q : SafeQuery) (organization_id : Option Str)
    (access : AuditAccess) : ℕ → Retention.State srv → List SafeAuditEventOut → Prop where
  | last {page : ℕ} {s : Retention.State srv} {body : SafeAuditEventList} (h : 1 ≤ page)
      (answered : listSafeAuditEventsRoute (q.ofPage page h) organization_id access
        (some (Retention.ledger s)) = .ok (.list body))
      (hlast : body.total_pages ≤ page) : Exported cut q organization_id access page s body.items
  | next {page : ℕ} {s s' : Retention.State srv} {body : SafeAuditEventList}
      {items : List SafeAuditEventOut} (h : 1 ≤ page)
      (answered : listSafeAuditEventsRoute (q.ofPage page h) organization_id access
        (some (Retention.ledger s)) = .ok (.list body))
      (hmore : page < body.total_pages)
      (atWork : Relation.ReflTransGen (Retention.Changes cut) s s')
      (rest : Exported cut q organization_id access (page + 1) s' items) :
      Exported cut q organization_id access page s (body.items ++ items)

/-- A page the route answers with. -/
theorem of_listSafeAuditEventsRoute {q : SafeQuery} {organization_id : Option Str}
    {access : AuditAccess} {t : AuditTable} {body : SafeAuditEventList}
    (h : listSafeAuditEventsRoute q organization_id access (some t) = .ok (.list body)) :
    body.items = (Select.page newestFirst (selected q organization_id access)
        ((q.page - 1) * q.page_size) q.page_size t.rows).map safeItem ∧
      body.total_pages =
        Select.pages (Select.count (selected q organization_id access) t.rows) q.page_size := by
  obtain ⟨reversed, -, h⟩ := bind_eq_ok.mp h
  cases reversed with
  | true => cases h
  | false =>
    by_cases hscope : outsideScope access organization_id
    · rw [if_neg (by decide), if_pos hscope] at h
      cases h
    · rw [if_neg (by decide), if_neg hscope] at h
      cases h
      refine ⟨rfl, ?_⟩
      show totalPages _ _ = _
      exact totalPages_eq q.page_size_pos _

/-- The pages of the route are pages of the rows it selects. -/
theorem Exported.walk {srv : Server} {cut : Naive} {q : SafeQuery} {organization_id : Option Str}
    {access : AuditAccess} {page : ℕ} {s : Retention.State srv} {items : List SafeAuditEventOut}
    (h : Exported cut q organization_id access page s items) :
    ∃ found, items = found.map safeItem ∧ Select.Walk newestFirst
      (fun s : Retention.State srv => (Retention.ledger s).rows)
      (Relation.ReflTransGen (Retention.Changes cut)) (selected q organization_id access)
      q.page_size (page - 1) s found := by
  induction h with
  | @last page s body hpage answered hlast =>
    obtain ⟨hitems, hpages⟩ := of_listSafeAuditEventsRoute answered
    refine ⟨_, hitems, .last ?_⟩
    show Select.pages (Select.count (selected (q.ofPage page hpage) organization_id access) _)
      (q.ofPage page hpage).page_size ≤ _
    rw [← hpages]
    omega
  | @next page s s' body items hpage answered hmore atWork _ ih =>
    obtain ⟨hitems, hpages⟩ := of_listSafeAuditEventsRoute answered
    obtain ⟨found, rfl, hwalk⟩ := ih
    refine ⟨Select.page newestFirst (selected q organization_id access)
      ((page - 1) * q.page_size) q.page_size (Retention.ledger s).rows ++ found, ?_,
      .next ?_ atWork ?_⟩
    · rw [hitems, List.map_append]
      rfl
    · show _ < Select.pages (Select.count (selected (q.ofPage page hpage) organization_id access) _)
        (q.ofPage page hpage).page_size
      rw [← hpages]
      omega
    · rwa [Nat.sub_add_cancel hpage]

/-- **An export misses nothing that was there**, whatever is inserted meanwhile, and whatever the
retention script deletes: every event the caller may see and asked for, that is in the ledger when
the first page is answered and is not older than the cutoff, is on one of the pages. -/
theorem export_complete {srv : Server} {cut : Naive} {q : SafeQuery}
    {organization_id : Option Str} {access : AuditAccess} {s : Retention.State srv}
    {items : List SafeAuditEventOut} (hs : Retention.Expired cut s)
    (h : Exported cut q organization_id access 1 s items) (r : AuditRow)
    (hr : r ∈ (Retention.ledger s).rows)
    (hscope : InScope (if access.platform_wide then organization_id else access.organization_id)
      access.platform_wide r)
    (hmatches : q.filters.Matches r) (hnew : cut.us ≤ r.timestamp.us) : safeItem r ∈ items := by
  obtain ⟨found, rfl, hwalk⟩ := h.walk
  refine List.mem_map_of_mem (Select.mem_of_walk (I := Retention.Expired cut) q.page_size_pos
    (fun s => orders _) (fun s => (Retention.ledger s).primaryKey.of_map) ?_ hwalk hs hr ?_
    (by simp))
  · intro s s' hs hreach
    obtain ⟨hs', hkept⟩ := Retention.kept_of_reach hs hreach
    refine ⟨hs', fun b hb hbefore => ?_⟩
    obtain ⟨b', hb', rfl⟩ := List.mem_map.mp hb
    -- what comes before the row is not older than it
    have hnew' : cut.us ≤ b'.timestamp.us := by
      rcases hbefore with hlt | ⟨heq, -⟩ <;> omega
    exact List.mem_map_of_mem (hkept b' hb' hnew')
  · have hcolumns := matches_iff.mpr hmatches
    simp only [selected, Bool.and_eq_true]
    exact ⟨⟨inScope_iff.mpr hscope, hcolumns.1⟩, hcolumns.2⟩

namespace Sample

/-- A ledger of events of one organization, all of one second. -/
def ledgerWith (ids : List String) (h : (ids.map str).Nodup) :
    Retention.State Immutability.Sample.server where
  db :=
    { rows := fun
        | .audit_events => ids.map fun id => ⟨rowOf id "1", (rowOf id "1").timestamp⟩
        | _ => []
      unique := by
        intro t
        cases t with
        | audit_events =>
          rw [List.map_map]
          refine List.Nodup.of_map (fun k => k.headD []) ?_
          rw [List.map_map]
          exact h
        | quarantined_audit_events => exact .nil
        | audit_legal_holds => exact .nil }
  pending _ := []

/-- Pages of one row. -/
def onePerPage : SafeQuery :=
  { firstPage with page_size := 1, page_size_pos := Nat.le_refl 1, page_size_le := Nat.le_add_left 1 99 }

end Sample

/-- An event is inserted after the first page, and comes before the others: the second page is the
first one again, and the oldest event is still not missed. -/
theorem export_complete_growing : ∃ items,
    Exported Retention.Sample.cut Sample.onePerPage none (.ofOrganization (str "1")) 1
      (Sample.ledgerWith ["evt-1", "evt-2"] (by decide)) items ∧
    items.map SafeAuditEventOut.event_id = [str "evt-2", str "evt-2", str "evt-1"] ∧
      safeItem (Sample.rowOf "evt-1" "1") ∈ items := by
  have hinsert : Retention.Changes Retention.Sample.cut
      (Sample.ledgerWith ["evt-1", "evt-2"] (by decide))
      (Sample.ledgerWith ["evt-1", "evt-2", "evt-3"] (by decide)) := by
    refine .others ⟨fun t ht r hr => ?_, rfl⟩
    cases t with
    | audit_events => exact List.mem_append_left _ hr
    | quarantined_audit_events => exact hr
    | audit_legal_holds => exact hr
  have hexport : Exported Retention.Sample.cut Sample.onePerPage none (.ofOrganization (str "1")) 1
      (Sample.ledgerWith ["evt-1", "evt-2"] (by decide)) _ :=
    .next (le_refl 1) rfl (by decide) (.single hinsert)
      (.next (by decide) rfl (by decide) .refl (.last (by decide) rfl (by decide)))
  refine ⟨_, hexport, by decide, export_complete (r := Sample.rowOf "evt-1" "1") ?_ hexport
    ?_ ?_ ?_ ?_⟩
  · intro k hk
    cases hk
  · exact List.mem_cons_self
  · exact inScope_iff.mp (by decide)
  · exact matches_iff.mp (by decide)
  · decide

end SecurityAudit
