import SecurityAudit.Scripts.StatusFiles

/-!
# What a retention run reports

The total in the status file of a run is the number of rows the run took, as long as every table's
result is a success or a dry run. A partial result counts nothing although its rows are gone, and so
does a failed one whose COMMIT was carried out: the total is then too small, and never too large
(`reported_total`).
-/

namespace SecurityAudit

namespace Retention

open Immutability

variable {srv : Server} {trace trace' : List (Step srv)} {s s' u : State srv} {t : Table} {c : Call}

/-- Every table of the loop has its result, in the order of the loop. -/
theorem of_turns_tables {execute : Bool} {cut : Naive} {ts : List Table}
    {results : List (Table × Result)}
    (h : Runs (world srv) (turns execute cut ts) s trace (.ok results) u) :
    results.map Prod.fst = ts := by
  induction ts generalizing s trace results u with
  | nil =>
    obtain ⟨-, hresults, -⟩ := h.of_ret
    cases hresults
    rfl
  | cons t ts ih =>
    obtain ⟨result, first, rest, s₁, rfl, -, h⟩ := h.of_bind_ok
    obtain ⟨others, first', rest', s₂, rfl, hturns, h⟩ := h.of_bind_ok
    obtain ⟨-, hresults, -⟩ := h.of_ret
    cases hresults
    rw [List.map_cons, ih hturns]

/-- What a table's result counts is no more than what the table lost, and exactly that where the
result leaves `overall_ok` true. -/
theorem TurnSpec.deleted_le {execute : Bool} {cut : Naive} {o : Except Exc Result}
    (h : TurnSpec execute cut t trace o) :
    (resultOf o).deleted ≤ {r | Lost trace t r}.ncard ∧
      ((resultOf o).isOk = true → (resultOf o).deleted = {r | Lost trace t r}.ncard) := by
  have hnone : (∀ t' r, ¬Lost trace t' r) → {r | Lost trace t r}.ncard = 0 := by
    intro hkept
    simp [hkept t]
  cases h with
  | raised e hraised hcommit hkept =>
    refine ⟨Nat.zero_le _, fun hok => ?_⟩
    cases hok
  | unanswered e m hexecute hcommit hpurged =>
    -- the rows are gone, and the failed result counts none of them
    refine ⟨Nat.zero_le _, fun hok => ?_⟩
    cases hok
  | dryRun n hexecute hunraised hkept => exact ⟨Nat.zero_le _, fun _ => (hnone hkept).symm⟩
  | nothing hexecute hunraised hcounted hkept => exact ⟨Nat.zero_le _, fun _ => (hnone hkept).symm⟩
  | purged n m hexecute hunraised hcounted hpurged =>
    rw [hpurged.ncard]
    by_cases hmn : m = n
    · -- as many rows went as were counted
      rw [resultOf, if_neg (not_not.mpr hmn)]
      exact ⟨le_rfl, fun _ => rfl⟩
    · rw [resultOf, if_pos hmn]
      refine ⟨Nat.zero_le _, fun hok => ?_⟩
      cases hok

/-- Every call of the loop is about a table. -/
theorem all_turns (execute : Bool) (cut : Naive) (ts : List Table) :
    (turns execute cut ts).All fun c : Call => c.table?.isSome = true := by
  have hask : ∀ {c : Call}, c.table?.isSome = true →
      (ask c).All fun c : Call => c.table?.isSome = true := fun hc => Prog.all_perform hc
  have hoperate : ∀ t, (operate execute cut t).All fun c : Call => c.table?.isSome = true := by
    intro t
    unfold operate
    refine (hask rfl).bind fun eligible => ?_
    split_ifs
    · trivial
    · trivial
    refine (hask rfl).bind fun deleted => (hask rfl).bind fun _ => ?_
    split_ifs <;> trivial
  have hturn : ∀ t, (turn execute cut t).All fun c : Call => c.table?.isSome = true := by
    intro t
    refine Prog.All.bind ?_ fun o => ?_
    · exact ((hask rfl).bind fun _ => (hoperate t).ensuring (hask rfl)).attempt
    · cases o <;> trivial
  induction ts with
  | nil => trivial
  | cons t ts ih => exact (hturn t).bind fun _ => ih.bind fun _ => trivial

/-- A call about no table, made and answered before or after the loop, takes nothing. -/
theorem lost_cons_quiet {r : sqlSig.Answer c} (h : Answers c s r s') (hc : c.table? = none)
    (x : t.Row) : Lost ((⟨s, ⟨c, r⟩, s'⟩ : Step srv) :: trace) t x ↔ Lost trace t x := by
  have hkept : ¬Lost [(⟨s, ⟨c, r⟩, s'⟩ : Step srv)] t x := (Foreign.single h hc).kept x
  rw [lost_cons] at hkept ⊢
  simp only [not_lost_nil, or_false] at hkept
  tauto

/-- What follows the loop: the file is written, or that fails. -/
theorem runs_report {execute overall_ok : Bool} {results : List (Table × Result)}
    {o : Except Exc ℕ}
    (h : Runs (world srv) (do
      ask (.writeStatusFile execute overall_ok results)
      if overall_ok = true then return 0 else return 1) s trace o u) :
    ∃ (v : State srv) (r : sqlSig.Answer (.writeStatusFile execute overall_ok results))
      (w : State srv), Answers _ v r w ∧ trace = [⟨v, ⟨_, r⟩, w⟩] := by
  obtain ⟨e, -, hfile⟩ | ⟨⟨⟩, first, rest, s₁, rfl, hfile, hend⟩ := h.of_bind
  · obtain ⟨v, -, hanswer, rfl⟩ := hfile.of_perform
    exact ⟨v, _, _, hanswer, rfl⟩
  · obtain ⟨v, -, hanswer, rfl⟩ := hfile.of_perform
    have hnone : rest = [] := by
      split_ifs at hend
      · exact hend.of_ret.1
      · exact hend.of_ret.1
    subst hnone
    exact ⟨v, _, _, hanswer, rfl⟩

/-- A run that writes the status file: what it writes are the results of the loop, and nothing is
lost outside the loop. -/
theorem runs_clean_status {execute execute' overall_ok : Bool} {days : ℤ} {url : Str}
    {o : Except Exc ℕ} {results : List (Table × Result)} {e : Step srv}
    (h : Runs (world srv) (clean execute days url) s trace o u) (he : e ∈ trace)
    (hstatus : e.event.1 = .writeStatusFile execute' overall_ok results) :
    execute' = execute ∧ overall_ok = results.all (fun r => r.2.isOk) ∧
      ∃ cut s₁ s₂ loop, Runs (world srv) (turns execute cut recordTables) s₁ loop (.ok results) s₂ ∧
        ∀ (t : Table) (r : t.Row), Lost trace t r ↔ Lost loop t r := by
  -- a call before the loop is not the one that writes the file
  obtain ⟨e', rfl, hnow⟩ | ⟨now, t₁, rest₁, s₁, rfl, hnow, h₁⟩ := h.of_bind
  · obtain ⟨v, -, -, rfl⟩ := hnow.of_perform
    rw [List.mem_singleton.mp he] at hstatus
    cases hstatus
  obtain ⟨v₁, -, hanswer₁, rfl⟩ := hnow.of_perform
  rcases List.mem_cons.mp he with rfl | he₁
  · cases hstatus
  obtain ⟨e', rfl, hcutoff⟩ | ⟨cut, t₂, rest₂, s₂, rfl, hcutoff, h₂⟩ := h₁.of_bind
  · obtain ⟨rfl, -, -⟩ := hcutoff.of_ofExcept
    cases he₁
  obtain ⟨rfl, -, rfl⟩ := hcutoff.of_ofExcept
  obtain ⟨e', rfl, hengine⟩ | ⟨⟨⟩, t₃, rest₃, s₃, rfl, hengine, h₃⟩ := h₂.of_bind
  · obtain ⟨v, -, -, rfl⟩ := hengine.of_perform
    rw [List.mem_singleton.mp he₁] at hstatus
    cases hstatus
  obtain ⟨v₃, -, hanswer₃, rfl⟩ := hengine.of_perform
  rcases List.mem_cons.mp he₁ with rfl | he₃
  · cases hstatus
  obtain ⟨e', -, hturns⟩ | ⟨noted, loop, rest₄, s₄, rfl, hturns, h₄⟩ := h₃.of_bind
  · obtain ⟨_, hok, -⟩ := runs_turns (fun _ h => h) (by decide) hturns
    cases hok
  obtain ⟨v₅, r₅, w₅, hanswer₅, rfl⟩ := runs_report h₄
  have he₄ : e ∈ loop ++ [(⟨v₅, ⟨_, r₅⟩, w₅⟩ : Step srv)] := he₃
  rcases List.mem_append.mp he₄ with heloop | hefile
  · -- the calls of the loop are about tables
    have htable := hturns.all (all_turns _ _ _) e heloop
    rw [hstatus] at htable
    cases htable
  rw [List.mem_singleton.mp hefile] at hstatus
  cases hstatus
  refine ⟨rfl, rfl, cut, _, _, loop, hturns, fun t r => ?_⟩
  show Lost (_ :: _ :: (loop ++ [_])) t r ↔ Lost loop t r
  rw [lost_cons_quiet hanswer₁ rfl, lost_cons_quiet hanswer₃ rfl, lost_append,
    lost_cons_quiet hanswer₅ rfl]
  exact or_iff_left not_lost_nil

/-- The results of a loop over tables that are all different, summed up. -/
theorem totalDeleted_le {execute : Bool} {cut : Naive} {ts : List Table}
    {results : List (Table × Result)} (hnodup : ts.Nodup) (htables : results.map Prod.fst = ts)
    (hturns : ∀ t ∈ ts, ∃ o', TurnIn execute cut t trace o' ∧ (t, resultOf o') ∈ results) :
    totalDeleted results ≤ (ts.map fun t => {r | Lost trace t r}.ncard).sum ∧
      (results.all (fun r => r.2.isOk) = true →
        totalDeleted results = (ts.map fun t => {r | Lost trace t r}.ncard).sum) := by
  have hentry : ∀ p ∈ results, p.2.deleted ≤ {r | Lost trace p.1 r}.ncard ∧
      (p.2.isOk = true → p.2.deleted = {r | Lost trace p.1 r}.ncard) := by
    intro p hp
    obtain ⟨o', hin, hmem⟩ := hturns p.1 (htables ▸ List.mem_map_of_mem hp)
    have hp' : p = (p.1, resultOf o') :=
      List.inj_on_of_nodup_map (htables.symm ▸ hnodup) hp hmem rfl
    obtain ⟨part, hspec, -, hlost⟩ := hin.part
    have hset : {r | Lost trace p.1 r} = {r | Lost part p.1 r} := Set.ext hlost
    have hresult : p.2 = resultOf o' := congrArg Prod.snd hp'
    rw [hset, hresult]
    exact hspec.deleted_le
  rw [← htables, List.map_map, totalDeleted]
  refine ⟨List.sum_le_sum fun p hp => (hentry p hp).1, fun hall => ?_⟩
  refine congrArg List.sum (List.map_congr_left fun p hp => (hentry p hp).2 ?_)
  exact List.all_eq_true.mp hall p hp

/-- **The total in the status file is what was deleted**, as far as the run knows: never more, and
exactly that if the run reports success. -/
theorem reported_total (srv : Server) (S : Settings) (args : Args) (s u : State srv)
    (trace : List (Step srv)) (o : Except Exc ℕ) (h : Runs (world srv) (main S args) s trace o u)
    (e : Step srv) (he : e ∈ trace) (execute overall_ok : Bool) (results : List (Table × Result))
    (hstatus : e.event.1 = .writeStatusFile execute overall_ok results) :
    execute = args.execute ∧
      totalDeleted results ≤ (recordTables.map fun t => {r | Lost trace t r}.ncard).sum ∧
      (overall_ok = true →
        totalDeleted results = (recordTables.map fun t => {r | Lost trace t r}.ncard).sum) := by
  have hclean : ∃ days url, Runs (world srv) (clean args.execute days url) s trace o u := by
    unfold main at h
    split_ifs at h with hboth
    · cases h
      cases he
    split at h
    · obtain ⟨rfl, -⟩ := h.of_ret
      cases he
    split at h
    · obtain ⟨rfl, -⟩ := h.of_ret
      cases he
    split_ifs at h
    · obtain ⟨rfl, -⟩ := h.of_ret
      cases he
    split at h
    · obtain ⟨rfl, -⟩ := h.of_ret
      cases he
    · exact ⟨_, _, h⟩
  obtain ⟨days, url, hrun⟩ := hclean
  obtain ⟨hexecute, hok, cut, s₁, s₂, loop, hturns, hlost⟩ := runs_clean_status hrun he hstatus
  obtain ⟨_, hresults, hin, -⟩ := runs_turns (fun _ h => h) (by decide) hturns
  cases hresults
  have hsum : (recordTables.map fun t => {r | Lost trace t r}.ncard) =
      recordTables.map fun t => {r | Lost loop t r}.ncard := by
    refine List.map_congr_left fun t _ => ?_
    have hset : {r | Lost trace t r} = {r | Lost loop t r} := Set.ext (hlost t)
    rw [hset]
  obtain ⟨hle, heq⟩ := totalDeleted_le (by decide) (of_turns_tables hturns) hin
  rw [hsum, hok]
  exact ⟨hexecute, hle, heq⟩

/-- The one old entry of the sample ledger is reported, and is what was lost. -/
theorem reported_total_alone : ∃ trace u,
    Runs (world Immutability.Sample.server) (main Sample.settings ⟨true, false⟩) Sample.ledger
      trace (.ok 0) u ∧ (recordTables.map fun t => {r | Lost trace t r}.ncard).sum = 1 := by
  obtain ⟨trace₁, h₁⟩ := runs_turn_nothing (s := Sample.ledger) (t := .audit_events)
    Sample.cut (by decide)
  obtain ⟨trace₂, h₂⟩ := runs_turn_purge (s := Sample.ledger.fresh) (t := .quarantined_audit_events)
    Sample.cut (by decide)
  obtain ⟨_, hlast⟩ := runs_turns_cons h₂ runs_turns_nil
  obtain ⟨loop, hturns⟩ := runs_turns_cons h₁ hlast
  let old := (Sample.ledger.fresh.fresh.eligible .quarantined_audit_events Sample.cut).length
  obtain ⟨trace, u, hrun, e, he, hstatus⟩ : ∃ trace u,
      Runs (world Immutability.Sample.server) (main Sample.settings ⟨true, false⟩) Sample.ledger
        trace (.ok 0) u ∧ ∃ e ∈ trace, e.event.1 = .writeStatusFile true true
          [(.audit_events, .success 0), (.quarantined_audit_events, .success old)] := by
    refine ⟨_, _, Runs.bind (runs_ask (.now Sample.ledger Sample.now)) (Runs.bind (.ofExcept _ _)
      (Runs.bind (runs_ask (.createdEngine Sample.ledger _)) (Runs.bind hturns
        (Runs.bind (runs_ask (.wroteStatusFile _ _ _ _)) (.ret _ _))))), ?_⟩
    -- the last of the calls is the one
    exact ⟨_, List.mem_append_right _ (List.mem_append_right _ (List.mem_append_right _
      (List.mem_append_right _ List.mem_cons_self))), rfl⟩
  obtain ⟨-, -, htotal⟩ :=
    reported_total _ Sample.settings ⟨true, false⟩ _ _ _ _ hrun e he true true _ hstatus
  exact ⟨trace, u, hrun, (htotal rfl).symm.trans (by decide)⟩

end Retention

end SecurityAudit
