import SecurityAudit.Worker.Programs
import SecurityAudit.Worker.Deliveries
import SecurityAudit.Worker.Reclaim

/-!
# No entry gets lost

Where an entry of the stream is, at any moment of any run: it is acknowledged and has its row, or
the group has not come to it yet, or it is pending (`entry_accounted`). Crashes, lost replies,
failing calls, other workers and the loss of the group change nothing about that; a new group
starts at the beginning of the stream. What is not in the stream any more is trimmed.
-/

namespace SecurityAudit

namespace Group

variable {g : Group} {stream : List Message} {now : ℕ} {minIdle : ℤ} {consumer : Str}
  {id : StreamId} {ids : List StreamId}

/-- The entries the group has not come to. -/
def unread (g : Group) (stream : List Message) : List Message :=
  stream.filter fun m => g.lastDelivered < m.id

/-- The group has not come to the entry yet, or the entry is pending. -/
def Holds (g : Group) (id : StreamId) : Prop := g.lastDelivered < id ∨ g.Lists id

/-- `XCLAIM` does not move the cursor. -/
theorem claim_lastDelivered (g : Group) (stream : List Message) (now : ℕ) (minIdle : ℤ)
    (consumer : Str) (ids : List StreamId) :
    (g.claim stream now minIdle consumer ids).1.lastDelivered = g.lastDelivered :=
  (claimed_claim g stream now minIdle consumer (toLex (0, 0)) ids).lastDelivered

/-- `XCLAIM` keeps the row of an entry that is in the stream. -/
theorem lists_claim (hbody : HasBody stream id) (h : g.Lists id) :
    (g.claim stream now minIdle consumer ids).1.Lists id := by
  suffices H : ∀ acc : Group × List Message, acc.1.Lists id →
      (ids.foldl (claimOne stream now minIdle consumer) acc).1.Lists id from H (g, []) h
  induction ids with
  | nil => exact fun acc hacc => hacc
  | cons id' ids ih =>
    intro acc hacc
    refine ih _ ?_
    obtain ⟨-, heq⟩ | ⟨hnone, heq⟩ | ⟨-, m, -, -, heq⟩ :=
      claimOne_cases stream now minIdle consumer acc id' <;> rw [heq]
    · exact hacc
    · -- only the row of an entry that is gone is taken out
      refine lists_drop.mpr ⟨hacc, fun hid => hnone ?_⟩
      rwa [← hid]
    · exact lists_reassign.mpr hacc

theorem holds_claim (hbody : HasBody stream id) (h : g.Holds id) :
    (g.claim stream now minIdle consumer ids).1.Holds id := by
  unfold Holds
  rw [claim_lastDelivered]
  exact h.imp_right fun hlists => lists_claim hbody hlists

/-- Acknowledging one entry leaves the others where they are. -/
theorem holds_ack {id' : StreamId} (hne : id ≠ id') (h : g.Holds id) : (g.ack id').Holds id :=
  h.imp_right fun hlists => lists_drop.mpr ⟨hlists, hne⟩

/-- A group read makes pending what it passes over. -/
theorem holds_deliver (hsorted : stream.Pairwise fun a b => a.id < b.id) {m : Message}
    (hm : m ∈ stream) (h : g.Holds m.id) :
    (g.deliver now consumer (g.newMessages stream)).Holds m.id := by
  by_cases hread : m ∈ g.newMessages stream
  · exact .inr ⟨⟨m.id, consumer, now, 1⟩,
      List.mem_append_right _ (List.mem_map.mpr ⟨m, hread, rfl⟩), rfl⟩
  · rcases h with hunread | ⟨p, hp, hid⟩
    · -- what was left out comes after everything that was read
      left
      have hfilter : m ∈ stream.filter fun m => g.lastDelivered < m.id :=
        List.mem_filter.mpr ⟨hm, decide_eq_true hunread⟩
      have hsplit := List.take_append_drop 10 (stream.filter fun m => g.lastDelivered < m.id)
      have hlater : m ∈ (stream.filter fun m => g.lastDelivered < m.id).drop 10 := by
        rw [← hsplit] at hfilter
        exact (List.mem_append.mp hfilter).resolve_left hread
      have hpairwise : (g.newMessages stream ++
          (stream.filter fun m => g.lastDelivered < m.id).drop 10).Pairwise
            fun a b => a.id < b.id := by
        show ((stream.filter fun m => g.lastDelivered < m.id).take 10 ++ _).Pairwise _
        rw [hsplit]
        exact hsorted.sublist List.filter_sublist
      show ((g.newMessages stream).getLast?.map Message.id).getD g.lastDelivered < m.id
      cases hlast : (g.newMessages stream).getLast? with
      | none => exact hunread
      | some last =>
        have hmem : last ∈ g.newMessages stream := List.mem_of_getLast? hlast
        exact (List.pairwise_append.mp hpairwise).2.2 last hmem m hlater
    · exact .inr ⟨p, List.mem_append_left _ hp, hid⟩

end Group

variable {env : Env} {s t : Shared}

/-- The id was acknowledged. -/
def Shared.Acked (s : Shared) (id : StreamId) : Prop := ∃ reason, (id, reason) ∈ s.acked

/-- No entry of the stream is lost. -/
structure Shared.Conserved (s : Shared) : Prop where
  sorted : s.stream.Pairwise fun a b => a.id < b.id
  positive : ∀ m ∈ s.stream, toLex (0, 0) < m.id
  cursor : ∀ g, s.group = some g → ∀ id, toLex (0, 0) < id → (∀ m ∈ s.history, m.id < id) →
    g.lastDelivered < id
  kept : ∀ m ∈ s.stream, s.Acked m.id ∨ ∀ g, s.group = some g → g.Holds m.id
  listing : ∀ g, s.group = some g → g.Listing

namespace Shared.Conserved

theorem initial : Shared.initial.Conserved where
  sorted := .nil
  positive := by simp [Shared.initial]
  cursor := by simp [Shared.initial]
  kept := by simp [Shared.initial]
  listing := by simp [Shared.initial]

/-- A change of the group that loses no entry of the stream. -/
theorem of_group (h : s.Conserved) {o : Option Group}
    (hcursor : ∀ g, o = some g → ∀ id, toLex (0, 0) < id → (∀ m ∈ s.history, m.id < id) →
      g.lastDelivered < id)
    (hkept : ∀ g, o = some g → ∀ m ∈ s.stream, s.Acked m.id ∨ g.Holds m.id)
    (hlisting : ∀ g, o = some g → g.Listing) :
    ({ s with group := o } : Shared).Conserved where
  sorted := h.sorted
  positive := h.positive
  cursor := hcursor
  listing := hlisting
  kept m hm := by
    cases o with
    | none => exact .inr fun g hg => by cases hg
    | some g =>
      refine (hkept g rfl m hm).imp_right fun hholds g' hg' => ?_
      cases hg'
      exact hholds

/-- A carried out call loses no entry. -/
theorem executes (hstream : ∀ m ∈ s.stream, m ∈ s.history) (h : s.Conserved) {c : Call}
    {v : c.Reply} (hexec : Executes env c s v t) : t.Conserved := by
  cases hexec with
  | xgroupCreate free =>
    refine h.of_group ?_ ?_ ?_
    · rintro _ ⟨⟩ id hid -
      exact hid
    · rintro _ ⟨⟩ m hm
      exact .inr (.inl (h.positive m hm))
    · rintro _ ⟨⟩
      exact Group.listing_fresh
  | @xreadgroup _ g consumer hg =>
    refine h.of_group ?_ ?_ ?_
    · -- the cursor moves to the last entry that was read, and no further
      rintro _ ⟨⟩ id hid hnew
      show ((g.newMessages s.stream).getLast?.map Message.id).getD g.lastDelivered < id
      cases hlast : (g.newMessages s.stream).getLast? with
      | none => exact h.cursor g hg id hid hnew
      | some last =>
        exact hnew last (hstream last (Group.mem_newMessages (List.mem_of_getLast? hlast)))
    · rintro _ ⟨⟩ m hm
      exact (h.kept m hm).imp_right fun hkept => Group.holds_deliver h.sorted hm (hkept g hg)
    · rintro _ ⟨⟩
      exact (h.listing g hg).deliver h.sorted _ _
  | @xclaim _ g consumer ids hg =>
    refine h.of_group ?_ ?_ ?_
    · rintro _ ⟨⟩ id hid hnew
      rw [Group.claim_lastDelivered]
      exact h.cursor g hg id hid hnew
    · rintro _ ⟨⟩ m hm
      exact (h.kept m hm).imp_right fun hkept => Group.holds_claim ⟨m, hm, rfl⟩ (hkept g hg)
    · rintro _ ⟨⟩
      exact (h.listing g hg).claim _ _ _ _ _
  | @xack _ id reason =>
    refine ⟨h.sorted, h.positive, ?_, fun m hm => ?_, ?_⟩
    · intro g' hg'
      obtain ⟨g, hg, rfl⟩ := Option.map_eq_some_iff.mp hg'
      exact h.cursor g hg
    · by_cases hid : m.id = id
      · -- the entry itself is acknowledged now
        left
        exact ⟨reason, by rw [hid]; exact List.mem_append_right _ (List.mem_singleton.mpr rfl)⟩
      · refine (h.kept m hm).imp ?_ fun hkept g' hg' => ?_
        · rintro ⟨reason', hmem⟩
          exact ⟨reason', List.mem_append_left _ hmem⟩
        · obtain ⟨g, hg, rfl⟩ := Option.map_eq_some_iff.mp hg'
          exact Group.holds_ack hid (hkept g hg)
    · intro g' hg'
      obtain ⟨g, hg, rfl⟩ := Option.map_eq_some_iff.mp hg'
      exact (h.listing g hg).ack id
  | _ => exact ⟨h.sorted, h.positive, h.cursor, h.kept, h.listing⟩

/-- Nothing that happens without a worker loses an entry that stays in the stream. -/
theorem drift (hstream : ∀ m ∈ s.stream, m ∈ s.history) (h : s.Conserved) (hdrift : Drift s t) :
    t.Conserved := by
  cases hdrift with
  | tick ms => exact ⟨h.sorted, h.positive, h.cursor, h.kept, h.listing⟩
  | @xadd m positive newer =>
    refine ⟨?_, fun m' hm' => ?_, fun g hg id hid hnew => ?_, fun m' hm' => ?_, h.listing⟩
    · rw [List.pairwise_append]
      refine ⟨h.sorted, List.pairwise_singleton _ _, fun a ha b hb => ?_⟩
      rw [List.mem_singleton.mp hb]
      exact newer a (hstream a ha)
    · rcases List.mem_append.mp hm' with hm' | hm'
      · exact h.positive m' hm'
      · rw [List.mem_singleton.mp hm']
        exact positive
    · exact h.cursor g hg id hid fun m' hm' => hnew m' (List.mem_append_left _ hm')
    · rcases List.mem_append.mp hm' with hm' | hm'
      · exact h.kept m' hm'
      · -- the group cannot have come to an entry that is only added now
        rw [List.mem_singleton.mp hm']
        exact .inr fun g hg => .inl (h.cursor g hg m.id positive newer)
  | trim hkept =>
    exact ⟨h.sorted.sublist hkept, fun m hm => h.positive m (hkept.subset hm), h.cursor,
      fun m hm => h.kept m (hkept.subset hm), h.listing⟩
  | groupLost => exact h.of_group (by rintro _ ⟨⟩) (by rintro _ ⟨⟩) (by rintro _ ⟨⟩)

end Shared.Conserved

/-- In every reachable state the invariant of the workers holds, whatever rows have to cover, and
no entry is lost. -/
theorem conserved_of_reachable {covers : AuditRow → AuditEvent → IntegrityStatus → Prop}
    (hnew : ∀ {e status row stored}, sinkRecord env e status = .ok row →
      row.stored? = some stored → covers stored e status)
    (hdup : ∀ {s : Shared} {e status row r}, r ∈ s.auditEvents →
      r.2.event_id = row.event_id → sinkRecord env e status = .ok row → covers r.2 e status)
    (h : Reachable env s) : Inv env covers s ∧ s.Conserved := by
  obtain ⟨cfg, hreach, rfl⟩ := h.when
  have hsound : (workerContract env covers).Sound ((world env).restrict fun _ _ _ => True) :=
    world_sound hnew fun _ hr hid hrow => hdup hr hid hrow
  have hstrong := hsound.strengthen (P := Shared.Conserved)
    (fun hi hkept _ ⟨hanswer, _⟩ => by
      cases hanswer with
      | done hexec => exact hkept.executes hi.stream hexec
      | lost hexec _ => exact hkept.executes hi.stream hexec
      | refused _ => exact hkept)
    fun hi hkept hdrift => hkept.drift hi.stream hdrift
  exact (hstrong.reach (fun p hp t hi => (safe_worker hp hi.1).strengthen Shared.Conserved)
    ⟨inv_initial, .initial⟩ hreach).1

variable (env) in
/-- There is a row for the entry: in `audit_events` under the `event_id` of an event parsed from
it, or in `quarantined_audit_events` under its own id. -/
def Shared.Evidenced (s : Shared) (m : Message) : Prop :=
  (∃ e, m.ParsesTo env e ∧ ∃ r ∈ s.auditEvents, r.2.event_id = e.event_id) ∨
    ∃ q ∈ s.quarantined, q.stream_message_id = m.id.text

/-- An acknowledged entry has a row. -/
theorem Inv.evidenced (hi : Inv env (fun row e _ => row.event_id = e.event_id) s) {m : Message}
    (hm : m ∈ s.history) (h : s.Acked m.id) : s.Evidenced env m := by
  obtain ⟨reason, hmem⟩ := h
  have hevidence := hi.acked _ hmem
  cases reason with
  | handled e status =>
    obtain ⟨-, hparsed, hrow⟩ := hevidence
    obtain ⟨m', hm', hid, hparses⟩ := hi.parsed _ hparsed
    rw [hi.message_unique hm' hm hid] at hparses
    exact .inl ⟨e, hparses, hrow⟩
  | quarantined => exact .inr hevidence

theorem conserved_rows (h : Reachable env s) :
    Inv env (fun row e _ => row.event_id = e.event_id) s ∧ s.Conserved := by
  refine conserved_of_reachable ?_ ?_ h
  · intro e status row stored hrow hstored
    obtain ⟨_, _, -, -, rfl⟩ := sinkRecord_stored hrow hstored
    rfl
  · intro _ e status row r _ hid hrow
    rw [hid, event_id_of_sinkRecord hrow]

/-- **No entry gets lost.** In every reachable state every entry of the stream is acknowledged and
has its row, or there is no group, or the group has not come to it yet or has it pending. -/
theorem entry_accounted (h : Reachable env s) {m : Message} (hm : m ∈ s.stream) :
    (s.Acked m.id ∧ s.Evidenced env m) ∨ s.group = none ∨ ∃ g, s.group = some g ∧
      (g.lastDelivered < m.id ∨ ∃ p ∈ g.pel, p.id = m.id) := by
  obtain ⟨hi, hkept⟩ := conserved_rows h
  rcases hkept.kept m hm with hacked | hholds
  · exact .inl ⟨hacked, hi.evidenced (hi.stream m hm) hacked⟩
  · right
    cases hgroup : s.group with
    | none => exact .inl rfl
    | some g => exact .inr ⟨g, rfl, hholds g hgroup⟩

/-- A killed worker leaves an entry pending whose row is already written. -/
theorem entry_accounted_named : ∃ s, Reachable Sample.env s ∧ Sample.named ∈ s.stream ∧
    s.acked = [] ∧ ((s.Acked Sample.named.id ∧ s.Evidenced Sample.env Sample.named) ∨
      s.group = none ∨ ∃ g, s.group = some g ∧
        (g.lastDelivered < Sample.named.id ∨ ∃ p ∈ g.pel, p.id = Sample.named.id)) := by
  obtain ⟨e, stored, h, -⟩ := Sample.recorded_named
  have hrun : Reachable Sample.env _ := (Quiet.written lenient_everything h (by decide)
    (fun _ _ => trivial) (fun _ _ _ => trivial) (str "worker-1")).reachableWhen.reachable
  have hstream : Sample.named ∈
      (Shared.written Sample.named e stored (str "worker-1")).stream :=
    List.mem_singleton.mpr rfl
  exact ⟨_, hrun, hstream, rfl, entry_accounted hrun hstream⟩

end SecurityAudit
