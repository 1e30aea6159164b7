import SecurityAudit.Audit.AlertStorm
import SecurityAudit.Prog.Observed

/-!
# Which alerts are suppressed

One emission after the other, on a clock that does not go back. Between two emissions the table
is what was handed to sinks (`Settled`), so a suppressed alert repeats the key of one that was
handed over less than the window ago, and there is only one such alert. It is no news only if
that alert was accepted, was about the same component and condition, and was not followed by a
report of their recovery. The table knows none of the three: it is written before the sink is
called, its key is the two texts with a colon between them, and a recovery has a key of its own.
-/

namespace SecurityAudit

namespace SecurityAlerts

open Prog

variable (R : Rounding ℚ)

/-! ## News -/

/-- The alert is about the component and the condition of `x`. -/
def Handed.About (a : Handed) (x : Stamp) : Prop :=
  a.alert.component = x.component ∧ a.alert.condition = x.condition

/-- The alert says that the condition of `x` has recovered. -/
def Handed.Recovers (a : Handed) (x : Stamp) : Prop :=
  a.alert.component = x.component ∧ a.alert.condition = x.condition ++ str "_recovered"

/-- The emission of the alert is less than the window before `x`. -/
def Handed.Recent (a : Handed) (x : Stamp) : Prop := R.round (x.now - a.now) < defaultWindow

/-- `x` is no news: an alert with the same component and condition was accepted less than the
window ago, and none that reports the recovery was sent since. -/
def Known (s : Alerts) (x : Stamp) : Prop :=
  ∃ earlier a later, s.handed = earlier ++ a :: later ∧ a.About x ∧ a.accepted = true ∧
    a.Recent R x ∧ ∀ b ∈ later, ¬b.Recovers x

/-- The alert was refused by its sink, is about something else, or has been followed by a report
of the recovery. -/
def Handed.Void (a : Handed) (later : List Handed) (x : Stamp) : Prop :=
  a.accepted = false ∨ ¬a.About x ∨ ∃ b ∈ later, b.Recovers x

/-- No recent alert with the key of `x` is void. -/
def Undisturbed (s : Alerts) (x : Stamp) : Prop :=
  ∀ earlier a later, s.handed = earlier ++ a :: later → a.stamp.key = x.key → a.Recent R x →
    ¬a.Void later x

theorem Handed.not_void_iff {a : Handed} {later : List Handed} {x : Stamp} :
    ¬a.Void later x ↔ a.About x ∧ a.accepted = true ∧ ∀ b ∈ later, ¬b.Recovers x := by
  unfold Handed.Void
  push Not
  rw [Bool.ne_false_iff]
  exact ⟨fun ⟨ha, hx, hl⟩ => ⟨hx, ha, hl⟩, fun ⟨hx, ha, hl⟩ => ⟨ha, hx, hl⟩⟩

theorem Handed.About.key {a : Handed} {x : Stamp} (h : a.About x) : a.stamp.key = x.key := by
  obtain ⟨hcomponent, hcondition⟩ := h
  show alertKey a.alert.component a.alert.condition = alertKey x.component x.condition
  rw [hcomponent, hcondition]

/-! ## Between two emissions -/

/-- What was let through was handed over, and not in the future. -/
structure Settled (s : Alerts) : Prop where
  recorded : Recorded R s
  handed : s.handed.map Handed.stamp = s.recorded
  past : ∀ a ∈ s.handed, a.now ≤ s.clock

variable {R} {s t : Alerts} {x : Stamp}

theorem settled_fresh (clock : ℚ) : Settled R (.fresh clock) :=
  ⟨recorded_fresh clock, rfl, by simp [Alerts.fresh]⟩

theorem Settled.tick (h : Settled R s) {clock : ℚ} (hc : s.clock ≤ clock) :
    Settled R { s with clock := clock } :=
  ⟨⟨h.recorded.last, h.recorded.spaced⟩, h.handed, fun a ha => (h.past a ha).trans hc⟩

/-- The times of a key are those of the alerts handed over under it. -/
theorem Settled.mem_times (h : Settled R s) {key : Str} {now : ℚ} :
    now ∈ times key s.recorded ↔ ∃ a ∈ s.handed, a.stamp.key = key ∧ a.now = now := by
  rw [← h.handed, times, List.filter_map, List.map_map, List.mem_map]
  constructor
  · rintro ⟨a, ha, rfl⟩
    obtain ⟨ha, hkey⟩ := List.mem_filter.mp ha
    exact ⟨a, ha, of_decide_eq_true hkey, rfl⟩
  · rintro ⟨a, ha, hkey, rfl⟩
    exact ⟨a, List.mem_filter.mpr ⟨ha, decide_eq_true hkey⟩, rfl⟩

/-- The alerts handed over under a key are spaced. -/
theorem Settled.pairwise (h : Settled R s) (hkind : isRecovery x.condition = false) :
    s.handed.Pairwise fun a b => a.stamp.key = x.key → b.stamp.key = x.key →
      defaultWindow ≤ R.round (b.now - a.now) := by
  have hspaced : (times x.key s.recorded).Pairwise _ := h.recorded.spaced x hkind
  rw [← h.handed, times, List.filter_map, List.map_map, List.pairwise_map,
    List.pairwise_filter] at hspaced
  refine hspaced.imp fun {a b} hab ha hb => hab ?_ ?_
  · exact decide_eq_true ha
  · exact decide_eq_true hb

/-- An alert before another with the same key is not recent any more. -/
theorem Settled.not_recent_before (h : Settled R s) (hkind : isRecovery x.condition = false)
    {earlier later : List Handed} {a b : Handed} (hs : s.handed = earlier ++ b :: later)
    (ha : a ∈ earlier) (hakey : a.stamp.key = x.key) (hbkey : b.stamp.key = x.key)
    (hb : b.now ≤ x.now) : ¬a.Recent R x := by
  have hpairs := h.pairwise hkind
  rw [hs] at hpairs
  have hab : defaultWindow ≤ R.round (b.now - a.now) :=
    (List.pairwise_append.mp hpairs).2.2 a ha b List.mem_cons_self hakey hbkey
  have hlonger : b.now - a.now ≤ x.now - a.now := sub_le_sub_right hb _
  exact not_lt.mpr (hab.trans (R.mono hlonger))

/-- At most one alert with the key of `x` is recent. -/
theorem Settled.recent_unique (h : Settled R s) (hkind : isRecovery x.condition = false)
    (hpast : ∀ a ∈ s.handed, a.now ≤ x.now) {earlier later earlier' later' : List Handed}
    {a a' : Handed} (hs : s.handed = earlier ++ a :: later)
    (hs' : s.handed = earlier' ++ a' :: later') (hkey : a.stamp.key = x.key)
    (hkey' : a'.stamp.key = x.key) (hrecent : a.Recent R x) (hrecent' : a'.Recent R x) :
    a = a' ∧ later = later' := by
  rcases List.append_eq_append_iff.mp (hs.symm.trans hs') with ⟨mid, hmid, hrest⟩ | ⟨mid, hmid, hrest⟩
  · cases mid with
    | nil => exact List.cons_eq_cons.mp hrest
    | cons b mid =>
      obtain ⟨rfl, -⟩ := List.cons_eq_cons.mp hrest
      have ha : a ∈ earlier' := by simp [hmid]
      have ha' : a'.now ≤ x.now := hpast a' (by simp [hs'])
      exact absurd hrecent (h.not_recent_before hkind hs' ha hkey hkey' ha')
  · cases mid with
    | nil =>
      obtain ⟨rfl, rfl⟩ := List.cons_eq_cons.mp hrest
      exact ⟨rfl, rfl⟩
    | cons b mid =>
      obtain ⟨rfl, -⟩ := List.cons_eq_cons.mp hrest
      have ha' : a' ∈ earlier := by simp [hmid]
      have ha : a.now ≤ x.now := hpast a (by simp [hs])
      exact absurd hrecent' (h.not_recent_before hkind hs ha' hkey' hkey ha)

/-- What is suppressed repeats the key of a recent alert. -/
theorem Settled.of_suppressed (h : Settled R s) (hx : suppresses R s x defaultWindow = true) :
    isRecovery x.condition = false ∧
      ∃ earlier a later, s.handed = earlier ++ a :: later ∧ a.stamp.key = x.key ∧ a.Recent R x := by
  unfold suppresses at hx
  cases hlast : s.lastSent x.key with
  | none =>
    rw [hlast] at hx
    cases hx
  | some last =>
    rw [hlast] at hx
    obtain ⟨hkind, hrecent⟩ : isRecovery x.condition = false ∧
        R.round (x.now - last) < defaultWindow := by simpa using hx
    rw [h.recorded.last] at hlast
    obtain ⟨a, ha, hkey, rfl⟩ := h.mem_times.mp (List.mem_of_getLast? hlast)
    obtain ⟨earlier, later, hs⟩ := List.append_of_mem ha
    exact ⟨hkind, earlier, a, later, hs, hkey, hrecent⟩

/-- What is let through, unless it is a recovery, repeats the key of no recent alert. -/
theorem Settled.of_passed (h : Settled R s) (hkind : isRecovery x.condition = false)
    (hx : suppresses R s x defaultWindow = false) {a : Handed} (ha : a ∈ s.handed)
    (hkey : a.stamp.key = x.key) : ¬a.Recent R x := by
  have hmem : a.now ∈ times x.key s.recorded := h.mem_times.mpr ⟨a, ha, hkey, rfl⟩
  cases hlast : (times x.key s.recorded).getLast? with
  | none =>
    rw [List.getLast?_eq_none_iff.mp hlast] at hmem
    cases hmem
  | some last =>
    have hlong := h.recorded.let_through hkind hx hlast
    have hw : (0 : ℚ) < defaultWindow := by norm_num [defaultWindow]
    exact not_lt.mpr ((h.recorded.spaced x hkind).of_last hw hlast hlong hmem)

/-- A suppressed alert was no news, exactly if nothing disturbed the alert it repeats. -/
theorem Settled.known_iff (h : Settled R s) (hpast : ∀ a ∈ s.handed, a.now ≤ x.now) :
    (suppresses R s x defaultWindow = true → Known R s x) ↔
      (isRecovery x.condition = false → Undisturbed R s x) := by
  constructor
  · intro hknown hkind earlier a later hs hkey hrecent
    cases hx : suppresses R s x defaultWindow with
    | false =>
      have ha : a ∈ s.handed := by simp [hs]
      exact absurd hrecent (h.of_passed hkind hx ha hkey)
    | true =>
      obtain ⟨_, b, _, hs', habout, haccepted, hrecent', hlater⟩ := hknown hx
      obtain ⟨rfl, rfl⟩ := h.recent_unique hkind hpast hs hs' hkey habout.key hrecent hrecent'
      exact Handed.not_void_iff.mpr ⟨habout, haccepted, hlater⟩
  · intro hclear hx
    obtain ⟨hkind, earlier, a, later, hs, hkey, hrecent⟩ := h.of_suppressed hx
    obtain ⟨habout, haccepted, hlater⟩ :=
      Handed.not_void_iff.mp (hclear hkind earlier a later hs hkey hrecent)
    exact ⟨earlier, a, later, hs, habout, haccepted, hrecent, hlater⟩

/-! ## One emission -/

/-- The entry of the critical section, and what is asked of the table there. -/
def Asks (x : Stamp) (e : Entry sig Alerts) : Prop :=
  ∃ window r, e.event = ⟨.dedup x window, r⟩

theorem drifts {s t : Alerts} (h : Relation.ReflTransGen (world R).drift s t) :
    ∃ clock, s.clock ≤ clock ∧ t = { s with clock := clock } := by
  induction h with
  | refl => exact ⟨s.clock, le_refl _, rfl⟩
  | tail _ hstep ih =>
    obtain ⟨clock, hle, rfl⟩ := ih
    obtain ⟨clock', hle', rfl⟩ := hstep
    exact ⟨clock', hle.trans hle', rfl⟩

/-- Handing an alert over. -/
theorem runs_deliver {sink : Option AlertSink} {alert : SecurityAlert} {now : ℚ}
    {trace : List (Entry sig Alerts)} {o : Except Str Unit}
    (h : Runs (world R) (deliver sink alert now) s trace o t) :
    ∃ clock accepted, s.clock ≤ clock ∧
      t = { s with clock := clock, handed := s.handed ++ [⟨alert, now, accepted⟩] } := by
  have hsend : ∀ {sink : AlertSink} {s : Alerts} {trace : List (Entry sig Alerts)},
      Runs (world R) (perform (σ := sig) (.send sink alert now)) s trace o t →
      ∃ clock accepted, s.clock ≤ clock ∧
        t = { s with clock := clock, handed := s.handed ++ [⟨alert, now, accepted⟩] } := by
    intro sink s trace h
    obtain ⟨u, hdrift, hanswer, -⟩ := h.of_perform
    obtain ⟨clock, hle, rfl⟩ := drifts hdrift
    exact ⟨clock, _, hle, hanswer⟩
  cases sink with
  | some sink => exact hsend h
  | none =>
    obtain ⟨u, r, s', rest, hdrift, ⟨⟨value, rfl⟩, rfl⟩, -, h⟩ := Runs.of_call h
    obtain ⟨clock, hle, rfl⟩ := drifts hdrift
    obtain ⟨clock', accepted, hle', rfl⟩ : ∃ clock' accepted, clock ≤ clock' ∧
        t = { s with clock := clock', handed := s.handed ++ [⟨alert, now, accepted⟩] } := by
      cases value with
      | some path => exact hsend h
      | none => exact hsend h
    exact ⟨clock', accepted, hle.trans hle', rfl⟩

/-- What is known when the table is asked. -/
structure AskedAt (R : Rounding ℚ) (s : Alerts) (x : Stamp) : Prop where
  settled : Settled R s
  past : ∀ a ∈ s.handed, a.now ≤ x.now

/-- What an emission does after the critical section: nothing if it was suppressed, and else it
hands over what was just recorded. -/
theorem settled_after {request : AlertRequest} {timestamp : Str} {now : ℚ} {suppressed : Bool}
    {trace : List (Entry sig Alerts)} {o : Except Str (Option SecurityAlert)}
    (hs : Settled R s) (hnow : now ≤ s.clock)
    (hsuppressed : suppresses R s ⟨request.component, request.condition, now⟩ defaultWindow =
      suppressed)
    (h : Runs (world R) (if suppressed = true then return none else do
      let _ ← (deliver request.sink (request.alert timestamp) now).attempt
      return some (request.alert timestamp))
      (dedup R s ⟨request.component, request.condition, now⟩ defaultWindow).2 trace o t) :
    Settled R t ∧ ∀ e ∈ trace, ∀ x, ¬Asks x e := by
  have hrecorded := hs.recorded.dedup ⟨request.component, request.condition, now⟩
  rw [dedup_snd, hsuppressed] at h hrecorded
  cases suppressed with
  | true =>
    obtain ⟨rfl, -, rfl⟩ := h.of_ret
    exact ⟨hs, by simp⟩
  | false =>
    obtain ⟨_, first, rest, u, rfl, hdeliver, hret⟩ := h.of_attempt_bind
    obtain ⟨rfl, -, rfl⟩ := hret.of_ret
    obtain ⟨clock, accepted, hclock, hu⟩ := runs_deliver hdeliver
    refine ⟨?_, fun e he x hx => ?_⟩
    · rw [hu]
      refine ⟨⟨hrecorded.last, hrecorded.spaced⟩, ?_, fun a ha => ?_⟩
      · show (s.handed ++ [_]).map Handed.stamp = s.recorded ++ [_]
        rw [List.map_append, hs.handed]
        rfl
      · rcases List.mem_append.mp ha with ha | ha
        · exact (hs.past a ha).trans hclock
        · rw [List.mem_singleton.mp ha]
          exact hnow.trans hclock
    · have hcalls := hdeliver.all (calls_deliver (P := fun c => ∀ x w, c ≠ .dedup x w)
        (fun _ _ => nofun) (fun _ _ _ => nofun) request.sink)
      obtain ⟨window, r, he'⟩ := hx
      rw [List.append_nil] at he
      exact hcalls e he x window (congrArg Sigma.fst he')

/-- One emission: it leaves things settled, and when it asked the table they were. -/
theorem settled_emission {request : AlertRequest} {trace : List (Entry sig Alerts)}
    {o : Except Str (Option SecurityAlert)} (hs : Settled R s)
    (h : Runs (world R) (emitSecurityAlert request defaultWindow none) s trace o t) :
    Settled R t ∧ ∀ e ∈ trace, ∀ x, Asks x e →
      AskedAt R e.before x ∧ e.event = ⟨.dedup x defaultWindow,
        .ok (suppresses R e.before x defaultWindow)⟩ := by
  obtain ⟨_, _, _, rest₁, hdrift₁, ⟨⟨timestamp, rfl⟩, rfl⟩, rfl, h₁⟩ := Runs.of_call h
  obtain ⟨c₁, hc₁, rfl⟩ := drifts hdrift₁
  obtain ⟨_, _, _, rest₂, hdrift₂, ⟨rfl, rfl⟩, rfl, h₂⟩ := Runs.of_call h₁
  obtain ⟨now, hnow, rfl⟩ := drifts hdrift₂
  obtain ⟨_, _, _, rest₃, hdrift₃, ⟨rfl, rfl⟩, rfl, h₃⟩ := Runs.of_call h₂
  obtain ⟨clock, hclock, rfl⟩ := drifts hdrift₃
  have hsettled : Settled R { s with clock := clock } := hs.tick (hc₁.trans (hnow.trans hclock))
  have hpast : ∀ a ∈ s.handed, a.now ≤ now := fun a ha => (hs.past a ha).trans (hc₁.trans hnow)
  obtain ⟨ht, hrest⟩ := settled_after hsettled hclock (dedup_fst R _ _ _).symm h₃
  refine ⟨ht, fun e he x hx => ?_⟩
  obtain ⟨window, r, he'⟩ := hx
  -- of the entries of the run, only the third asks the table
  rcases List.mem_cons.mp he with rfl | he
  · cases he'
  rcases List.mem_cons.mp he with rfl | he
  · cases he'
  rcases List.mem_cons.mp he with rfl | he
  · cases he'
    refine ⟨⟨hsettled, hpast⟩, ?_⟩
    rw [dedup_fst]
  · exact absurd ⟨window, r, he'⟩ (hrest e he x)

/-! ## One emission after the other -/

/-- Whenever the table is asked, things are settled. -/
theorem asked_emitAll {requests : List AlertRequest} {trace : List (Entry sig Alerts)}
    {o : Except Str Unit} (hs : Settled R s)
    (h : Runs (world R) (emitAll requests) s trace o t) :
    ∀ e ∈ trace, ∀ x, Asks x e → AskedAt R e.before x ∧ e.event = ⟨.dedup x defaultWindow,
      .ok (suppresses R e.before x defaultWindow)⟩ := by
  induction requests generalizing s trace with
  | nil =>
    obtain ⟨rfl, -, -⟩ := Runs.of_ret h
    simp
  | cons request requests ih =>
    have hone : ∀ {o : Except Str Unit} {trace : List (Entry sig Alerts)} {u : Alerts},
        Runs (world R) (do let _ ← emitSecurityAlert request defaultWindow none; return ())
          s trace o u →
        Settled R u ∧ ∀ e ∈ trace, ∀ x, Asks x e → AskedAt R e.before x ∧
          e.event = ⟨.dedup x defaultWindow, .ok (suppresses R e.before x defaultWindow)⟩ := by
      intro o trace u h
      obtain ⟨e, -, h⟩ | ⟨_, first, rest, v, rfl, hemit, hret⟩ := h.of_bind
      · exact settled_emission hs h
      · obtain ⟨rfl, -, rfl⟩ := hret.of_ret
        rw [List.append_nil]
        exact settled_emission hs hemit
    obtain ⟨e, -, h⟩ | ⟨_, first, rest, u, rfl, hfirst, hrest⟩ := Runs.of_bind h
    · exact (hone h).2
    · obtain ⟨hu, hasked⟩ := hone hfirst
      intro e he x hx
      rcases List.mem_append.mp he with he | he
      · exact hasked e he x hx
      · exact ih hu hrest e he x hx

/-- **Deduplication loses no news**, in a run of any emissions whose sinks may fail, exactly if
no alert asks the table while a recent alert with its key is void. -/
theorem suppressed_known_iff {requests : List AlertRequest} {clock : ℚ}
    {trace : List (Entry sig Alerts)} {o : Except Str Unit}
    (h : Runs (world R) (emitAll requests) (.fresh clock) trace o t) :
    (∀ e ∈ trace, ∀ x window, e.event = ⟨.dedup x window, .ok true⟩ → Known R e.before x) ↔
      ∀ e ∈ trace, ∀ x, Asks x e → isRecovery x.condition = false → Undisturbed R e.before x := by
  have hasked := asked_emitAll (settled_fresh clock) h
  constructor
  · intro hknown e he x hx
    obtain ⟨hat, hevent⟩ := hasked e he x hx
    refine (hat.settled.known_iff hat.past).mp fun hsuppressed => ?_
    rw [hsuppressed] at hevent
    exact hknown e he x defaultWindow hevent
  · intro hclear e he x window hevent
    have hx : Asks x e := ⟨window, _, hevent⟩
    obtain ⟨hat, hevent'⟩ := hasked e he x hx
    refine (hat.settled.known_iff hat.past).mpr (hclear e he x hx) ?_
    rw [hevent] at hevent'
    exact (Except.ok.inj (eq_of_heq (Sigma.mk.inj hevent').2)).symm

/-! ## Runs with a suppressed alert -/

/-- An emission on a clock that stands still, up to the critical section. -/
theorem runs_emission {request : AlertRequest} {suppressed : Bool} {u : Alerts}
    {rest : List (Entry sig Alerts)} {o : Except Str (Option SecurityAlert)}
    (hdedup : dedup R s ⟨request.component, request.condition, s.clock⟩ defaultWindow =
      (suppressed, u))
    (h : Runs (world R) (if suppressed = true then return none else do
      let _ ← (deliver request.sink (request.alert []) s.clock).attempt
      return some (request.alert [])) u rest o t) :
    ∃ trace, Runs (world R) (emitSecurityAlert request defaultWindow none) s trace o t ∧
      ⟨s, ⟨.dedup ⟨request.component, request.condition, s.clock⟩ defaultWindow,
        .ok suppressed⟩, u⟩ ∈ trace := by
  have hanswer : (world R).answers (.dedup ⟨request.component, request.condition, s.clock⟩
      defaultWindow) s (.ok suppressed) u := by
    refine ⟨?_, ?_⟩ <;> rw [hdedup]
  have hutcnow : (world R).answers .utcnow s (.ok []) s := ⟨⟨[], rfl⟩, rfl⟩
  have hmonotonic : (world R).answers .monotonic s (.ok s.clock) s := ⟨rfl, rfl⟩
  exact ⟨_, .call .refl hutcnow (.call .refl hmonotonic (.call .refl hanswer h)), by simp⟩

namespace Sample

/-- The state after an alert was handed to a sink that answered `r`. -/
def after (request : AlertRequest) (r : Except Str Unit) : Alerts :=
  { (Alerts.fresh 0).record ⟨request.component, request.condition, 0⟩ with
    handed := [⟨request.alert [], 0, r.isOk⟩] }

/-- Two alerts with the same key at the same time: the second is suppressed, whatever became of
the first. -/
theorem runs_two (first second : AlertRequest) {sink : AlertSink} (hsink : first.sink = some sink)
    (hkey : alertKey second.component second.condition =
      alertKey first.component first.condition)
    (hkind : isRecovery second.condition = false) (r : Except Str Unit) :
    ∃ trace, Runs (world .exact) (emitAll [first, second]) (.fresh 0) trace (.ok ())
        (after first r) ∧
      ⟨after first r, ⟨.dedup ⟨second.component, second.condition, 0⟩ defaultWindow, .ok true⟩,
        after first r⟩ ∈ trace := by
  have hpass : dedup .exact (.fresh 0) ⟨first.component, first.condition, 0⟩ defaultWindow =
      (false, (Alerts.fresh 0).record ⟨first.component, first.condition, 0⟩) := rfl
  obtain ⟨rest, hdeliver⟩ : ∃ rest, Runs (world .exact) (do
      let _ ← (deliver first.sink (first.alert []) 0).attempt
      return some (first.alert [])) ((Alerts.fresh 0).record ⟨first.component, first.condition, 0⟩)
      rest (.ok (some (first.alert []))) (after first r) := by
    rw [hsink]
    have hsend : (world .exact).answers (.send sink (first.alert []) 0)
        ((Alerts.fresh 0).record ⟨first.component, first.condition, 0⟩) r (after first r) := rfl
    exact ⟨_, (Runs.perform hsend).attempt.bind (.ret _ _)⟩
  have hstop : dedup .exact (after first r) ⟨second.component, second.condition, 0⟩
      defaultWindow = (true, after first r) := by
    have hlast : (after first r).lastSent (alertKey second.component second.condition) =
        some 0 := by
      rw [hkey]
      exact Function.update_self _ _ _
    have hx : suppresses .exact (after first r) ⟨second.component, second.condition, 0⟩
        defaultWindow = true := by
      unfold suppresses
      simp only [Stamp.key, hlast, hkind]
      norm_num [defaultWindow, Rounding.exact]
    unfold dedup
    rw [hx]
    rfl
  obtain ⟨trace, hfirst, -⟩ := runs_emission hpass hdeliver
  obtain ⟨trace', hsecond, hmem⟩ := runs_emission hstop (.ret none _)
  refine ⟨_, (hfirst.bind (.ret () _)).bind ((hsecond.bind (.ret () _)).bind (.ret () _)), ?_⟩
  simp only [List.append_nil]
  exact List.mem_append_right _ hmem

/-- An alert of the component `backup`. -/
def daily : AlertRequest :=
  { missing with component := str "backup", condition := str "daily:failed" }

/-- An alert of the component `backup:daily`, with the same key. -/
def backup : AlertRequest :=
  { missing with component := str "backup:daily", condition := str "failed" }

end Sample

/-- An alert whose sink failed silences the next one, and so does one of another component. -/
theorem news_lost :
    (∃ trace t e, Runs (world .exact) (emitAll [Sample.missing, Sample.missing]) (.fresh 0) trace
        (.ok ()) t ∧ e ∈ trace ∧
      e.event = ⟨.dedup (Sample.missingAt 0) defaultWindow, .ok true⟩ ∧
      ¬Known .exact e.before (Sample.missingAt 0)) ∧
    ∃ trace t e, Runs (world .exact) (emitAll [Sample.daily, Sample.backup]) (.fresh 0) trace
        (.ok ()) t ∧ e ∈ trace ∧
      e.event = ⟨.dedup ⟨str "backup:daily", str "failed", 0⟩ defaultWindow, .ok true⟩ ∧
      ¬Known .exact e.before ⟨str "backup:daily", str "failed", 0⟩ := by
  constructor
  · obtain ⟨trace, hrun, hmem⟩ := Sample.runs_two Sample.missing Sample.missing rfl rfl
      (by decide) (.error (str "ConnectionError"))
    refine ⟨trace, _, _, hrun, hmem, rfl, ?_⟩
    rintro ⟨earlier, a, later, hs, -, haccepted, -⟩
    have ha : a ∈ earlier ++ a :: later := by simp
    rw [← hs] at ha
    rw [List.mem_singleton.mp ha] at haccepted
    cases haccepted
  · obtain ⟨trace, hrun, hmem⟩ := Sample.runs_two Sample.daily Sample.backup rfl
      (by decide) (by decide) (.ok ())
    refine ⟨trace, _, _, hrun, hmem, rfl, ?_⟩
    rintro ⟨earlier, a, later, hs, habout, -⟩
    have ha : a ∈ earlier ++ a :: later := by simp
    rw [← hs] at ha
    rw [List.mem_singleton.mp ha] at habout
    exact absurd habout.1 (by decide)

theorem suppressed_known_iff_refused : ∃ trace t,
    Runs (world .exact) (emitAll [Sample.missing, Sample.missing]) (.fresh 0) trace (.ok ()) t ∧
    ((∀ e ∈ trace, ∀ x window, e.event = ⟨.dedup x window, .ok true⟩ →
      Known .exact e.before x) ↔
      ∀ e ∈ trace, ∀ x, Asks x e → isRecovery x.condition = false →
        Undisturbed .exact e.before x) := by
  obtain ⟨trace, hrun, -⟩ := Sample.runs_two Sample.missing Sample.missing rfl rfl
      (by decide) (.error (str "ConnectionError"))
  exact ⟨trace, _, hrun, suppressed_known_iff hrun⟩

end SecurityAlerts

end SecurityAudit
