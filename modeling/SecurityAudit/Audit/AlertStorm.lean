import SecurityAudit.Audit.SecurityAlerts

/-!
# No alert storm

Any number of threads emit alerts. Each reads the clock before it enters the critical section,
so the table is asked with clock values out of order, and sinks are called in yet another order.
Two facts hold whatever the order: the table spaces what it lets through (`Recorded`), and what
is handed to sinks was let through, each stamp no more often than it was (`handed_subperm`). The
second is an account of each stamp, which a passage through the critical section gains once and
a call to a sink spends.
-/

namespace SecurityAudit

namespace SecurityAlerts

open Prog

/-- What the critical section lets through may be handed to a sink once. -/
def passages (x : Stamp) : Account sig where
  cost
    | .send _ alert now => if Handed.stamp ⟨alert, now, true⟩ = x then 1 else 0
    | _ => 0
  gain
    | .dedup stamp _, .ok false => if stamp = x then 1 else 0
    | _, _ => 0

variable {x : Stamp}

/-- With something in hand for the one call it makes, a delivery pays for it. -/
theorem affords_deliver (sink : Option AlertSink) (alert : SecurityAlert) (now : ℚ) {n : ℕ}
    (hn : (if Handed.stamp ⟨alert, now, true⟩ = x then 1 else 0) ≤ n) :
    (passages x).Affords (deliver sink alert now)
      (fun _ k => n ≤ k + if Handed.stamp ⟨alert, now, true⟩ = x then 1 else 0) n := by
  have hchosen := calls_chosenSink
    (P := fun c => (passages x).cost c = 0 ∧ ∀ r, (passages x).gain c r = 0)
    ⟨rfl, fun _ => rfl⟩ sink
  refine (Account.Affords.of_all hchosen).bind (fun sink k hk => ?_) fun _ k hk => by omega
  have hsend : ∀ c : ℕ, c ≤ n → n ≤ k - c + 0 + c := fun c _ => by omega
  exact .perform (hk ▸ hn) fun _ => hsend _ hn

/-- An emission hands over only what it was let through with. -/
theorem affords_emitSecurityAlert (request : AlertRequest) (window : ℚ) (_now : Option ℚ)
    (n : ℕ) :
    (passages x).Affords (emitSecurityAlert request window _now) (fun _ k => n ≤ k) n := by
  have hfree : ∀ {c : Call}, (passages x).cost c = 0 → (∀ r, (passages x).gain c r = 0) →
      (passages x).Affords (perform (σ := sig) c) (fun _ k => k = n) n :=
    fun hc hr => .of_all (all_perform ⟨hc, hr⟩)
  refine (hfree rfl fun _ => rfl).bind (fun timestamp k hk => ?_) fun _ k hk => hk.ge
  obtain rfl : k = n := hk
  have hclock : (passages x).Affords (clockValue _now) (fun _ l => l = k) k := by
    cases _now with
    | some now => exact rfl
    | none => exact hfree rfl fun _ => rfl
  refine hclock.bind (fun now l hl => ?_) fun _ l hl => hl.ge
  obtain rfl : l = k := hl
  -- the critical section gains the passage that the delivery spends
  refine ⟨Nat.zero_le _, fun r => ?_⟩
  rcases r with e | suppressed
  · exact Nat.le_refl _
  · cases suppressed with
    | true => exact Nat.le_refl _
    | false =>
      have hpassage : (passages x).gain
          (.dedup ⟨request.component, request.condition, now⟩ window) (.ok false) =
          if Handed.stamp ⟨request.alert timestamp, now, true⟩ = x then 1 else 0 := rfl
      refine Account.Affords.attempt_bind (affords_deliver request.sink _ now ?_) fun _ m hm => ?_
      · rw [hpassage]
        omega
      · rw [hpassage] at hm
        show l ≤ m
        have hcost : (passages x).cost
          (.dedup ⟨request.component, request.condition, now⟩ window) = 0 := rfl
        omega

theorem affords_emitAll (requests : List AlertRequest) :
    (passages x).Affords (emitAll requests) (fun _ _ => True) 0 := by
  have hbody : ∀ request ∈ requests, ∀ k, 0 ≤ k → (passages x).Affords
      (do let _ ← emitSecurityAlert request defaultWindow none; return ())
      (fun _ l => k ≤ l + 0) k := by
    intro request _ k _
    exact (affords_emitSecurityAlert request defaultWindow none k).bind (fun _ _ hl => hl)
      fun _ _ hl => hl
  exact (Account.Affords.forEach hbody (by simp)).mono fun _ _ _ => trivial

/-! ## The account and the state -/

variable (R : Rounding ℚ)

/-- The account of each stamp is what the state remembers of it. -/
def Booked (s : Alerts × List sig.Event) : Prop :=
  ∀ x, (passages x).spent s.2 = (s.1.handed.map Handed.stamp).count x ∧
    (passages x).gained s.2 = s.1.recorded.count x

/-- What holds of the table and of the accounts, as long as calls use the default window. -/
def ledger : Contract sig (Alerts × List sig.Event) where
  inv s := Recorded R s.1 ∧ Booked s
  rely _ _ := True
  pre c _ := DefaultWindow c
  post _ _ _ := True
  rely_refl _ := trivial
  rely_trans _ _ := trivial

variable {R}

/-- A call costs what it hands over, and its answer gains what it lets through. -/
theorem Booked.snoc {s : Alerts × List sig.Event} {s' : Alerts} {c : sig.Call}
    {r : sig.Answer c} (h : Booked s)
    (hhanded : ∀ x, (s'.handed.map Handed.stamp).count x =
      (s.1.handed.map Handed.stamp).count x + (passages x).cost c)
    (hrecorded : ∀ x, s'.recorded.count x = s.1.recorded.count x + (passages x).gain c r) :
    Booked (s', s.2 ++ [⟨c, r⟩]) := by
  intro x
  show (passages x).spent (s.2 ++ [⟨c, r⟩]) = (s'.handed.map Handed.stamp).count x ∧
    (passages x).gained (s.2 ++ [⟨c, r⟩]) = s'.recorded.count x
  rw [Account.spent_snoc, Account.gained_snoc, hhanded, hrecorded, (h x).1, (h x).2]
  exact ⟨rfl, rfl⟩

theorem Booked.answered {s : Alerts × List sig.Event} {s' : Alerts} {c : sig.Call}
    {r : sig.Answer c} (h : Booked s) (ha : (world R).answers c s.1 r s') :
    Booked (s', s.2 ++ [⟨c, r⟩]) := by
  cases c with
  | utcnow | monotonic | getenv =>
    obtain ⟨-, rfl⟩ := ha
    exact h.snoc (fun _ => rfl) fun _ => rfl
  | dedup stamp window =>
    obtain ⟨rfl, rfl⟩ := ha
    refine h.snoc (fun x => ?_) fun x => ?_
    · unfold dedup
      cases suppresses R s.1 stamp window <;> rfl
    · unfold dedup
      cases suppresses R s.1 stamp window with
      | true => rfl
      | false =>
        show (s.1.recorded ++ [stamp]).count x =
          s.1.recorded.count x + if stamp = x then 1 else 0
        rw [List.count_append, List.count_singleton]
        simp only [beq_iff_eq]
  | send sink alert now =>
    obtain rfl := ha
    refine h.snoc (fun x => ?_) fun _ => rfl
    show ((s.1.handed ++ [(⟨alert, now, Except.isOk r⟩ : Handed)]).map Handed.stamp).count x =
      (s.1.handed.map Handed.stamp).count x +
        if Handed.stamp ⟨alert, now, true⟩ = x then 1 else 0
    rw [List.map_append, List.count_append, List.map_singleton, List.count_singleton]
    simp only [beq_iff_eq]
    rfl

theorem ledger_sound : (ledger R).Sound (world R).traced where
  call := by
    rintro c s r ⟨s', log⟩ hi hp ⟨ha, hlog⟩
    refine ⟨⟨hi.1.answered hp ha, ?_⟩, trivial, trivial⟩
    rw [show log = s.2 ++ [⟨c, r⟩] from hlog]
    exact hi.2.answered ha
  drift hi hd := by
    obtain ⟨hd, hlog⟩ := hd
    refine ⟨⟨hi.1.drift hd, ?_⟩, trivial⟩
    obtain ⟨clock, -, hstate⟩ := hd
    unfold Booked
    rw [hlog, hstate]
    exact hi.2

/-- A thread of the system: it emits one alert after the other. -/
def Thread (p : Prog sig Unit) : Prop := ∃ requests, p = emitAll requests

variable {cfg : Config sig Alerts Unit} {clock : ℚ}

/-- The table is as it should be, and nothing is handed to a sink that was not let through, nor
more often than it was. -/
theorem handed_subperm (h : Reach (world R) Thread (Config.idle (.fresh clock)) cfg) :
    Recorded R cfg.state ∧ (cfg.state.handed.map Handed.stamp).Subperm cfg.state.recorded := by
  obtain ⟨log, h⟩ := Reach.traced h
  have hfresh : (ledger R).inv (.fresh clock, []) := ⟨recorded_fresh clock, fun _ => ⟨rfl, rfl⟩⟩
  have hinv : (ledger R).inv (cfg.state, log) := by
    refine (ledger_sound.reach ?_ hfresh h).1
    rintro p ⟨requests, rfl⟩ s -
    exact .of_all (calls_emitAll requests) (fun _ _ hc => hc) s
  refine ⟨hinv.1, List.subperm_ext_iff.mpr fun x _ => ?_⟩
  rw [← (hinv.2 x).1, ← (hinv.2 x).2]
  refine Account.solvent ?_ h
  rintro p ⟨requests, rfl⟩
  exact affords_emitAll requests

/-- **No alert storm.** In every run, whatever the threads and the order in which they enter the
critical section, the clock values of any two alerts handed to a sink under a key whose
condition is not a recovery differ by at least the window. -/
theorem no_alert_storm (h : Reach (world R) Thread (Config.idle (.fresh clock)) cfg)
    (component condition : Str) (hkind : isRecovery condition = false) :
    (cfg.state.handed.filter fun a => alertKey a.alert.component a.alert.condition =
      alertKey component condition).Pairwise fun a b => R.Apart defaultWindow a.now b.now := by
  obtain ⟨hrecorded, hsub⟩ := handed_subperm h
  have hspaced := hrecorded.spaced ⟨component, condition, 0⟩ hkind
  have htimes : ((cfg.state.handed.filter fun a => alertKey a.alert.component a.alert.condition =
      alertKey component condition).map Handed.now) =
      times (alertKey component condition) (cfg.state.handed.map Handed.stamp) := by
    rw [times, List.filter_map, List.map_map]
    rfl
  have hfewer : (times (alertKey component condition)
      (cfg.state.handed.map Handed.stamp)).Subperm
        (times (alertKey component condition) cfg.state.recorded) := by
    obtain ⟨stamps, hperm, hsublist⟩ := hsub.filter fun x => x.key = alertKey component condition
    exact ⟨stamps.map Stamp.now, hperm.map _, hsublist.map _⟩
  have happart := hspaced.apart hfewer
  rw [← htimes] at happart
  exact List.pairwise_map.mp happart

/-! ## A run with two alerts -/

/-- An emission that runs alone and is let through. -/
theorem solo_emitAll {s : Alerts} {request : AlertRequest} {sink : AlertSink}
    (hsink : request.sink = some sink) (timestamp : Str)
    (hpass : suppresses R s ⟨request.component, request.condition, s.clock⟩ defaultWindow = false) :
    Solo (world R) (emitAll [request]) s (.ret ())
      { s.record ⟨request.component, request.condition, s.clock⟩ with
        handed := s.handed ++ [⟨request.alert timestamp, s.clock, true⟩] } := by
  obtain ⟨condition, severity, component, message, metadata, _⟩ := request
  subst hsink
  have hdedup : dedup R s ⟨component, condition, s.clock⟩ defaultWindow =
      (false, s.record ⟨component, condition, s.clock⟩) := by
    unfold dedup
    rw [hpass]
    rfl
  refine .answer (.ok timestamp) ⟨⟨timestamp, rfl⟩, rfl⟩ ?_
  refine .answer (.ok s.clock) ⟨rfl, rfl⟩ ?_
  refine .answer (.ok false) ⟨?_, rfl⟩ ?_
  · show Except.ok false = Except.ok (dedup R s _ defaultWindow).1
    rw [hdedup]
  · show Solo (world R) _ (dedup R s ⟨component, condition, s.clock⟩ defaultWindow).2 _ _
    rw [hdedup]
    exact .answer (.ok ()) rfl (.here _ _)

namespace Sample

/-- The worker misses its stream. -/
def missing : AlertRequest where
  condition := str "audit_stream_or_group_missing"
  severity := str "critical"
  component := str "audit-worker"
  message := str "Redis stream or consumer group is missing"
  metadata := none
  sink := some (.given 0)

/-- Its stamp. -/
def missingAt (now : ℚ) : Stamp := ⟨missing.component, missing.condition, now⟩

/-- The state after it was reported at `0`. -/
def once : Alerts :=
  { (Alerts.fresh 0).record (missingAt 0) with handed := [⟨missing.alert [], 0, true⟩] }

/-- The state after it was reported again at `300`. -/
def twice : Alerts :=
  { Alerts.record { once with clock := 300 } (missingAt 300) with
    handed := [⟨missing.alert [], 0, true⟩, ⟨missing.alert [], 300, true⟩] }

theorem reach_twice : Reach (world .exact) Thread (Config.idle (.fresh 0)) (Config.idle twice) := by
  have hfirst : Reach (world .exact) Thread (Config.idle (.fresh 0)) (Config.idle once) :=
    (solo_emitAll rfl [] rfl).visit ⟨[missing], rfl⟩
  have hlater : Reach (world .exact) Thread (Config.idle once)
      (Config.idle { once with clock := 300 }) :=
    Reach.drift_idle ⟨300, by norm_num [once, Alerts.fresh, Alerts.record], rfl⟩
  have hpass : suppresses .exact { once with clock := 300 } (missingAt 300) defaultWindow =
      false := by
    have hlast : once.lastSent (missingAt 300).key = some 0 := by
      show Function.update (Alerts.fresh 0).lastSent (missingAt 0).key (some 0) (missingAt 0).key =
        some 0
      rw [Function.update_self]
    unfold suppresses
    simp only [hlast]
    norm_num [missingAt, defaultWindow, Rounding.exact]
  exact (hfirst.trans hlater).trans ((solo_emitAll rfl [] hpass).visit ⟨[missing], rfl⟩)

end Sample

theorem no_alert_storm_twice :
    Reach (world .exact) Thread (Config.idle (.fresh 0)) (Config.idle Sample.twice) ∧
      (Sample.twice.handed.filter fun a => alertKey a.alert.component a.alert.condition =
        alertKey Sample.missing.component Sample.missing.condition).length = 2 ∧
      (Sample.twice.handed.filter fun a => alertKey a.alert.component a.alert.condition =
        alertKey Sample.missing.component Sample.missing.condition).Pairwise
          fun a b => Rounding.exact.Apart defaultWindow a.now b.now :=
  ⟨Sample.reach_twice, by decide,
    no_alert_storm Sample.reach_twice Sample.missing.component Sample.missing.condition
      (by decide)⟩

end SecurityAlerts

end SecurityAudit
