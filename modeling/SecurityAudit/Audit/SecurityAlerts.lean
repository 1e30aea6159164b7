import SecurityAudit.Clock.Spacing
import SecurityAudit.Json.Value
import SecurityAudit.Prog.Ledger

/-!
# Security alerts

`emit_security_alert` builds an alert, asks the table `_LAST_SENT` whether one with the same key
was let through less than the window ago, and hands it to a sink unless it was. The body of
`with _DEDUP_LOCK` is one call here: every access to the table is made under that lock and
nothing in the body can raise, so no other thread sees it half done. Reading the clock, entering
the critical section and handing the alert over are three calls, with anything in between.

The state also remembers what no variable of the program does: what the critical section let
through, and what was handed to sinks, with the clock value of the emission and whether the sink
took it. Clock values are floats; their difference is rounded, in any way that is a `Rounding`.
-/

namespace SecurityAudit

namespace SecurityAlerts

open Prog

/-! ## One emission -/

/-- `SecurityAlert`. -/
structure SecurityAlert where
  condition : Str
  severity : Str
  component : Str
  message : Str
  metadata : List (Str × JVal)
  timestamp : Str

/-- `AlertSink`: one given by the caller, or one of the two of the module. -/
inductive AlertSink where
  | given (name : ℕ)
  | stdout
  | file (path : Str)

/-- `VALID_SEVERITIES`. -/
def validSeverities : List Str := [str "info", str "warning", str "critical"]

/-- The default of `dedup_window_seconds`. -/
def defaultWindow : ℚ := 300

/-- `f"{component}:{condition}"`. -/
def alertKey (component condition : Str) : Str := component ++ cp ':' :: condition

/-- `condition.endswith("_recovered")`. -/
def isRecovery (condition : Str) : Bool := (str "_recovered").isSuffixOf condition

/-- Whose emission, of what, at which clock value: what the critical section is about. -/
structure Stamp where
  component : Str
  condition : Str
  now : ℚ
deriving DecidableEq

/-- The key of the table. -/
def Stamp.key (x : Stamp) : Str := alertKey x.component x.condition

inductive Call where
  /-- `datetime.now(timezone.utc).isoformat()` -/
  | utcnow
  /-- `time.monotonic()` -/
  | monotonic
  /-- the body of `with _DEDUP_LOCK`; the answer says whether it returned -/
  | dedup (stamp : Stamp) (window : ℚ)
  /-- `os.environ.get("AUDIT_ALERT_LOG_FILE")` -/
  | getenv
  /-- `sink.send(alert)`, in the emission that read `now` -/
  | send (sink : AlertSink) (alert : SecurityAlert) (now : ℚ)

/-- An exception is the name of its type, which is all that is reported of it. -/
def sig : Sig where
  Call := Call
  Reply
    | .utcnow => Str
    | .monotonic => ℚ
    | .dedup _ _ => Bool
    | .getenv => Option Str
    | .send _ _ _ => Unit
  Exc := Str

/-- What `emit_security_alert` is given. -/
structure AlertRequest where
  condition : Str
  severity : Str
  component : Str
  message : Str
  metadata : Option (List (Str × JVal))
  sink : Option AlertSink

/-- `_default_sink`. -/
def defaultSink : Prog sig AlertSink := do
  let log_file ← perform (σ := sig) .getenv
  match log_file with
  | some path => return if path = [] then .stdout else .file path
  | none => return .stdout

/-- `sink or _default_sink()`. -/
def chosenSink : Option AlertSink → Prog sig AlertSink
  | some sink => return sink
  | none => defaultSink

/-- `_now if _now is not None else time.monotonic()`. -/
def clockValue : Option ℚ → Prog sig ℚ
  | some now => return now
  | none => perform (σ := sig) .monotonic

/-- The alert of a request. -/
def AlertRequest.alert (request : AlertRequest) (timestamp : Str) : SecurityAlert where
  condition := request.condition
  severity := if request.severity ∈ validSeverities then request.severity else str "warning"
  component := request.component
  message := request.message
  metadata := request.metadata.getD []
  timestamp := timestamp

/-- `(sink or _default_sink()).send(alert)`. -/
def deliver (sink : Option AlertSink) (alert : SecurityAlert) (now : ℚ) : Prog sig Unit := do
  let sink ← chosenSink sink
  perform (σ := sig) (.send sink alert now)

/-- `emit_security_alert`. -/
def emitSecurityAlert (request : AlertRequest) (dedup_window_seconds : ℚ) (_now : Option ℚ) :
    Prog sig (Option SecurityAlert) := do
  let timestamp ← perform (σ := sig) .utcnow
  let now ← clockValue _now
  let suppressed : Bool ← perform (σ := sig)
    (.dedup ⟨request.component, request.condition, now⟩ dedup_window_seconds)
  if suppressed then return none
  -- a sink that raises is reported, and the alert is returned all the same
  let _ ← (deliver request.sink (request.alert timestamp) now).attempt
  return some (request.alert timestamp)

/-- One call after the other, each with the default window and the clock's own time. -/
def emitAll (requests : List AlertRequest) : Prog sig Unit :=
  forEach (fun request => do
    let _ ← emitSecurityAlert request defaultWindow none
    return ()) requests

/-! ## What happens to the calls -/

/-- An alert as it was handed to a sink. -/
structure Handed where
  alert : SecurityAlert
  now : ℚ
  accepted : Bool

/-- Whose alert, of what, at which clock value. -/
def Handed.stamp (a : Handed) : Stamp := ⟨a.alert.component, a.alert.condition, a.now⟩

/-- `lastSent` is `_LAST_SENT`. -/
structure Alerts where
  clock : ℚ
  lastSent : Str → Option ℚ
  recorded : List Stamp
  handed : List Handed

/-- The module has been imported. -/
def Alerts.fresh (clock : ℚ) : Alerts := ⟨clock, fun _ => none, [], []⟩

variable (R : Rounding ℚ)

/-- The condition under which the critical section returns. -/
def suppresses (s : Alerts) (stamp : Stamp) (window : ℚ) : Bool :=
  match s.lastSent stamp.key with
  | none => false
  | some last =>
    !isRecovery stamp.condition && decide (R.round (stamp.now - last) < window)

/-- `_LAST_SENT[key] = now`. -/
def Alerts.record (s : Alerts) (stamp : Stamp) : Alerts :=
  { s with
    lastSent := Function.update s.lastSent stamp.key (some stamp.now)
    recorded := s.recorded ++ [stamp] }

/-- The body of `with _DEDUP_LOCK`. -/
def dedup (s : Alerts) (stamp : Stamp) (window : ℚ) : Bool × Alerts :=
  if suppresses R s stamp window then (true, s) else (false, s.record stamp)

@[simp] theorem dedup_fst (s : Alerts) (stamp : Stamp) (window : ℚ) :
    (dedup R s stamp window).1 = suppresses R s stamp window := by
  unfold dedup
  cases suppresses R s stamp window <;> rfl

theorem dedup_snd (s : Alerts) (stamp : Stamp) (window : ℚ) :
    (dedup R s stamp window).2 = if suppresses R s stamp window then s else s.record stamp := by
  unfold dedup
  cases suppresses R s stamp window <;> rfl

/-- How calls are answered. The clock may advance at any time, and any sink may fail. -/
def world : World sig Alerts where
  answers
    | .utcnow, s, r, s' => (∃ timestamp, r = .ok timestamp) ∧ s' = s
    | .monotonic, s, r, s' => r = .ok s.clock ∧ s' = s
    | .dedup stamp window, s, r, s' =>
      r = .ok (dedup R s stamp window).1 ∧ s' = (dedup R s stamp window).2
    | .getenv, s, r, s' => (∃ value, r = .ok value) ∧ s' = s
    | .send _ alert now, s, r, s' =>
      s' = { s with handed := s.handed ++ [⟨alert, now, r.isOk⟩] }
  drift s s' := ∃ clock, s.clock ≤ clock ∧ s' = { s with clock := clock }

/-! ## Keys -/

/-- A colon is in every key, and not in `"_recovered"`. -/
theorem isRecovery_iff_key (component condition : Str) :
    isRecovery condition = true ↔ str "_recovered" <:+ alertKey component condition := by
  unfold isRecovery
  rw [List.isSuffixOf_iff_suffix]
  constructor
  · exact fun h => h.trans ((List.suffix_cons _ _).trans (List.suffix_append _ _))
  · intro h
    have hcolon : cp ':' :: condition <:+ alertKey component condition := List.suffix_append _ _
    rcases List.suffix_or_suffix_of_suffix h hcolon with hle | hle
    · rcases List.suffix_cons_iff.mp hle with heq | hle
      · have hhead : cp '_' = cp ':' := Option.some.inj (congrArg List.head? heq)
        exact absurd hhead (by decide)
      · exact hle
    · exact absurd (hle.subset List.mem_cons_self) (by decide)

/-- Whether an alert is a recovery can be seen from its key. -/
theorem isRecovery_of_key {x y : Stamp} (h : x.key = y.key) :
    isRecovery x.condition = isRecovery y.condition := by
  rw [Bool.eq_iff_iff, isRecovery_iff_key x.component, isRecovery_iff_key y.component]
  rw [show alertKey x.component x.condition = alertKey y.component y.condition from h]

/-- The clock values of the stamps with this key. -/
def times (key : Str) (stamps : List Stamp) : List ℚ :=
  (stamps.filter fun x => x.key = key).map Stamp.now

theorem times_append (key : Str) (xs ys : List Stamp) :
    times key (xs ++ ys) = times key xs ++ times key ys := by
  simp only [times, List.filter_append, List.map_append]

theorem times_snoc_self (xs : List Stamp) (x : Stamp) :
    times x.key (xs ++ [x]) = times x.key xs ++ [x.now] := by
  rw [times_append]
  simp [times]

theorem times_snoc_of_ne {key : Str} (xs : List Stamp) {x : Stamp} (h : x.key ≠ key) :
    times key (xs ++ [x]) = times key xs := by
  rw [times_append]
  simp [times, h]

/-! ## The table -/

/-- The table holds the last time of each key, and the times of a key that is not a recovery
are spaced by the window. -/
structure Recorded (s : Alerts) : Prop where
  last : ∀ key, s.lastSent key = (times key s.recorded).getLast?
  spaced : ∀ x : Stamp, isRecovery x.condition = false →
    R.Spaced defaultWindow (times x.key s.recorded)

variable {R}

theorem recorded_fresh (clock : ℚ) : Recorded R (.fresh clock) :=
  ⟨fun _ => rfl, fun _ _ => .nil⟩

/-- What was let through is long enough after the last with its key. -/
theorem Recorded.let_through {s : Alerts} (h : Recorded R s) {stamp : Stamp}
    (hkind : isRecovery stamp.condition = false)
    (hpass : suppresses R s stamp defaultWindow = false) {last : ℚ}
    (hlast : (times stamp.key s.recorded).getLast? = some last) :
    defaultWindow ≤ R.round (stamp.now - last) := by
  unfold suppresses at hpass
  rw [h.last, hlast] at hpass
  simpa [hkind] using hpass

/-- The critical section. -/
theorem Recorded.dedup {s : Alerts} (h : Recorded R s) (stamp : Stamp) :
    Recorded R (dedup R s stamp defaultWindow).2 := by
  unfold SecurityAlerts.dedup
  cases hpass : suppresses R s stamp defaultWindow with
  | true => exact h
  | false =>
    refine ⟨fun key => ?_, fun x hx => ?_⟩
    · show Function.update s.lastSent stamp.key (some stamp.now) key =
        (times key (s.recorded ++ [stamp])).getLast?
      by_cases hkey : key = stamp.key
      · rw [hkey, Function.update_self, times_snoc_self, List.getLast?_concat]
      · rw [Function.update_of_ne hkey, times_snoc_of_ne _ (Ne.symm hkey)]
        exact h.last key
    · show R.Spaced defaultWindow (times x.key (s.recorded ++ [stamp]))
      by_cases hkey : x.key = stamp.key
      · rw [isRecovery_of_key hkey] at hx
        rw [hkey, times_snoc_self]
        exact (h.spaced stamp hx).snoc (by norm_num [defaultWindow]) fun last hlast =>
          h.let_through hx hpass hlast
      · rw [times_snoc_of_ne _ (Ne.symm hkey)]
        exact h.spaced x hx

/-- The calls of an emission with the default window. -/
def DefaultWindow : Call → Prop
  | .dedup _ window => window = defaultWindow
  | _ => True

/-- What an answer leaves of the table. -/
theorem Recorded.answered {s s' : Alerts} {c : Call} {r : sig.Answer c} (h : Recorded R s)
    (hc : DefaultWindow c) (ha : (world R).answers c s r s') : Recorded R s' := by
  cases c with
  | utcnow | monotonic | getenv =>
    obtain ⟨-, rfl⟩ := ha
    exact h
  | dedup stamp window =>
    obtain ⟨-, rfl⟩ := ha
    rw [show window = defaultWindow from hc]
    exact h.dedup stamp
  | send sink alert now =>
    obtain rfl := ha
    exact ⟨h.last, h.spaced⟩

theorem Recorded.drift {s s' : Alerts} (h : Recorded R s) (hd : (world R).drift s s') :
    Recorded R s' := by
  obtain ⟨clock, -, rfl⟩ := hd
  exact ⟨h.last, h.spaced⟩

/-! ## Which calls an emission makes -/

theorem calls_chosenSink {P : Call → Prop} (hgetenv : P .getenv) (sink : Option AlertSink) :
    (chosenSink sink).All P := by
  cases sink with
  | some sink => trivial
  | none =>
    refine (all_perform hgetenv).bind fun log_file => ?_
    cases log_file <;> trivial

theorem calls_deliver {P : Call → Prop} {alert : SecurityAlert} {now : ℚ} (hgetenv : P .getenv)
    (hsend : ∀ sink, P (.send sink alert now)) (sink : Option AlertSink) :
    (deliver sink alert now).All P :=
  (calls_chosenSink hgetenv sink).bind fun sink => all_perform (hsend sink)

theorem calls_emitSecurityAlert (request : AlertRequest) (_now : Option ℚ) :
    (emitSecurityAlert request defaultWindow _now).All DefaultWindow := by
  refine (all_perform trivial).bind fun timestamp => ?_
  have hclock : (clockValue _now).All DefaultWindow := by
    cases _now with
    | some now => trivial
    | none => exact all_perform trivial
  refine hclock.bind fun now => (all_perform (by exact rfl)).bind fun suppressed => ?_
  cases suppressed with
  | true => trivial
  | false => exact (calls_deliver trivial (fun _ => trivial) _).attempt.bind fun _ => trivial

theorem calls_emitAll (requests : List AlertRequest) : (emitAll requests).All DefaultWindow :=
  all_forEach fun request _ => (calls_emitSecurityAlert request none).bind fun _ => trivial

end SecurityAlerts

end SecurityAudit
