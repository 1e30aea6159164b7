import SecurityAudit.Audit.Contexts
import SecurityAudit.Audit.Logger

/-!
# Audited calls: `audit/decorators.py`

The wrapper of `@audit` lets the function run, builds an event from the context variables as they
are when it has ended, and hands it to the logger. The variables belong to the task: a task that
is started gets a copy of those of the task that starts it, and what one task sets after that no
other sees. `Process` is any number of tasks in any order; it keeps for each task the calls of
`inject_context` that its context has seen, its own and those before it was started.

In such a process an event says whose context it was made in: the trace id is the one of the last
of these calls, and the user and the organization are those of the last one that returned, since a
call that raises leaves them as they were.
-/

namespace SecurityAudit

namespace Contexts

open JwtVerify (Settings)

/-- What a producer is configured with, and the text pydantic writes for a `datetime`. -/
structure Producer where
  settings : Settings
  crypto : Crypto
  secret : Str
  datetimeText : DateTime → Str

variable {V E : Type} (P : Producer)

/-- `async_inner`, once the function has ended with `result`: how the call ends, and the fields
that are added to the stream. -/
def asyncInner (D : Decoration) (result : Except E V) (vars : ContextVars) :
    Except (E ⊕ Exc) V × Option Fields :=
  match result with
  | .error e => (.error (.inl e), none)
  | .ok v =>
    match auditEvent P.settings D vars with
    | .error e => (.error (.inr e), none)
    | .ok event => (.ok v, AuditLogger.log P.datetimeText P.crypto P.secret event)

/-- What a task does. -/
inductive Act (V E : Type) where
  /-- It starts another task. -/
  | createTask (child : ℕ)
  | injectContext (call : InjectCall)
  /-- An audited function has ended; `delivered` is whether Redis then takes the entry. -/
  | ended (D : Decoration) (result : Except E V) (delivered : Bool)

/-- An audited call that has ended. `calls` are those that the context of its task had seen. -/
structure AuditedCall (V E : Type) where
  decoration : Decoration
  result : Except E V
  calls : List InjectCall
  outcome : Except (E ⊕ Exc) V
  entry : Option Fields

structure Process (V E : Type) where
  vars : ℕ → ContextVars
  calls : ℕ → List InjectCall
  audited : List (AuditedCall V E)

/-- No task has set anything. -/
def Process.initial : Process V E := ⟨fun _ => ⟨none, none, none⟩, fun _ => [], []⟩

/-- The task `w` does something. -/
def Process.step (p : Process V E) (w : ℕ) : Act V E → Process V E
  | .createTask child =>
    { p with
      vars := Function.update p.vars child (p.vars w)
      calls := Function.update p.calls child (p.calls w) }
  | .injectContext call =>
    { p with
      vars := Function.update p.vars w (Contexts.injectContext P.settings call (p.vars w)).2
      calls := Function.update p.calls w (p.calls w ++ [call]) }
  | .ended D result delivered =>
    let (outcome, published) := asyncInner P D result (p.vars w)
    { p with audited := p.audited ++ [{
        decoration := D
        result := result
        calls := p.calls w
        outcome := outcome
        entry := if delivered = true then published else none }] }

/-- Tasks take turns. -/
def Process.run (acts : List (ℕ × Act V E)) : Process V E :=
  acts.foldl (fun p act => p.step P act.1 act.2) .initial

/-- The variables after the calls. -/
def contextAfter (calls : List InjectCall) : ContextVars :=
  calls.foldl (fun vars call => (injectContext P.settings call vars).2) ⟨none, none, none⟩

/-- The last of the calls that returned. -/
def lastReturned (calls : List InjectCall) : Option InjectCall :=
  (calls.filter fun call => (call.identity P.settings).isOk).getLast?

/-! ## The variables -/

variable {P}

theorem contextAfter_snoc (calls : List InjectCall) (call : InjectCall) :
    contextAfter P (calls ++ [call]) = (injectContext P.settings call (contextAfter P calls)).2 := by
  rw [contextAfter, List.foldl_append]
  rfl

theorem lastReturned_snoc (calls : List InjectCall) (call : InjectCall) :
    lastReturned P (calls ++ [call]) =
      if (call.identity P.settings).isOk then some call else lastReturned P calls := by
  unfold lastReturned
  rw [List.filter_append, List.filter_singleton]
  split_ifs with hok
  · rw [hok, cond_true, List.getLast?_append, List.getLast?_singleton]
    rfl
  · rw [Bool.not_eq_true] at hok
    rw [hok, cond_false, List.append_nil]

/-- **What the context holds** after any calls, some of which may have raised. -/
structure Holds (P : Producer) (calls : List InjectCall) (vars : ContextVars) : Prop where
  trace_id : vars.trace_id = calls.getLast?.map InjectCall.trace_id
  identity : ∀ i, vars.identity = some i ↔
    ∃ call, lastReturned P calls = some call ∧ call.Verifies P.settings i
  user_id : vars.user_id = (vars.identity.map VerifiedIdentity.sub).or
    ((lastReturned P calls).bind InjectCall.user_id)

theorem Holds.snoc {calls : List InjectCall} {vars : ContextVars} (h : Holds P calls vars)
    (call : InjectCall) : Holds P (calls ++ [call]) (injectContext P.settings call vars).2 := by
  cases hidentity : call.identity P.settings with
  | error e =>
    -- the call has set its trace id and raised
    have hlast : lastReturned P (calls ++ [call]) = lastReturned P calls := by
      rw [lastReturned_snoc, hidentity]
      rfl
    rw [injectContext_of_error hidentity]
    refine ⟨?_, fun i => ?_, ?_⟩
    · rw [List.getLast?_append, List.getLast?_singleton]
      rfl
    · rw [hlast]
      exact h.identity i
    · rw [hlast]
      exact h.user_id
  | ok identity =>
    have hlast : lastReturned P (calls ++ [call]) = some call := by
      rw [lastReturned_snoc, hidentity]
      rfl
    rw [injectContext_of_ok hidentity]
    refine ⟨?_, fun i => ?_, ?_⟩
    · rw [List.getLast?_append, List.getLast?_singleton]
      rfl
    · rw [hlast]
      simpa using identity_verifies hidentity
    · rw [hlast]
      rfl

theorem holds_contextAfter (calls : List InjectCall) : Holds P calls (contextAfter P calls) := by
  induction calls using List.reverseRecOn with
  | nil =>
    refine ⟨rfl, fun i => iff_of_false (fun h => by cases h) ?_, rfl⟩
    rintro ⟨call, hcall, -⟩
    cases hcall
  | append_singleton calls call ih =>
    rw [contextAfter_snoc]
    exact ih.snoc call

/-! ## The run of a process -/

/-- The wrapper adds nothing to how the function ends, and publishes what the context says. -/
structure AuditedCall.Faithful (P : Producer) (x : AuditedCall V E) : Prop where
  outcome : x.outcome = x.result.mapError Sum.inl
  failed : x.result.isOk = false → x.entry = none
  published : ∀ m, x.entry = some m → ∃ e,
    auditEvent P.settings x.decoration (contextAfter P x.calls) = .ok e ∧
      AuditLogger.log P.datetimeText P.crypto P.secret e = some m

theorem faithful_asyncInner (D : Decoration) (result : Except E V) (calls : List InjectCall)
    (delivered : Bool) : AuditedCall.Faithful P
      ⟨D, result, calls, (asyncInner P D result (contextAfter P calls)).1,
        if delivered = true then (asyncInner P D result (contextAfter P calls)).2 else none⟩ := by
  cases result with
  | error e =>
    refine ⟨rfl, fun _ => by simp [asyncInner], fun m hm => ?_⟩
    simp [asyncInner] at hm
  | ok v =>
    obtain ⟨event, hevent⟩ := exists_auditEvent P.settings D (contextAfter P calls)
    have hinner : asyncInner P D (.ok v : Except E V) (contextAfter P calls) =
        (.ok v, AuditLogger.log P.datetimeText P.crypto P.secret event) := by
      simp only [asyncInner, hevent]
    rw [hinner]
    refine ⟨rfl, fun hfailed => Bool.noConfusion hfailed, fun m hm => ⟨event, hevent, ?_⟩⟩
    cases delivered with
    | false => cases hm
    | true => exact hm

/-- The variables of every task are those after the calls it has seen. -/
structure Process.Sound (P : Producer) (p : Process V E) : Prop where
  vars : ∀ w, p.vars w = contextAfter P (p.calls w)
  audited : ∀ x ∈ p.audited, x.Faithful P

theorem Process.Sound.step {p : Process V E} (h : p.Sound P) (w : ℕ) (act : Act V E) :
    (p.step P w act).Sound P := by
  cases act with
  | createTask child =>
    refine ⟨fun v => ?_, h.audited⟩
    show Function.update p.vars child _ v = contextAfter P (Function.update p.calls child _ v)
    by_cases hv : v = child
    · rw [hv, Function.update_self, Function.update_self]
      exact h.vars w
    · rw [Function.update_of_ne hv, Function.update_of_ne hv]
      exact h.vars v
  | injectContext call =>
    refine ⟨fun v => ?_, h.audited⟩
    show Function.update p.vars w _ v = contextAfter P (Function.update p.calls w _ v)
    by_cases hv : v = w
    · rw [hv, Function.update_self, Function.update_self, contextAfter_snoc, h.vars w]
    · rw [Function.update_of_ne hv, Function.update_of_ne hv]
      exact h.vars v
  | ended D result delivered =>
    refine ⟨h.vars, fun x hx => ?_⟩
    rcases List.mem_append.mp hx with hx | hx
    · exact h.audited x hx
    · rw [List.mem_singleton.mp hx, h.vars w]
      exact faithful_asyncInner D result (p.calls w) delivered

theorem Process.sound_run (acts : List (ℕ × Act V E)) : (Process.run P acts).Sound P := by
  induction acts using List.reverseRecOn with
  | nil => exact ⟨fun w => rfl, fun x hx => absurd hx List.not_mem_nil⟩
  | append_singleton acts act ih =>
    rw [Process.run, List.foldl_append]
    exact ih.step act.1 act.2

end Contexts

end SecurityAudit
