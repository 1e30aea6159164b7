import SecurityAudit.Prog.Except
import SecurityAudit.Prog.Trace

/-!
# Programs in a fixed world

Where every call has one answer, a program is a computation that returns or raises, `eval`, and
the calls it makes are determined. `Makes env P p` says that they all meet `P`; unlike `All` it
looks only at what is called after the answers that are really given.
-/

namespace SecurityAudit

namespace Prog

variable {σ : Sig} {α β : Type} {env : (c : σ.Call) → σ.Answer c}

/-- How `p` ends. -/
def eval (env : (c : σ.Call) → σ.Answer c) : Prog σ α → Except σ.Exc α
  | .ret a => .ok a
  | .raise e => .error e
  | .call c next => (next (env c)).eval env

@[simp] theorem eval_ret (a : α) : (Prog.ret a : Prog σ α).eval env = .ok a := rfl

@[simp] theorem eval_raise (e : σ.Exc) : (Prog.raise e : Prog σ α).eval env = .error e := rfl

@[simp] theorem eval_bind (p : Prog σ α) (f : α → Prog σ β) :
    (p >>= f).eval env = p.eval env >>= fun a => (f a).eval env := by
  induction p with
  | ret a => exact (ok_bind _ _).symm
  | raise e => rfl
  | call c next ih => exact ih (env c)

@[simp] theorem eval_attempt (p : Prog σ α) : p.attempt.eval env = .ok (p.eval env) := by
  induction p with
  | ret a => rfl
  | raise e => rfl
  | call c next ih => exact ih (env c)

/-- `try: p` and what is done about its outcome. -/
theorem eval_attempt_bind (p : Prog σ α) (f : Except σ.Exc α → Prog σ β) :
    (p.attempt >>= f).eval env = (f (p.eval env)).eval env := by
  rw [eval_bind, eval_attempt, ok_bind]

@[simp] theorem eval_ofExcept (x : Except σ.Exc α) : (ofExcept x).eval env = x := by
  cases x <;> rfl

@[simp] theorem eval_perform (c : σ.Call) : (perform c).eval env = env c := eval_ofExcept _

/-- The calls of `p` meet `P`. -/
def Makes (env : (c : σ.Call) → σ.Answer c) (P : σ.Call → Prop) : Prog σ α → Prop
  | .ret _ => True
  | .raise _ => True
  | .call c next => P c ∧ (next (env c)).Makes env P

variable {P : σ.Call → Prop}

/-- The rule for `p; f`. -/
theorem Makes.bind {p : Prog σ α} {f : α → Prog σ β} (hp : p.Makes env P)
    (hf : ∀ a, p.eval env = .ok a → (f a).Makes env P) : (p >>= f).Makes env P := by
  induction p with
  | ret a => exact hf a rfl
  | raise e => trivial
  | call c next ih => exact ⟨hp.1, ih (env c) hp.2 hf⟩

/-- The rule for `try: p`. -/
theorem Makes.attempt {p : Prog σ α} (hp : p.Makes env P) : p.attempt.Makes env P := by
  induction p with
  | ret a => trivial
  | raise e => trivial
  | call c next ih => exact ⟨hp.1, ih (env c) hp.2⟩

/-- The rule for `try: p` and what is done about its outcome. -/
theorem Makes.attempt_bind {p : Prog σ α} {f : Except σ.Exc α → Prog σ β} (hp : p.Makes env P)
    (hf : (f (p.eval env)).Makes env P) : (p.attempt >>= f).Makes env P := by
  refine hp.attempt.bind fun outcome h => ?_
  rw [eval_attempt] at h
  rwa [← Except.ok.inj h]

/-- The calls that are made meet `P`. -/
theorem Makes.play {p : Prog σ α} (hp : p.Makes env P) (before : List σ.Event) :
    ∀ e ∈ (p.play (fun _ => env) before).1, P e.1 := by
  induction p generalizing before with
  | ret a => simp [Prog.play]
  | raise e => simp [Prog.play]
  | call c next ih =>
    intro e he
    rcases List.mem_cons.mp he with rfl | he
    · exact hp.1
    · exact ih (env c) hp.2 _ e he

end Prog

end SecurityAudit
