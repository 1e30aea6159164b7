import Mathlib

/-!
# Programs that make calls

A worker process computes a little, asks the outside world for something (a Redis
command, a SQL statement, a clock reading), looks at the answer and goes on. `Prog` is
that shape and nothing else: a returned value, a raised exception, or one call together
with what the process does for each answer. An answer is either a result or an exception,
so a failing call is not a special case of the semantics; the program decides with
`attempt` and `ensuring` which exceptions it survives.

Nothing here says what a call does. `Prog.Interleaving` runs many programs against one
shared state; `Prog.Solo` is what is left of that when one program runs alone.
-/

namespace SecurityAudit

/-- A signature: the calls a program can make, the result type of each, and the
exceptions a call or the program itself can raise. -/
structure Sig where
  Call : Type
  Reply : Call → Type
  Exc : Type

/-- The answer to a call: its result, or the exception it raised. -/
abbrev Sig.Answer (σ : Sig) (c : σ.Call) : Type := Except σ.Exc (σ.Reply c)

/-- A program over the signature `σ`. -/
inductive Prog (σ : Sig) (α : Type) : Type where
  | ret (a : α)
  | raise (e : σ.Exc)
  | call (c : σ.Call) (next : σ.Answer c → Prog σ α)

namespace Prog

variable {σ : Sig} {α β γ : Type}

/-- Run `p`, then continue with `f` on the value it returned. -/
def bind : Prog σ α → (α → Prog σ β) → Prog σ β
  | .ret a, f => f a
  | .raise e, _ => .raise e
  | .call c next, f => .call c fun r => (next r).bind f

instance : Monad (Prog σ) where
  pure := .ret
  bind := Prog.bind

@[simp] theorem pure_eq (a : α) : (pure a : Prog σ α) = .ret a := rfl

@[simp] theorem ret_bind (a : α) (f : α → Prog σ β) : (Prog.ret a >>= f) = f a := rfl

@[simp] theorem raise_bind (e : σ.Exc) (f : α → Prog σ β) :
    (Prog.raise e >>= f) = .raise e := rfl

@[simp] theorem call_bind (c : σ.Call) (next : σ.Answer c → Prog σ α) (f : α → Prog σ β) :
    (Prog.call c next >>= f) = .call c fun r => next r >>= f := rfl

theorem bind_assoc (p : Prog σ α) (f : α → Prog σ β) (g : β → Prog σ γ) :
    p >>= f >>= g = p >>= fun a => f a >>= g := by
  induction p with
  | ret a => rfl
  | raise e => rfl
  | call c next ih =>
    simp only [call_bind]
    congr 1
    funext r
    exact ih r

/-- An answer taken as a program: return the result or raise the exception. -/
def ofExcept : Except σ.Exc α → Prog σ α
  | .ok a => .ret a
  | .error e => .raise e

@[simp] theorem ofExcept_ok (a : α) : (ofExcept (.ok a) : Prog σ α) = .ret a := rfl

@[simp] theorem ofExcept_error (e : σ.Exc) : (ofExcept (.error e) : Prog σ α) = .raise e := rfl

/-- Make one call; an exception it answers with is raised. -/
def perform (c : σ.Call) : Prog σ (σ.Reply c) := .call c ofExcept

/-- `try: p`, with the outcome handed back as a value: `ok` what `p` returned, `error`
what it raised. The `except` clauses of the source are matches on it. -/
def attempt : Prog σ α → Prog σ (Except σ.Exc α)
  | .ret a => .ret (.ok a)
  | .raise e => .ret (.error e)
  | .call c next => .call c fun r => (next r).attempt

@[simp] theorem attempt_ret (a : α) : (Prog.ret a : Prog σ α).attempt = .ret (.ok a) := rfl

@[simp] theorem attempt_raise (e : σ.Exc) :
    (Prog.raise e : Prog σ α).attempt = .ret (.error e) := rfl

@[simp] theorem attempt_call (c : σ.Call) (next : σ.Answer c → Prog σ α) :
    (Prog.call c next).attempt = .call c fun r => (next r).attempt := rfl

/-- `try: p finally: fin`. An exception raised by `fin` replaces the outcome of `p`. -/
def ensuring (p : Prog σ α) (fin : Prog σ Unit) : Prog σ α := do
  let outcome ← p.attempt
  fin
  ofExcept outcome

/-- `for x in xs: body x`. -/
def forEach (body : α → Prog σ Unit) : List α → Prog σ Unit
  | [] => .ret ()
  | x :: xs => do
    body x
    forEach body xs

end Prog

end SecurityAudit
