import Mathlib

/-!
# Computations that may fail

What a computation in `Except` that returned says about the steps it is made of. Proofs about
such code take it apart with these lemmas and never unfold the monad.
-/

namespace SecurityAudit

/-- A computation of two steps returns only through a result of each. -/
theorem bind_eq_ok {ε α β : Type} {x : Except ε α} {f : α → Except ε β} {b : β} :
    (x >>= f) = .ok b ↔ ∃ a, x = .ok a ∧ f a = .ok b := by
  cases x <;> simp [bind, Except.bind]

theorem map_eq_ok {ε α β : Type} {x : Except ε α} {f : α → β} {b : β} :
    x.map f = .ok b ↔ ∃ a, x = .ok a ∧ f a = b := by
  cases x <;> simp [Except.map]

@[simp] theorem ok_bind {ε α β : Type} (a : α) (f : α → Except ε β) :
    ((Except.ok a : Except ε α) >>= f) = f a := by
  simp [bind, Except.bind]

@[simp] theorem pure_ok {ε α : Type} (a : α) : (pure a : Except ε α) = .ok a := by
  simp [pure, Except.pure]

/-- A loop that returned is a chain of the relation its steps keep. -/
theorem chain_of_foldlM {ε α β : Type} {R : β → β → Prop} {f : β → α → Except ε β}
    (hf : ∀ b a b', f b a = .ok b' → Relation.ReflTransGen R b b') {xs : List α} {b b' : β}
    (h : xs.foldlM f b = .ok b') : Relation.ReflTransGen R b b' := by
  induction xs generalizing b with
  | nil =>
    rw [List.foldlM_nil, pure_ok] at h
    rw [Except.ok.inj h]
  | cons x xs ih =>
    rw [List.foldlM_cons] at h
    obtain ⟨c, hc, h⟩ := bind_eq_ok.mp h
    exact (hf b x c hc).trans (ih h)

/-- A check that did not raise held. -/
theorem guard_eq_ok {ε α : Type} {p : Prop} [Decidable p] {e : ε} {x : Except ε α} {a : α} :
    (if p then .error e else x) = .ok a ↔ ¬p ∧ x = .ok a := by
  split_ifs with h <;> simp [h]

end SecurityAudit
