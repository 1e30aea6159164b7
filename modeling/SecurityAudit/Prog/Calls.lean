import SecurityAudit.Prog.Solo

/-!
# The calls a program may make

`Prog.All P p` says that every call `p` may make, on whatever answers, meets `P`. An invariant
that calls meeting `P` keep is kept along any stretch of a run of such a program (`Solo.keeps`).
`Prog.Strict P p` says that `p` catches no exception of these calls. The second half takes stretches
of composed programs apart.
-/

namespace SecurityAudit

variable {σ : Sig} {S α β : Type} {W : World σ S}

namespace Prog

/-- Every call of the program meets `P`. -/
def All (P : σ.Call → Prop) : Prog σ α → Prop
  | .ret _ => True
  | .raise _ => True
  | .call c next => P c ∧ ∀ r, (next r).All P

variable {P : σ.Call → Prop}

theorem all_of_forall (h : ∀ c, P c) (p : Prog σ α) : p.All P := by
  induction p with
  | ret a => trivial
  | raise e => trivial
  | call c next ih => exact ⟨h c, ih⟩

theorem All.mono {Q : σ.Call → Prop} {p : Prog σ α} (h : ∀ c, P c → Q c) (hp : p.All P) :
    p.All Q := by
  induction p with
  | ret a => trivial
  | raise e => trivial
  | call c next ih => exact ⟨h c hp.1, fun r => ih r (hp.2 r)⟩

theorem All.bind {p : Prog σ α} {f : α → Prog σ β} (hp : p.All P) (hf : ∀ a, (f a).All P) :
    (p >>= f).All P := by
  induction p with
  | ret a => exact hf a
  | raise e => trivial
  | call c next ih => exact ⟨hp.1, fun r => ih r (hp.2 r)⟩

theorem All.attempt {p : Prog σ α} (hp : p.All P) : p.attempt.All P := by
  induction p with
  | ret a => trivial
  | raise e => trivial
  | call c next ih => exact ⟨hp.1, fun r => ih r (hp.2 r)⟩

theorem all_ofExcept (r : Except σ.Exc α) : (ofExcept r).All P := by
  cases r <;> trivial

theorem all_perform {c : σ.Call} (hc : P c) : (perform c).All P := ⟨hc, all_ofExcept⟩

theorem All.ensuring {p : Prog σ α} {fin : Prog σ Unit} (hp : p.All P) (hfin : fin.All P) :
    (p.ensuring fin).All P :=
  hp.attempt.bind fun _ => hfin.bind fun _ => all_ofExcept _

theorem all_forEach {body : β → Prog σ Unit} {xs : List β} (h : ∀ x ∈ xs, (body x).All P) :
    (forEach body xs).All P := by
  induction xs with
  | nil => trivial
  | cons x xs ih => exact (h x (by simp)).bind fun _ => ih fun y hy => h y (by simp [hy])

/-- An exception of a call that meets `P` is not caught: the program ends with it. -/
def Strict (P : σ.Call → Prop) : Prog σ α → Prop
  | .ret _ => True
  | .raise _ => True
  | .call c next => (P c → ∀ e, next (.error e) = .raise e) ∧ ∀ r, (next r).Strict P

theorem Strict.bind {p : Prog σ α} {f : α → Prog σ β} (hp : p.Strict P)
    (hf : ∀ a, (f a).Strict P) : (p >>= f).Strict P := by
  induction p with
  | ret a => exact hf a
  | raise e => trivial
  | call c next ih =>
    refine ⟨fun hc e => ?_, fun r => ih r (hp.2 r)⟩
    show (next (.error e)).bind f = .raise e
    rw [hp.1 hc e]
    rfl

theorem strict_perform (c : σ.Call) : (perform c).Strict P :=
  ⟨fun _ _ => rfl, fun r => by cases r <;> trivial⟩

/-- Without such a call there is nothing to catch. -/
theorem strict_of_all {p : Prog σ α} (h : p.All fun c => ¬P c) : p.Strict P := by
  induction p with
  | ret a => trivial
  | raise e => trivial
  | call c next ih => exact ⟨fun hc => absurd hc h.1, fun r => ih r (h.2 r)⟩

end Prog

/-- A program whose calls may always be made is safe. -/
theorem Safe.of_all {K : Contract σ S} {P : σ.Call → Prop} {p : Prog σ α} (hp : p.All P)
    (hpre : ∀ c s, P c → K.pre c s) (s : S) : Safe K p (fun _ _ => True) s := by
  induction p generalizing s with
  | ret a => trivial
  | raise e => trivial
  | call c next ih => exact fun s₁ _ _ => ⟨hpre c s₁ hp.1, fun r s₂ _ _ _ => ih r (hp.2 r) s₂⟩

/-- What nobody can undo still holds when a safe program ends. -/
theorem Safe.carry {K : Contract σ S} {J : S → Prop} {p : Prog σ α}
    {Q : Except σ.Exc α → S → Prop} {s : S} (hJ : ∀ {t u}, J t → K.rely t u → J u)
    (h : Safe K p Q s) (hs : J s) : Safe K p (fun r t => Q r t ∧ J t) s := by
  induction p generalizing s with
  | ret a => exact ⟨h, hs⟩
  | raise e => exact ⟨h, hs⟩
  | call c next ih =>
    intro s₁ hr hi
    obtain ⟨hpre, hnext⟩ := h s₁ hr hi
    refine ⟨hpre, fun r s₂ hr₂ hi₂ hpost => ?_⟩
    exact ih r (hnext r s₂ hr₂ hi₂ hpost) (hJ (hJ hs hr) hr₂)

/-- A program whose calls may be made as long as a fact holds that nobody can undo is safe. -/
theorem Safe.of_all_while {K : Contract σ S} {P : σ.Call → Prop} {J : S → Prop} {p : Prog σ α}
    (hp : p.All P) (hJ : ∀ {t u}, J t → K.rely t u → J u)
    (hpre : ∀ c t, P c → J t → K.pre c t) {s : S} (hs : J s) :
    Safe K p (fun _ _ => True) s := by
  induction p generalizing s with
  | ret a => trivial
  | raise e => trivial
  | call c next ih =>
    intro s₁ hr _
    refine ⟨hpre c s₁ hp.1 (hJ hs hr), fun r s₂ hr₂ _ _ => ?_⟩
    exact ih r (hp.2 r) (hJ (hJ hs hr) hr₂)

/-- A loop whose body is safe everywhere. -/
theorem Safe.forEach_of {K : Contract σ S} {body : β → Prog σ Unit} {xs : List β}
    (hbody : ∀ x ∈ xs, ∀ s, Safe K (body x) (fun _ _ => True) s) (s : S) :
    Safe K (Prog.forEach body xs) (fun _ _ => True) s := by
  induction xs generalizing s with
  | nil => trivial
  | cons x xs ih =>
    exact (hbody x (by simp) s).bind (fun _ t _ => ih (fun y hy => hbody y (by simp [hy])) t)
      fun _ _ _ => trivial

namespace Solo

variable {p q : Prog σ α} {s t : S}

/-- What the calls of a program keep, a stretch of its run keeps. -/
theorem keeps {P : σ.Call → Prop} {I : S → Prop} (h : Solo W p s q t)
    (hstep : ∀ c s r t, P c → I s → W.answers c s r t → I t) (hp : p.All P) (hs : I s) : I t := by
  induction h with
  | here => exact hs
  | answer r answered _ ih => exact ih (hp.2 r) (hstep _ _ r _ hp.1 hs answered)

/-! ## Taking a stretch apart -/

/-- A finished run of `p; f` is a finished run of `p` and one of `f`. -/
theorem of_bind {f : α → Prog σ β} {b : β} (h : Solo W (p >>= f) s (.ret b) t) :
    ∃ a u, Solo W p s (.ret a) u ∧ Solo W (f a) u (.ret b) t := by
  induction p generalizing s with
  | ret a => exact ⟨a, s, .here _ _, h⟩
  | raise e => cases h
  | call c next ih =>
    cases h with
    | answer r answered rest =>
      obtain ⟨a, u, hp, hf⟩ := ih r rest
      exact ⟨a, u, .answer r answered hp, hf⟩

/-- A finished run of `try: p` is a run of `p` to its end. -/
theorem of_attempt {o : Except σ.Exc α} (h : Solo W p.attempt s (.ret o) t) :
    Solo W p s (Prog.ofExcept o) t := by
  induction p generalizing s with
  | ret a =>
    cases h
    exact .here _ _
  | raise e =>
    cases h
    exact .here _ _
  | call c next ih =>
    cases h with
    | answer r answered rest => exact .answer r answered (ih r rest)

/-- A program that has ended stays as it is. -/
theorem of_ofExcept {o o' : Except σ.Exc α} (h : Solo W (Prog.ofExcept o) s (Prog.ofExcept o') t) :
    o = o' ∧ s = t := by
  cases o <;> cases o' <;> cases h <;> exact ⟨rfl, rfl⟩

/-- One call to its end. -/
theorem of_perform {c : σ.Call} {o : σ.Answer c}
    (h : Solo W (Prog.perform c) s (Prog.ofExcept o) t) : W.answers c s o t := by
  unfold Prog.perform at h
  generalize hq : Prog.ofExcept o = q at h
  cases h with
  | here => cases o <;> cases hq
  | answer r answered rest =>
    subst hq
    obtain ⟨rfl, rfl⟩ := of_ofExcept rest
    exact answered

/-- One call, begun or not. -/
theorem perform_cases {c : σ.Call} {q : Prog σ (σ.Reply c)} (h : Solo W (Prog.perform c) s q t) :
    t = s ∨ ∃ o, W.answers c s o t := by
  cases h with
  | here => exact .inl rfl
  | answer r answered rest =>
    right
    cases r <;> cases rest <;> exact ⟨_, answered⟩

/-- One call and what is done with its result: not begun, or over with an exception, or going on. -/
theorem perform_bind_cases {c : σ.Call} {f : σ.Reply c → Prog σ β} {q : Prog σ β}
    (h : Solo W (Prog.perform c >>= f) s q t) :
    (t = s ∧ ∀ b, q ≠ .ret b) ∨ (∃ e, W.answers c s (.error e) t ∧ ∀ b, q ≠ .ret b) ∨
      ∃ v u, W.answers c s (.ok v) u ∧ Solo W (f v) u q t := by
  cases h with
  | here => exact .inl ⟨rfl, nofun⟩
  | answer r answered rest =>
    right
    cases r with
    | error e =>
      left
      cases rest with
      | here => exact ⟨e, answered, nofun⟩
    | ok v => exact .inr ⟨v, _, answered, rest⟩

end Solo

end SecurityAudit
