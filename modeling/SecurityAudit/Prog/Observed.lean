import SecurityAudit.Prog.Eval
import SecurityAudit.Prog.Interleaving

/-!
# One program among others

`Runs W p s trace o t` is a whole run of one program while the state drifts between its calls: it
starts in `s`, ends with `o` in `t`, and `trace` keeps every call with its answer and the states
it was made in and left behind. A statement about a run can so speak of the state at the moment
of a call, whatever has happened to it since.
-/

namespace SecurityAudit

variable {σ : Sig} {S α β : Type}

/-- A call that was answered, between two states. -/
structure Entry (σ : Sig) (S : Type) where
  before : S
  event : σ.Event
  after : S

/-- The call was answered with an exception. -/
def Entry.Raised (e : Entry σ S) : Prop := e.event.2.isOk = false

theorem Entry.not_raised {e : Entry σ S} {c : σ.Call} {v : σ.Reply c}
    (h : e.event = ⟨c, .ok v⟩) : ¬e.Raised := by
  unfold Entry.Raised
  rw [h]
  exact Bool.noConfusion

/-- How `p` ends where `step` answers its calls. -/
def Prog.serve (step : (c : σ.Call) → S → σ.Answer c × S) : Prog σ α → S → Except σ.Exc α × S
  | .ret a, s => (.ok a, s)
  | .raise e, s => (.error e, s)
  | .call c next, s => (next (step c s).1).serve step (step c s).2

/-- `p`, among others, from `s`. -/
inductive Runs (W : World σ S) :
    Prog σ α → S → List (Entry σ S) → Except σ.Exc α → S → Prop where
  | ret (a : α) (s : S) : Runs W (.ret a) s [] (.ok a) s
  | raise (e : σ.Exc) (s : S) : Runs W (.raise e) s [] (.error e) s
  | call {c : σ.Call} {next : σ.Answer c → Prog σ α} {s₀ s s' t : S} {r : σ.Answer c}
      {trace : List (Entry σ S)} {o : Except σ.Exc α}
      (drifted : Relation.ReflTransGen W.drift s₀ s) (answered : W.answers c s r s')
      (rest : Runs W (next r) s' trace o t) :
      Runs W (.call c next) s₀ (⟨s, ⟨c, r⟩, s'⟩ :: trace) o t

namespace Runs

variable {W : World σ S} {p : Prog σ α} {s t u : S} {trace trace' : List (Entry σ S)}

/-! ## Taking runs apart -/

/-- A run of `p; f` is one of `p`, and one of `f` if `p` returned. -/
theorem of_bind {f : α → Prog σ β} {o : Except σ.Exc β} (h : Runs W (p >>= f) s trace o t) :
    (∃ e, o = .error e ∧ Runs W p s trace (.error e) t) ∨
      ∃ a first rest u, trace = first ++ rest ∧ Runs W p s first (.ok a) u ∧
        Runs W (f a) u rest o t := by
  induction p generalizing s trace with
  | ret a => exact .inr ⟨a, [], trace, s, rfl, .ret a s, h⟩
  | raise e =>
    cases h
    exact .inl ⟨e, rfl, .raise e _⟩
  | call c next ih =>
    cases h with
    | call drifted answered rest =>
      obtain ⟨e, ho, hp⟩ | ⟨a, first, last, u, htrace, hp, hf⟩ := ih _ rest
      · exact .inl ⟨e, ho, .call drifted answered hp⟩
      · exact .inr ⟨a, _ :: first, last, u, by rw [htrace, List.cons_append],
          .call drifted answered hp, hf⟩

/-- A run of `p; f` that returned. -/
theorem of_bind_ok {f : α → Prog σ β} {b : β} (h : Runs W (p >>= f) s trace (.ok b) t) :
    ∃ a first rest u, trace = first ++ rest ∧ Runs W p s first (.ok a) u ∧
      Runs W (f a) u rest (.ok b) t := by
  obtain ⟨e, ho, -⟩ | h := h.of_bind
  · cases ho
  · exact h

/-- A run of `try: p` is one of `p`. -/
theorem of_attempt {r : Except σ.Exc (Except σ.Exc α)} (h : Runs W p.attempt s trace r t) :
    ∃ o, r = .ok o ∧ Runs W p s trace o t := by
  induction p generalizing s trace with
  | ret a =>
    cases h
    exact ⟨_, rfl, .ret a _⟩
  | raise e =>
    cases h
    exact ⟨_, rfl, .raise e _⟩
  | call c next ih =>
    cases h with
    | call drifted answered rest =>
      obtain ⟨o, hr, hp⟩ := ih _ rest
      exact ⟨o, hr, .call drifted answered hp⟩

/-- A run of `try: p` and what is done about its outcome. -/
theorem of_attempt_bind {f : Except σ.Exc α → Prog σ β} {o : Except σ.Exc β}
    (h : Runs W (p.attempt >>= f) s trace o t) :
    ∃ r first rest u, trace = first ++ rest ∧ Runs W p s first r u ∧ Runs W (f r) u rest o t := by
  obtain ⟨e, -, hp⟩ | ⟨r, first, rest, u, htrace, hp, hf⟩ := h.of_bind
  · obtain ⟨_, hnone, -⟩ := hp.of_attempt
    cases hnone
  · obtain ⟨r', hr, hp⟩ := hp.of_attempt
    cases hr
    exact ⟨_, first, rest, u, htrace, hp, hf⟩

/-- A run that starts with a call. -/
theorem of_call {c : σ.Call} {next : σ.Answer c → Prog σ α} {o : Except σ.Exc α}
    (h : Runs W (.call c next) s trace o t) :
    ∃ u r s' rest, Relation.ReflTransGen W.drift s u ∧ W.answers c u r s' ∧
      trace = ⟨u, ⟨c, r⟩, s'⟩ :: rest ∧ Runs W (next r) s' rest o t := by
  cases h with
  | call drifted answered rest => exact ⟨_, _, _, _, drifted, answered, rfl, rest⟩

theorem of_ret {a : α} {o : Except σ.Exc α} (h : Runs W (.ret a) s trace o t) :
    trace = [] ∧ o = .ok a ∧ t = s := by
  cases h
  exact ⟨rfl, rfl, rfl⟩

theorem of_ofExcept {x o : Except σ.Exc α} (h : Runs W (Prog.ofExcept x) s trace o t) :
    trace = [] ∧ o = x ∧ t = s := by
  cases x <;> cases h <;> exact ⟨rfl, rfl, rfl⟩

/-- A run of one call. -/
theorem of_perform {c : σ.Call} {o : σ.Answer c} (h : Runs W (Prog.perform c) s trace o t) :
    ∃ u, Relation.ReflTransGen W.drift s u ∧ W.answers c u o t ∧ trace = [⟨u, ⟨c, o⟩, t⟩] := by
  cases h with
  | call drifted answered rest =>
    obtain ⟨rfl, rfl, rfl⟩ := rest.of_ofExcept
    exact ⟨_, drifted, answered, rfl⟩

/-- A run of `try: p finally: fin`. -/
theorem of_ensuring {fin : Prog σ Unit} {o : Except σ.Exc α}
    (h : Runs W (Prog.ensuring p fin) s trace o t) :
    ∃ o' r first last u, trace = first ++ last ∧ Runs W p s first o' u ∧ Runs W fin u last r t ∧
      (r = .ok () → o = o') ∧ ∀ e, r = .error e → o = .error e := by
  obtain ⟨o', first, rest, u, rfl, hp, hrest⟩ := h.of_attempt_bind
  obtain ⟨e, ho, hfin⟩ | ⟨_, last, nothing, v, rfl, hfin, hend⟩ := hrest.of_bind
  · exact ⟨o', .error e, first, rest, u, rfl, hp, hfin, by simp, fun e' he => by cases he; exact ho⟩
  · obtain ⟨rfl, rfl, rfl⟩ := hend.of_ofExcept
    exact ⟨_, .ok (), first, last, u, by simp, hp, hfin, fun _ => rfl, by simp⟩

/-! ## Putting runs together -/

/-- The rule for `p; f` once `p` has returned. -/
theorem bind {f : α → Prog σ β} {a : α} {o : Except σ.Exc β} (hp : Runs W p s trace (.ok a) u)
    (hf : Runs W (f a) u trace' o t) : Runs W (p >>= f) s (trace ++ trace') o t := by
  induction p generalizing s trace with
  | ret b =>
    cases hp
    exact hf
  | raise e => cases hp
  | call c next ih =>
    cases hp with
    | call drifted answered rest => exact .call drifted answered (ih _ rest)

/-- The rule for `p; f` when `p` raises. -/
theorem bind_error {f : α → Prog σ β} {e : σ.Exc} (hp : Runs W p s trace (.error e) t) :
    Runs W (p >>= f) s trace (.error e) t := by
  induction p generalizing s trace with
  | ret b => cases hp
  | raise e' =>
    cases hp
    exact .raise e _
  | call c next ih =>
    cases hp with
    | call drifted answered rest => exact .call drifted answered (ih _ rest)

/-- The rule for `try: p`. -/
theorem attempt {o : Except σ.Exc α} (h : Runs W p s trace o t) :
    Runs W p.attempt s trace (.ok o) t := by
  induction h with
  | ret a s => exact .ret _ s
  | raise e s => exact .ret _ s
  | call drifted answered _ ih => exact .call drifted answered ih

theorem ofExcept (x : Except σ.Exc α) (s : S) : Runs W (Prog.ofExcept x) s [] x s := by
  cases x
  · exact .raise _ _
  · exact .ret _ _

/-- The rule for one call. -/
theorem perform {c : σ.Call} {r : σ.Answer c} (h : W.answers c s r t) :
    Runs W (Prog.perform c) s [⟨s, ⟨c, r⟩, t⟩] r t :=
  .call .refl h (.ofExcept r t)

/-- The rule for one call and what is done with its result. -/
theorem perform_bind {c : σ.Call} {v : σ.Reply c} {s' : S} {f : σ.Reply c → Prog σ α}
    {o : Except σ.Exc α} (drifted : Relation.ReflTransGen W.drift s u)
    (answered : W.answers c u (.ok v) s') (hf : Runs W (f v) s' trace o t) :
    Runs W (Prog.perform c >>= f) s (⟨u, ⟨c, .ok v⟩, s'⟩ :: trace) o t :=
  .call drifted answered hf

/-- The rule for one call that raises. -/
theorem perform_raise {c : σ.Call} {e : σ.Exc} {s' : S} {f : σ.Reply c → Prog σ α}
    (drifted : Relation.ReflTransGen W.drift s u) (answered : W.answers c u (.error e) s') :
    Runs W (Prog.perform c >>= f) s [⟨u, ⟨c, .error e⟩, s'⟩] (.error e) s' :=
  .call drifted answered (.raise e s')

/-- The rule for `try: p finally: fin`. -/
theorem ensuring {o : Except σ.Exc α} {fin : Prog σ Unit} (h : Runs W p s trace o u)
    (hfin : Runs W fin u trace' (.ok ()) t) :
    Runs W (Prog.ensuring p fin) s (trace ++ (trace' ++ [])) o t :=
  h.attempt.bind (hfin.bind (.ofExcept o t))

/-- Where every call can be answered without a change, the program runs to its end. -/
theorem of_eval {answer : (c : σ.Call) → σ.Answer c} (h : ∀ c, W.answers c s (answer c) s)
    (p : Prog σ α) : ∃ trace, Runs W p s trace (p.eval answer) s := by
  induction p with
  | ret a => exact ⟨[], .ret a s⟩
  | raise e => exact ⟨[], .raise e s⟩
  | call c next ih =>
    obtain ⟨trace, hrest⟩ := ih (answer c)
    exact ⟨_, .call .refl (h c) hrest⟩

/-- Where a function of the state answers the calls, the program runs as it says. -/
theorem of_serve {step : (c : σ.Call) → S → σ.Answer c × S}
    (h : ∀ c s, W.answers c s (step c s).1 (step c s).2) (p : Prog σ α) (s : S) :
    ∃ trace, Runs W p s trace (p.serve step s).1 (p.serve step s).2 := by
  induction p generalizing s with
  | ret a => exact ⟨[], .ret a s⟩
  | raise e => exact ⟨[], .raise e s⟩
  | call c next ih =>
    obtain ⟨trace, hrest⟩ := ih (step c s).1 (step c s).2
    exact ⟨_, .call .refl (h c s) hrest⟩

/-! ## Along a run -/

/-- Every call was answered by the world. -/
theorem answered {o : Except σ.Exc α} (h : Runs W p s trace o t) :
    ∀ e ∈ trace, W.answers e.event.1 e.before e.event.2 e.after := by
  induction h with
  | ret a s => simp
  | raise e s => simp
  | call drifted answered _ ih =>
    intro e he
    rcases List.mem_cons.mp he with rfl | he
    · exact answered
    · exact ih e he

/-- Every call of a run is one the program may make. -/
theorem all {P : σ.Call → Prop} {o : Except σ.Exc α} (h : Runs W p s trace o t) (hp : p.All P) :
    ∀ e ∈ trace, P e.event.1 := by
  induction h with
  | ret a s => simp
  | raise e s => simp
  | call drifted answered _ ih =>
    intro e he
    rcases List.mem_cons.mp he with rfl | he
    · exact hp.1
    · exact ih (hp.2 _) e he

/-- An exception that gets out ends the run. -/
theorem of_strict {P : σ.Call → Prop} {o : Except σ.Exc α} (h : Runs W p s trace o t)
    (hp : p.Strict P) {c : σ.Call} {e : σ.Exc} (hc : P c)
    (he : ∃ x ∈ trace, x.event = ⟨c, .error e⟩) : o = .error e := by
  induction h with
  | ret a s =>
    obtain ⟨x, hx, -⟩ := he
    cases hx
  | raise e' s =>
    obtain ⟨x, hx, -⟩ := he
    cases hx
  | call drifted answered rest ih =>
    obtain ⟨x, hx, hevent⟩ := he
    rcases List.mem_cons.mp hx with rfl | hx
    · -- the program raises it right away
      cases hevent
      rw [hp.1 hc e] at rest
      cases rest
      rfl
    · exact ih (hp.2 _) ⟨x, hx, hevent⟩

/-- What one drift cannot undo, many cannot. -/
theorem drifts_last {P : S → Prop} (hdrift : ∀ s s', W.drift s s' → P s → P s')
    (h : Relation.ReflTransGen W.drift s t) (hs : P s) : P t := by
  induction h with
  | refl => exact hs
  | tail _ hstep ih => exact hdrift _ _ hstep ih

/-- What drift cannot undo lasts until some call undoes it. -/
theorem lasts {o : Except σ.Exc α} {P : S → Prop} (hdrift : ∀ s s', W.drift s s' → P s → P s')
    (h : Runs W p s trace o t) (hs : P s) : P t ∨ ∃ e ∈ trace, P e.before ∧ ¬P e.after := by
  induction h with
  | ret a s => exact .inl hs
  | raise e s => exact .inl hs
  | @call c next s₀ s s' t r trace o drifted answered _ ih =>
    have hbefore : P s := drifts_last hdrift drifted hs
    by_cases hafter : P s'
    · obtain ht | ⟨e, he, hlost⟩ := ih hafter
      · exact .inl ht
      · exact .inr ⟨e, List.mem_cons_of_mem _ he, hlost⟩
    · exact .inr ⟨_, List.mem_cons_self, hbefore, hafter⟩

/-- What drift and the calls of a program cannot undo, a run of it cannot undo. -/
theorem keeps {P : σ.Call → Prop} {I : S → Prop} {o : Except σ.Exc α}
    (h : Runs W p s trace o t) (hp : p.All P) (hdrift : ∀ s s', W.drift s s' → I s → I s')
    (hcall : ∀ c s r s', P c → W.answers c s r s' → I s → I s') (hs : I s) : I t := by
  induction h with
  | ret a s => exact hs
  | raise e s => exact hs
  | @call c next s₀ s s' t r trace o drifted answered _ ih =>
    have hbefore : I s := drifts_last hdrift drifted hs
    exact ih (hp.2 r) (hcall c s r s' hp.1 answered hbefore)

/-- It holds whenever a call is made. -/
theorem keeps_until {P : σ.Call → Prop} {I : S → Prop} {o : Except σ.Exc α}
    (h : Runs W p s trace o t) (hp : p.All P) (hdrift : ∀ s s', W.drift s s' → I s → I s')
    (hcall : ∀ c s r s', P c → W.answers c s r s' → I s → I s') (hs : I s) :
    ∀ e ∈ trace, I e.before := by
  induction h with
  | ret a s => simp
  | raise e s => simp
  | @call c next s₀ s s' t r trace o drifted answered _ ih =>
    have hbefore : I s := drifts_last hdrift drifted hs
    intro e he
    rcases List.mem_cons.mp he with rfl | he
    · exact hbefore
    · exact ih (hp.2 r) (hcall c s r s' hp.1 answered hbefore) e he

/-- The rest of the run cannot undo it either, once a call has brought it about. -/
theorem keeps_from {P : σ.Call → Prop} {I : S → Prop} {o : Except σ.Exc α} {e : Entry σ S}
    (h : Runs W p s trace o t) (he : e ∈ trace) (hp : p.All P)
    (hdrift : ∀ s s', W.drift s s' → I s → I s')
    (hcall : ∀ c s r s', P c → W.answers c s r s' → I s → I s') (hafter : I e.after) : I t := by
  induction h with
  | ret a s => cases he
  | raise e s => cases he
  | @call c next s₀ s s' t r trace o drifted answered rest ih =>
    rcases List.mem_cons.mp he with rfl | he
    · exact rest.keeps (hp.2 r) hdrift hcall hafter
    · exact ih he (hp.2 r)

/-- What drift and answers climb, a run climbs: from its start to the state of every call, and from
one call to the next. -/
theorem climbs {R : S → S → Prop} {o : Except σ.Exc α} (hrefl : ∀ s, R s s)
    (htrans : ∀ {s t u}, R s t → R t u → R s u) (hdrift : ∀ {s s'}, W.drift s s' → R s s')
    (hanswer : ∀ {c s r s'}, W.answers c s r s' → R s s') (h : Runs W p s trace o t) :
    (∀ e ∈ trace, R s e.before) ∧ trace.Pairwise fun a b => R a.before b.before := by
  induction h with
  | ret a s => simp
  | raise e s => simp
  | @call c next s₀ s s' t r trace o drifted answered _ ih =>
    obtain ⟨hfrom, hpairwise⟩ := ih
    have hbefore : R s₀ s := by
      clear answered hfrom hpairwise
      induction drifted with
      | refl => exact hrefl _
      | tail _ hstep hreached => exact htrans hreached (hdrift hstep)
    have hlater : ∀ e ∈ trace, R s e.before := fun e he => htrans (hanswer answered) (hfrom e he)
    refine ⟨fun e he => ?_, List.pairwise_cons.mpr ⟨hlater, hpairwise⟩⟩
    rcases List.mem_cons.mp he with rfl | he
    · exact hbefore
    · exact htrans hbefore (hlater e he)

end Runs

/-! ## Programs that raise nothing of their own -/

/-- `p` raises only what a call raised. -/
def Transparent (W : World σ S) (p : Prog σ α) : Prop :=
  ∀ ⦃s trace e t⦄, Runs W p s trace (.error e) t → ∃ x ∈ trace, x.Raised

namespace Transparent

variable {W : World σ S}

theorem ret (a : α) : Transparent W (.ret a : Prog σ α) := by
  intro s trace e t h
  cases h

theorem perform (c : σ.Call) : Transparent W (Prog.perform c) := by
  intro s trace e t h
  obtain ⟨u, -, -, rfl⟩ := h.of_perform
  exact ⟨_, List.mem_cons_self, rfl⟩

theorem bind {p : Prog σ α} {f : α → Prog σ β} (hp : Transparent W p)
    (hf : ∀ a, Transparent W (f a)) : Transparent W (p >>= f) := by
  intro s trace e t h
  obtain ⟨e', -, h⟩ | ⟨a, first, rest, u, rfl, -, h⟩ := h.of_bind
  · exact hp h
  · obtain ⟨x, hx, hraised⟩ := hf a h
    exact ⟨x, List.mem_append_right _ hx, hraised⟩

end Transparent

end SecurityAudit
