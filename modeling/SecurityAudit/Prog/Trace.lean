import SecurityAudit.Prog.Calls

/-!
# What a program calls

`Transcript p log o`: making the calls of `log`, with these answers, `p` ends with `o`. The
answers are arbitrary, so a statement about all transcripts is a statement about every content
of the outside world and every pattern of failures. `play` runs a program against a given way
of answering, which may depend on everything called before; it always ends, and what it does is
a transcript.

The second half is about programs that survive failures. In a program that `Settles`, an
exception from a call in `fatal` goes out of the run, by way of whatever has to be closed, one
from a call in `steady` is not expected, and any other is dealt with. Such a program returns
exactly if no fatal call raised.
-/

namespace SecurityAudit

variable {σ : Sig} {α β : Type}

/-- A call and its answer. -/
abbrev Sig.Event (σ : Sig) : Type := (c : σ.Call) × σ.Answer c

/-- What answers a call, given the calls before it and their answers. -/
abbrev Sig.Answering (σ : Sig) : Type := List σ.Event → (c : σ.Call) → σ.Answer c

/-- No call among those in `P` was answered with an exception. -/
def Unraised (P : σ.Call → Prop) (log : List σ.Event) : Prop :=
  ∀ e ∈ log, P e.1 → e.2.isOk = true

theorem Unraised.append {P : σ.Call → Prop} {log log' : List σ.Event} :
    Unraised P (log ++ log') ↔ Unraised P log ∧ Unraised P log' := by
  simp only [Unraised, List.mem_append, or_imp, forall_and]

namespace Prog

/-- `Transcript p log o`: with the answers in `log`, `p` makes the calls in `log` and ends with
`o`. -/
inductive Transcript : Prog σ α → List σ.Event → Except σ.Exc α → Prop where
  | ret (a : α) : Transcript (.ret a) [] (.ok a)
  | raise (e : σ.Exc) : Transcript (.raise e) [] (.error e)
  | call {c : σ.Call} {next : σ.Answer c → Prog σ α} (r : σ.Answer c) {log : List σ.Event}
      {o : Except σ.Exc α} (rest : Transcript (next r) log o) :
      Transcript (.call c next) (⟨c, r⟩ :: log) o

/-- Run `p` after the calls of `before`: the calls it makes, and how it ends. -/
def play (answer : σ.Answering) : List σ.Event → Prog σ α → List σ.Event × Except σ.Exc α
  | _, .ret a => ([], .ok a)
  | _, .raise e => ([], .error e)
  | before, .call c next =>
    let rest := (next (answer before c)).play answer (before ++ [⟨c, answer before c⟩])
    (⟨c, answer before c⟩ :: rest.1, rest.2)

theorem transcript_play (answer : σ.Answering) (before : List σ.Event) (p : Prog σ α) :
    Transcript p (p.play answer before).1 (p.play answer before).2 := by
  induction p generalizing before with
  | ret a => exact .ret a
  | raise e => exact .raise e
  | call c next ih => exact .call _ (ih _ _)

/-- Calls that are never answered with an exception. -/
theorem unraised_play {P : σ.Call → Prop} {answer : σ.Answering}
    (h : ∀ before c, P c → (answer before c).isOk = true) (before : List σ.Event)
    (p : Prog σ α) : Unraised P (p.play answer before).1 := by
  induction p generalizing before with
  | ret a => simp [play, Unraised]
  | raise e => simp [play, Unraised]
  | call c next ih =>
    intro e he hc
    rcases List.mem_cons.mp he with rfl | he
    · exact h before c hc
    · exact ih _ _ e he hc

/-- A run of `p; f` goes on from where `p` returned. -/
theorem play_bind {answer : σ.Answering} {before : List σ.Event} {p : Prog σ α}
    {f : α → Prog σ β} {a : α} (h : (p.play answer before).2 = .ok a) :
    (p >>= f).play answer before =
      ((p.play answer before).1 ++
          ((f a).play answer (before ++ (p.play answer before).1)).1,
        ((f a).play answer (before ++ (p.play answer before).1)).2) := by
  induction p generalizing before with
  | ret b =>
    cases h
    show (f a).play answer before = _
    simp [play]
  | raise e => cases h
  | call c next ih =>
    show (Prog.call c fun r => next r >>= f).play answer before = _
    simp only [play, ih _ h, List.append_assoc, List.cons_append, List.nil_append]

namespace Transcript

variable {p : Prog σ α} {log : List σ.Event}

/-- The rule for `p; f` once `p` has returned. -/
theorem bind {a : α} {f : α → Prog σ β} {log' : List σ.Event} {o : Except σ.Exc β}
    (hp : Transcript p log (.ok a)) (hf : Transcript (f a) log' o) :
    Transcript (p >>= f) (log ++ log') o := by
  induction p generalizing log with
  | ret b =>
    cases hp
    exact hf
  | raise e => cases hp
  | call c next ih =>
    cases hp with
    | call r rest => exact .call r (ih r rest)

/-- A run of `p; f` is one of `p`, and one of `f` if `p` returned. -/
theorem of_bind {f : α → Prog σ β} {o : Except σ.Exc β} (h : Transcript (p >>= f) log o) :
    (∃ e, o = .error e ∧ Transcript p log (.error e)) ∨
      ∃ a first rest, log = first ++ rest ∧ Transcript p first (.ok a) ∧
        Transcript (f a) rest o := by
  induction p generalizing log with
  | ret a => exact .inr ⟨a, [], log, rfl, .ret a, h⟩
  | raise e =>
    cases h
    exact .inl ⟨e, rfl, .raise e⟩
  | call c next ih =>
    cases h with
    | call r rest =>
      obtain ⟨e, ho, hp⟩ | ⟨a, first, last, hlog, hp, hf⟩ := ih r rest
      · exact .inl ⟨e, ho, .call r hp⟩
      · exact .inr ⟨a, ⟨c, r⟩ :: first, last, by rw [hlog, List.cons_append], .call r hp, hf⟩

/-- A run of `p; f` that returns. -/
theorem of_bind_ok {f : α → Prog σ β} {b : β} (h : Transcript (p >>= f) log (.ok b)) :
    ∃ a first rest, log = first ++ rest ∧ Transcript p first (.ok a) ∧
      Transcript (f a) rest (.ok b) := by
  obtain ⟨e, ho, -⟩ | hrest := h.of_bind
  · cases ho
  · exact hrest

/-- A run of `try: p` is one of `p`. -/
theorem of_attempt {r : Except σ.Exc (Except σ.Exc α)} (h : Transcript p.attempt log r) :
    ∃ o, r = .ok o ∧ Transcript p log o := by
  induction p generalizing log with
  | ret a =>
    cases h
    exact ⟨_, rfl, .ret a⟩
  | raise e =>
    cases h
    exact ⟨_, rfl, .raise e⟩
  | call c next ih =>
    cases h with
    | call a rest =>
      obtain ⟨o, hr, hp⟩ := ih a rest
      exact ⟨o, hr, .call a hp⟩

/-- A run of `try: p` and what is done about its outcome. -/
theorem of_attempt_bind {f : Except σ.Exc α → Prog σ β} {o : Except σ.Exc β}
    (h : Transcript (p.attempt >>= f) log o) :
    ∃ r first rest, log = first ++ rest ∧ Transcript p first r ∧ Transcript (f r) rest o := by
  obtain ⟨e, -, hp⟩ | ⟨r, first, rest, hlog, hp, hf⟩ := h.of_bind
  · obtain ⟨_, hnone, -⟩ := hp.of_attempt
    cases hnone
  · obtain ⟨r', hr, hp⟩ := hp.of_attempt
    cases hr
    exact ⟨_, first, rest, hlog, hp, hf⟩

/-- The rule for `try: p`. -/
theorem attempt {o : Except σ.Exc α} (h : Transcript p log o) :
    Transcript p.attempt log (.ok o) := by
  induction h with
  | ret a => exact .ret _
  | raise e => exact .ret _
  | call r _ ih => exact .call r ih

/-- The rule for `p; f` when `p` raises. -/
theorem bind_error {e : σ.Exc} {f : α → Prog σ β} (hp : Transcript p log (.error e)) :
    Transcript (p >>= f) log (.error e) := by
  induction p generalizing log with
  | ret a => cases hp
  | raise e' =>
    cases hp
    exact .raise e
  | call c next ih =>
    cases hp with
    | call r rest => exact .call r (ih r rest)

theorem of_ofExcept {x o : Except σ.Exc α} (h : Transcript (Prog.ofExcept x) log o) :
    log = [] ∧ o = x := by
  cases x <;> cases h <;> exact ⟨rfl, rfl⟩

theorem ofExcept (x : Except σ.Exc α) : Transcript (Prog.ofExcept x) [] x := by
  cases x
  · exact .raise _
  · exact .ret _

/-- The rule for one call. -/
theorem perform {c : σ.Call} (r : σ.Answer c) : Transcript (Prog.perform c) [⟨c, r⟩] r :=
  .call r (.ofExcept r)

/-- One call. -/
theorem of_perform {c : σ.Call} {o : σ.Answer c} (h : Transcript (Prog.perform c) log o) :
    log = [⟨c, o⟩] := by
  cases h with
  | call r rest =>
    obtain ⟨rfl, rfl⟩ := of_ofExcept rest
    rfl

/-- The rule for `try: p finally: fin`. -/
theorem ensuring {a : α} {fin : Prog σ Unit} {log' : List σ.Event}
    (h : Transcript p log (.ok a)) (hfin : Transcript fin log' (.ok ())) :
    Transcript (Prog.ensuring p fin) (log ++ (log' ++ [])) (.ok a) :=
  h.attempt.bind (hfin.bind (.ofExcept _))

/-- A transcript whose answers are the given ones is what `play` gives. -/
theorem eq_play {o : Except σ.Exc α} (h : Transcript p log o) (answer : σ.Answering)
    (hanswer : ∀ e ∈ log, ∀ before, answer before e.1 = e.2) (before : List σ.Event) :
    p.play answer before = (log, o) := by
  induction h generalizing before with
  | ret a => rfl
  | raise e => rfl
  | @call c next r log o _ ih =>
    have hr : answer before c = r := hanswer _ List.mem_cons_self before
    simp only [play, hr, ih (fun e he => hanswer e (List.mem_cons_of_mem _ he))]

/-- What holds of every call of a program holds of the calls it makes. -/
theorem all {P : σ.Call → Prop} {o : Except σ.Exc α} (h : Transcript p log o) (hp : p.All P) :
    ∀ e ∈ log, P e.1 := by
  induction h with
  | ret a => simp
  | raise e => simp
  | call r _ ih =>
    intro e he
    rcases List.mem_cons.mp he with rfl | he
    · exact hp.1
    · exact ih (hp.2 r) e he

end Transcript

/-- Each element has its turn: the calls are those of a run of `body` for each, in order. -/
def Attempted (body : α → Prog σ β) (xs : List α) (log : List σ.Event) : Prop :=
  ∃ turns, log = turns.flatten ∧
    List.Forall₂ (fun x turn => ∃ b, Transcript (body x) turn (.ok b)) xs turns

theorem Attempted.cons {body : α → Prog σ β} {x : α} {xs : List α} {turn log : List σ.Event}
    {b : β} (hx : Transcript (body x) turn (.ok b)) (h : Attempted body xs log) :
    Attempted body (x :: xs) (turn ++ log) := by
  obtain ⟨turns, rfl, hturns⟩ := h
  exact ⟨turn :: turns, rfl, .cons ⟨b, hx⟩ hturns⟩

theorem Attempted.append {body : α → Prog σ β} {xs ys : List α} {log log' : List σ.Event}
    (h : Attempted body xs log) (h' : Attempted body ys log') :
    Attempted body (xs ++ ys) (log ++ log') := by
  obtain ⟨turns, rfl, hturns⟩ := h
  obtain ⟨turns', rfl, hturns'⟩ := h'
  exact ⟨turns ++ turns', List.flatten_append.symm, List.rel_append hturns hturns'⟩

/-- A loop that ended, whose body is a run of `body` and nothing else. -/
theorem Transcript.of_forEach {body : α → Prog σ β} {step : α → Prog σ Unit}
    (hstep : ∀ x, step x = do { let _ ← body x; return () }) {xs : List α}
    {log : List σ.Event} (h : Transcript (forEach step xs) log (.ok ())) :
    Attempted body xs log := by
  induction xs generalizing log with
  | nil =>
    cases h
    exact ⟨[], rfl, .nil⟩
  | cons x xs ih =>
    obtain ⟨_, turn, rest, rfl, hx, hrest⟩ := Transcript.of_bind_ok h
    rw [hstep x] at hx
    obtain ⟨b, first, last, rfl, hbody, hlast⟩ := Transcript.of_bind_ok hx
    cases hlast
    rw [List.append_nil]
    exact (ih hrest).cons hbody

/-! ## Programs that settle -/

variable {fatal steady : σ.Call → Prop}

/-- However its calls are answered, the program raises in the end. -/
def Doomed : Prog σ α → Prop
  | .ret _ => False
  | .raise _ => True
  | .call _ next => ∀ r, Doomed (next r)

namespace Doomed

variable {p : Prog σ α}

theorem bind {f : α → Prog σ β} (h : Doomed p) : Doomed (p >>= f) := by
  induction p with
  | ret a => exact h.elim
  | raise e => trivial
  | call c next ih => exact fun r => ih r (h r)

/-- What comes after `p` may be what raises. -/
theorem after {f : α → Prog σ β} (h : ∀ a, Doomed (f a)) : Doomed (p >>= f) := by
  induction p with
  | ret a => exact h a
  | raise e => trivial
  | call c next ih => exact fun r => ih r

/-- The `finally` clause runs, and the exception goes on. -/
theorem ensuring {fin : Prog σ Unit} (h : Doomed p) : Doomed (Prog.ensuring p fin) := by
  unfold Prog.ensuring
  induction p with
  | ret a => exact h.elim
  | raise e =>
    show Doomed (fin >>= fun _ => (Prog.raise e : Prog σ α))
    exact after fun _ => trivial
  | call c next ih => exact fun r => ih r (h r)

theorem not_returned {log : List σ.Event} {a : α} (h : Doomed p) : ¬Transcript p log (.ok a) := by
  intro hlog
  induction p generalizing log with
  | ret b => exact h
  | raise e => cases hlog
  | call c next ih =>
    cases hlog with
    | call r rest => exact ih r (h r) rest

end Doomed

/-- After an exception from a fatal call the program cannot return, one from a steady call is not
expected, and after anything else the program goes on and returns. -/
def Settles (fatal steady : σ.Call → Prop) : Prog σ α → Prop
  | .ret _ => True
  | .raise _ => False
  | .call c next =>
    (∀ v, Settles fatal steady (next (.ok v))) ∧
    ∀ e, (fatal c → Doomed (next (.error e))) ∧
      (¬fatal c → ¬steady c → Settles fatal steady (next (.error e)))

namespace Settles

theorem bind {p : Prog σ α} {f : α → Prog σ β} (hp : Settles fatal steady p)
    (hf : ∀ a, Settles fatal steady (f a)) : Settles fatal steady (p >>= f) := by
  induction p with
  | ret a => exact hf a
  | raise e => exact hp.elim
  | call c next ih =>
    exact ⟨fun v => ih _ (hp.1 v), fun e => ⟨fun hc => ((hp.2 e).1 hc).bind,
      fun hc hs => ih _ ((hp.2 e).2 hc hs)⟩⟩

/-- What makes no fatal call can be tried. -/
theorem attempt {p : Prog σ α} (hp : p.All fun c => ¬fatal c) : Settles fatal steady p.attempt := by
  induction p with
  | ret a => trivial
  | raise e => trivial
  | call c next ih =>
    exact ⟨fun v => ih _ (hp.2 _), fun e => ⟨fun hc => (hp.1 hc).elim, fun _ _ => ih _ (hp.2 _)⟩⟩

/-- A fatal or steady call. -/
theorem perform {c : σ.Call} (hc : fatal c ∨ steady c) : Settles fatal steady (Prog.perform c) :=
  ⟨fun _ => trivial, fun _ => ⟨fun _ => trivial, fun hf hs => (hc.elim hf hs).elim⟩⟩

/-- `try: p finally: fin`. -/
theorem ensuring {p : Prog σ α} {fin : Prog σ Unit} (hp : Settles fatal steady p)
    (hfin : Settles fatal steady fin) : Settles fatal steady (Prog.ensuring p fin) := by
  unfold Prog.ensuring
  induction p with
  | ret a => exact hfin.bind fun _ => trivial
  | raise e => exact hp.elim
  | call c next ih =>
    exact ⟨fun v => ih _ (hp.1 v), fun e => ⟨fun hc => Doomed.ensuring ((hp.2 e).1 hc),
      fun hc hs => ih _ ((hp.2 e).2 hc hs)⟩⟩

theorem forEach {body : α → Prog σ Unit} {xs : List α}
    (h : ∀ x ∈ xs, Settles fatal steady (body x)) : Settles fatal steady (Prog.forEach body xs) := by
  induction xs with
  | nil => trivial
  | cons x xs ih =>
    exact (h x (by simp)).bind fun _ => ih fun y hy => h y (by simp [hy])

/-- **A program that settles returns exactly if no fatal call raised.** -/
theorem returns_iff {p : Prog σ α} {log : List σ.Event} {o : Except σ.Exc α}
    (h : Transcript p log o) (hp : Settles fatal steady p) (hsteady : Unraised steady log) :
    (∃ a, o = .ok a) ↔ Unraised fatal log := by
  induction h with
  | ret a => simp [Unraised]
  | raise e => exact hp.elim
  | @call c next r log o rest ih =>
    have hlater : Unraised steady log := fun e he => hsteady e (List.mem_cons_of_mem _ he)
    have hcons : Unraised fatal (⟨c, r⟩ :: log) ↔
        (fatal c → r.isOk = true) ∧ Unraised fatal log := by
      simp only [Unraised, List.forall_mem_cons]
    rw [hcons]
    cases r with
    | ok v =>
      rw [ih (hp.1 v) hlater]
      simp [Except.isOk, Except.toBool]
    | error e =>
      by_cases hc : fatal c
      · -- there is no way back to a result
        have hlost : ¬∃ a, o = .ok a := by
          rintro ⟨a, rfl⟩
          exact ((hp.2 e).1 hc).not_returned rest
        simp [hc, hlost, Except.isOk, Except.toBool]
      · have hs : ¬steady c := by
          intro hs
          have := hsteady _ (List.mem_cons_self) hs
          simp [Except.isOk, Except.toBool] at this
        rw [ih ((hp.2 e).2 hc hs) hlater]
        simp [hc]

/-- The same for a way of answering that never fails a steady call. -/
theorem play_returns_iff {p : Prog σ α} (hp : Settles fatal steady p) {answer : σ.Answering}
    (hsteady : ∀ before c, steady c → (answer before c).isOk = true) (before : List σ.Event) :
    (∃ a, (p.play answer before).2 = .ok a) ↔ Unraised fatal (p.play answer before).1 :=
  returns_iff (transcript_play answer before p) hp (unraised_play hsteady before p)

end Settles

end Prog

end SecurityAudit
