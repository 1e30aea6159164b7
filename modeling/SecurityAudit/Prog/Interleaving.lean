import SecurityAudit.Prog.Basic

/-!
# Many programs, one shared state

`World` says how each call may be answered in a shared state and what that answer leaves
behind, including the answers in which the call failed. A `Config` is the shared state
and a process table; `Step` is one atomic move: some process has its next call answered,
a process is killed between two calls, a process is started, or the state drifts on its
own (producers, the clock, an operator). `Reach` is any finite sequence of moves, so a
theorem about `Reach` is a theorem about every interleaving, with crashes anywhere.

The proof rule is rely/guarantee in one step. A `Contract` names an invariant of the
shared state, a `rely` order that every move climbs, a precondition for making each call
and a postcondition of its answer. `Safe K p Q s` says that `p`, started in `s`, makes every
call within its precondition no matter what the other processes did in between, and ends
in `Q`. `Contract.Sound.reach` is the adequacy theorem: if every program that may be
started is safe, the invariant holds in every reachable configuration.
-/

namespace SecurityAudit

/-- How calls are answered in a shared state of type `S`. -/
structure World (σ : Sig) (S : Type) where
  /-- `answers c s r s'`: the call `c` made in `s` may be answered `r`, leaving `s'`. -/
  answers : (c : σ.Call) → S → σ.Answer c → S → Prop
  /-- `drift s s'`: the state may move from `s` to `s'` without any call. -/
  drift : S → S → Prop

namespace World

variable {σ : Sig} {S : Type}

/-- The runs of `W` in which every answered call meets `allowed`. -/
def restrict (W : World σ S) (allowed : (c : σ.Call) → S → σ.Answer c → Prop) : World σ S where
  answers c s r s' := W.answers c s r s' ∧ allowed c s r
  drift := W.drift

end World

/-- The shared state and the process table. An empty slot is a process not started yet, or
killed. -/
structure Config (σ : Sig) (S α : Type) where
  state : S
  procs : ℕ → Option (Prog σ α)

namespace Config

variable {σ : Sig} {S α : Type}

/-- Replace the program in slot `w`. -/
def setProc (cfg : Config σ S α) (w : ℕ) (p : Option (Prog σ α)) : Config σ S α :=
  { cfg with procs := Function.update cfg.procs w p }

/-- Replace the shared state. -/
def setState (cfg : Config σ S α) (s : S) : Config σ S α := { cfg with state := s }

/-- No process has been started. -/
def idle (s : S) : Config σ S α := ⟨s, fun _ => none⟩

@[simp] theorem idle_state (s : S) : (idle s : Config σ S α).state = s := rfl

@[simp] theorem idle_procs (s : S) (w : ℕ) : (idle s : Config σ S α).procs w = none := rfl

@[simp] theorem setProc_state (cfg : Config σ S α) (w : ℕ) (p : Option (Prog σ α)) :
    (cfg.setProc w p).state = cfg.state := rfl

@[simp] theorem setState_state (cfg : Config σ S α) (s : S) : (cfg.setState s).state = s := rfl

@[simp] theorem setState_procs (cfg : Config σ S α) (s : S) :
    (cfg.setState s).procs = cfg.procs := rfl

@[simp] theorem setProc_self (cfg : Config σ S α) (w : ℕ) (p : Option (Prog σ α)) :
    (cfg.setProc w p).procs w = p := by
  simp [setProc]

theorem setProc_of_ne (cfg : Config σ S α) {w v : ℕ} (p : Option (Prog σ α)) (h : v ≠ w) :
    (cfg.setProc w p).procs v = cfg.procs v := by
  simp [setProc, h]

end Config

/-- One atomic move of the system whose processes are started from `start`. -/
inductive Step {σ : Sig} {S α : Type} (W : World σ S) (start : Prog σ α → Prop) :
    Config σ S α → Config σ S α → Prop where
  | answer {cfg : Config σ S α} {w : ℕ} {c : σ.Call} {next : σ.Answer c → Prog σ α}
      {r : σ.Answer c} {s' : S} (running : cfg.procs w = some (.call c next))
      (answered : W.answers c cfg.state r s') :
      Step W start cfg ((cfg.setState s').setProc w (some (next r)))
  | crash {cfg : Config σ S α} (w : ℕ) : Step W start cfg (cfg.setProc w none)
  | spawn {cfg : Config σ S α} {w : ℕ} {p : Prog σ α} (free : cfg.procs w = none)
      (started : start p) : Step W start cfg (cfg.setProc w (some p))
  | drift {cfg : Config σ S α} {s' : S} (drifted : W.drift cfg.state s') :
      Step W start cfg (cfg.setState s')

/-- The configurations some run of the system leads to from `cfg₀`. -/
abbrev Reach {σ : Sig} {S α : Type} (W : World σ S) (start : Prog σ α → Prop)
    (cfg₀ cfg : Config σ S α) : Prop :=
  Relation.ReflTransGen (Step W start) cfg₀ cfg

theorem Step.mono {σ : Sig} {S α : Type} {W V : World σ S} {start : Prog σ α → Prop}
    (ha : ∀ {c s r s'}, W.answers c s r s' → V.answers c s r s')
    (hd : ∀ {s s'}, W.drift s s' → V.drift s s') {cfg cfg' : Config σ S α}
    (h : Step W start cfg cfg') : Step V start cfg cfg' := by
  cases h with
  | answer running answered => exact .answer running (ha answered)
  | crash w => exact .crash w
  | spawn free started => exact .spawn free started
  | drift drifted => exact .drift (hd drifted)

/-- A run of one system is a run of a system that allows as much. -/
theorem Reach.mono {σ : Sig} {S α : Type} {W V : World σ S} {start : Prog σ α → Prop}
    (ha : ∀ {c s r s'}, W.answers c s r s' → V.answers c s r s')
    (hd : ∀ {s s'}, W.drift s s' → V.drift s s') {cfg₀ cfg : Config σ S α}
    (h : Reach W start cfg₀ cfg) : Reach V start cfg₀ cfg :=
  have hstep : ∀ c c', Step W start c c' → Step V start c c' := fun _ _ hs => Step.mono ha hd hs
  Relation.ReflTransGen.mono hstep _ _ h

/-- A restricted run is a run. -/
theorem Reach.of_restrict {σ : Sig} {S α : Type} {W : World σ S} {start : Prog σ α → Prop}
    {allowed : (c : σ.Call) → S → σ.Answer c → Prop} {cfg₀ cfg : Config σ S α}
    (h : Reach (W.restrict allowed) start cfg₀ cfg) : Reach W start cfg₀ cfg :=
  have hstep : ∀ c c', Step (W.restrict allowed) start c c' → Step W start c c' :=
    fun _ _ hs => Step.mono (W := W.restrict allowed) And.left id hs
  Relation.ReflTransGen.mono hstep _ _ h

/-- A run is a restricted run when nothing is excluded. -/
theorem Reach.restrict_true {σ : Sig} {S α : Type} {W : World σ S} {start : Prog σ α → Prop}
    {cfg₀ cfg : Config σ S α} (h : Reach W start cfg₀ cfg) :
    Reach (W.restrict fun _ _ _ => True) start cfg₀ cfg :=
  have hstep : ∀ c c', Step W start c c' → Step (W.restrict fun _ _ _ => True) start c c' :=
    fun _ _ hs => Step.mono (V := W.restrict fun _ _ _ => True) (fun ha => ⟨ha, trivial⟩) id hs
  Relation.ReflTransGen.mono hstep _ _ h

/-! ## Contracts -/

/-- What the processes promise each other about the shared state. -/
structure Contract (σ : Sig) (S : Type) where
  inv : S → Prop
  rely : S → S → Prop
  pre : σ.Call → S → Prop
  post : (c : σ.Call) → σ.Answer c → S → Prop
  rely_refl : ∀ s, rely s s
  rely_trans : ∀ {s t u}, rely s t → rely t u → rely s u

namespace Contract

variable {σ : Sig} {S : Type}

/-- The world keeps the contract: a call made within its precondition, and every drift,
preserves the invariant and climbs `rely`. -/
structure Sound (K : Contract σ S) (W : World σ S) : Prop where
  call : ∀ {c s r s'}, K.inv s → K.pre c s → W.answers c s r s' →
    K.inv s' ∧ K.rely s s' ∧ K.post c r s'
  drift : ∀ {s s'}, K.inv s → W.drift s s' → K.inv s' ∧ K.rely s s'

/-- The same contract with a further invariant of the state. -/
def strengthen (K : Contract σ S) (P : S → Prop) : Contract σ S :=
  { K with inv := fun s => K.inv s ∧ P s }

/-- A further invariant costs one step lemma for calls and one for drift. -/
theorem Sound.strengthen {K : Contract σ S} {W : World σ S} (h : K.Sound W) {P : S → Prop}
    (hcall : ∀ {c s r s'}, K.inv s → P s → K.pre c s → W.answers c s r s' → P s')
    (hdrift : ∀ {s s'}, K.inv s → P s → W.drift s s' → P s') : (K.strengthen P).Sound W where
  call hi hp ha :=
    have ⟨h₁, h₂, h₃⟩ := h.call hi.1 hp ha
    ⟨⟨h₁, hcall hi.1 hi.2 hp ha⟩, h₂, h₃⟩
  drift hi hd :=
    have ⟨h₁, h₂⟩ := h.drift hi.1 hd
    ⟨⟨h₁, hdrift hi.1 hi.2 hd⟩, h₂⟩

end Contract

/-! ## Safe programs -/

/-- `p`, started in `s`, makes each call within its precondition whatever the others did
meanwhile, and its outcome and the state it ends in satisfy `Q`. -/
def Safe {σ : Sig} {S α : Type} (K : Contract σ S) :
    Prog σ α → (Except σ.Exc α → S → Prop) → S → Prop
  | .ret a, Q, s => Q (.ok a) s
  | .raise e, Q, s => Q (.error e) s
  | .call c next, Q, s => ∀ s₁, K.rely s s₁ → K.inv s₁ →
      K.pre c s₁ ∧ ∀ r s₂, K.rely s₁ s₂ → K.inv s₂ → K.post c r s₂ → Safe K (next r) Q s₂

namespace Safe

variable {σ : Sig} {S α β : Type} {K : Contract σ S} {s : S}

@[simp] theorem ret_iff (a : α) (Q : Except σ.Exc α → S → Prop) :
    Safe K (.ret a) Q s ↔ Q (.ok a) s := Iff.rfl

@[simp] theorem raise_iff (e : σ.Exc) (Q : Except σ.Exc α → S → Prop) :
    Safe K (.raise e) Q s ↔ Q (.error e) s := Iff.rfl

/-- The rule of consequence. -/
theorem mono {p : Prog σ α} {Q Q' : Except σ.Exc α → S → Prop} (h : Safe K p Q s)
    (hQ : ∀ r s', Q r s' → Q' r s') : Safe K p Q' s := by
  induction p generalizing s with
  | ret a => exact hQ _ _ h
  | raise e => exact hQ _ _ h
  | call c next ih =>
    intro s₁ hr hi
    obtain ⟨hpre, hnext⟩ := h s₁ hr hi
    exact ⟨hpre, fun r s₂ hr₂ hi₂ hpost => ih r (hnext r s₂ hr₂ hi₂ hpost)⟩

/-- What the run of a safe program may always add to its postcondition: the state has only
climbed, and the invariant holds where the program ends. -/
theorem frame {p : Prog σ α} {Q : Except σ.Exc α → S → Prop} (h : Safe K p Q s) (hi : K.inv s) :
    Safe K p (fun r s' => Q r s' ∧ K.rely s s' ∧ K.inv s') s := by
  -- the induction carries the distance already climbed since the start
  suffices H : ∀ (p : Prog σ α) (t : S), K.rely s t → K.inv t → Safe K p Q t →
      Safe K p (fun r s' => Q r s' ∧ K.rely s s' ∧ K.inv s') t from
    H p s (K.rely_refl s) hi h
  intro p
  induction p with
  | ret a => exact fun t hst hit hq => ⟨hq, hst, hit⟩
  | raise e => exact fun t hst hit hq => ⟨hq, hst, hit⟩
  | call c next ih =>
    intro t hst hit hq s₁ hr hi₁
    obtain ⟨hpre, hnext⟩ := hq s₁ hr hi₁
    refine ⟨hpre, fun r s₂ hr₂ hi₂ hpost => ?_⟩
    exact ih r s₂ (K.rely_trans hst (K.rely_trans hr hr₂)) hi₂ (hnext r s₂ hr₂ hi₂ hpost)

/-- The rule for `p; f`. -/
theorem bind {p : Prog σ α} {f : α → Prog σ β} {Q : Except σ.Exc β → S → Prop}
    {R : Except σ.Exc α → S → Prop} (hp : Safe K p R s)
    (hok : ∀ a s', R (.ok a) s' → Safe K (f a) Q s')
    (herr : ∀ e s', R (.error e) s' → Q (.error e) s') : Safe K (p >>= f) Q s := by
  induction p generalizing s with
  | ret a => exact hok a s hp
  | raise e => exact herr e s hp
  | call c next ih =>
    intro s₁ hr hi
    obtain ⟨hpre, hnext⟩ := hp s₁ hr hi
    exact ⟨hpre, fun r s₂ hr₂ hi₂ hpost => ih r (hnext r s₂ hr₂ hi₂ hpost)⟩

theorem ofExcept {r : Except σ.Exc α} {Q : Except σ.Exc α → S → Prop} (h : Q r s) :
    Safe K (Prog.ofExcept r) Q s := by
  cases r <;> exact h

/-- The rule for one call. -/
theorem perform {c : σ.Call} {Q : Except σ.Exc (σ.Reply c) → S → Prop}
    (hpre : ∀ s₁, K.rely s s₁ → K.inv s₁ → K.pre c s₁)
    (hpost : ∀ r s₂, K.rely s s₂ → K.inv s₂ → K.post c r s₂ → Q r s₂) :
    Safe K (Prog.perform c) Q s := fun s₁ hr hi =>
  ⟨hpre s₁ hr hi, fun r s₂ hr₂ hi₂ hpost' =>
    ofExcept (hpost r s₂ (K.rely_trans hr hr₂) hi₂ hpost')⟩

/-- The rule for `try: p`. -/
theorem attempt {p : Prog σ α} {Q : Except σ.Exc (Except σ.Exc α) → S → Prop}
    (h : Safe K p (fun r s' => Q (.ok r) s') s) : Safe K p.attempt Q s := by
  induction p generalizing s with
  | ret a => exact h
  | raise e => exact h
  | call c next ih =>
    intro s₁ hr hi
    obtain ⟨hpre, hnext⟩ := h s₁ hr hi
    exact ⟨hpre, fun r s₂ hr₂ hi₂ hpost => ih r (hnext r s₂ hr₂ hi₂ hpost)⟩

/-- The rule for `try: p finally: fin`. The outcome of `fin` decides which exception, if
any, comes out, so `Q` has to hold of the outcome of `p` and of any exception of `fin`. -/
theorem ensuring {p : Prog σ α} {fin : Prog σ Unit} {Q R : Except σ.Exc α → S → Prop}
    (hp : Safe K p R s)
    (hfin : ∀ r s', R r s' → Safe K fin
      (fun f s'' => match f with | .ok _ => Q r s'' | .error e => Q (.error e) s'') s') :
    Safe K (Prog.ensuring p fin) Q s := by
  refine bind (R := fun r s' => ∃ o, r = .ok o ∧ R o s') (attempt (hp.mono ?_)) ?_ ?_
  · exact fun r s' h => ⟨r, rfl, h⟩
  · rintro o s' ⟨o', ho, hR⟩
    cases ho
    refine bind (hfin o s' hR) (fun _ s'' h => ofExcept h) (fun e s'' h => h)
  · rintro e s' ⟨o, ho, -⟩
    cases ho

/-- The rule for a loop whose body needs a fact `J` that nobody can undo. -/
theorem forEach {body : α → Prog σ Unit} {J : S → Prop}
    (hJ : ∀ {t u}, J t → K.rely t u → J u) {xs : List α}
    (hbody : ∀ x ∈ xs, ∀ t, K.inv t → J t → Safe K (body x) (fun _ _ => True) t)
    (hi : K.inv s) (hs : J s) : Safe K (Prog.forEach body xs) (fun _ _ => True) s := by
  induction xs generalizing s with
  | nil => trivial
  | cons x xs ih =>
    refine bind ((hbody x (by simp) s hi hs).frame hi) ?_ (fun _ _ _ => trivial)
    rintro _ s' ⟨-, hr, hi'⟩
    exact ih (fun y hy => hbody y (by simp [hy])) hi' (hJ hs hr)

/-- A program that is waiting stays safe while the state climbs. -/
theorem rely {p : Prog σ α} {s' : S} (h : Safe K p (fun _ _ => True) s) (hr : K.rely s s') :
    Safe K p (fun _ _ => True) s' := by
  cases p with
  | ret a => trivial
  | raise e => trivial
  | call c next => exact fun s₁ hr₁ hi => h s₁ (K.rely_trans hr hr₁) hi

/-- A safe program stays safe when more is invariant. -/
theorem strengthen {p : Prog σ α} {Q : Except σ.Exc α → S → Prop} (h : Safe K p Q s)
    (P : S → Prop) : Safe (K.strengthen P) p Q s := by
  induction p generalizing s with
  | ret a => exact h
  | raise e => exact h
  | call c next ih =>
    intro s₁ hr hi
    obtain ⟨hpre, hnext⟩ := h s₁ hr hi.1
    exact ⟨hpre, fun r s₂ hr₂ hi₂ hpost => ih r (hnext r s₂ hr₂ hi₂.1 hpost)⟩

end Safe

/-! ## Adequacy -/

namespace Contract.Sound

variable {σ : Sig} {S α : Type} {K : Contract σ S} {W : World σ S} {start : Prog σ α → Prop}
  {cfg cfg' : Config σ S α}

/-- The configuration invariant: the state invariant, and every process is safe. -/
structure Holds (K : Contract σ S) (cfg : Config σ S α) : Prop where
  inv : K.inv cfg.state
  safe : ∀ w p, cfg.procs w = some p → Safe K p (fun _ _ => True) cfg.state

theorem holds_setProc (hcfg : Holds K cfg) (w : ℕ) (p : Option (Prog σ α))
    (hp : ∀ q, p = some q → Safe K q (fun _ _ => True) cfg.state) :
    Holds K (cfg.setProc w p) := by
  refine ⟨hcfg.inv, fun v q hv => ?_⟩
  by_cases hvw : v = w
  · subst hvw
    exact hp q (by simpa using hv)
  · rw [cfg.setProc_of_ne p hvw] at hv
    exact hcfg.safe v q hv

theorem holds_setState (hcfg : Holds K cfg) {s' : S} (hi : K.inv s')
    (hr : K.rely cfg.state s') : Holds K (cfg.setState s') :=
  ⟨hi, fun w p hp => (hcfg.safe w p hp).rely hr⟩

/-- One move keeps the configuration invariant and climbs `rely`. -/
theorem step (hK : K.Sound W)
    (hstart : ∀ p, start p → ∀ s, K.inv s → Safe K p (fun _ _ => True) s)
    (hcfg : Holds K cfg) (h : Step W start cfg cfg') :
    Holds K cfg' ∧ K.rely cfg.state cfg'.state := by
  cases h with
  | @answer w c next r s' running answered =>
    obtain ⟨hpre, hnext⟩ := hcfg.safe w _ running cfg.state (K.rely_refl _) hcfg.inv
    obtain ⟨hi, hr, hpost⟩ := hK.call hcfg.inv hpre answered
    refine ⟨holds_setProc (holds_setState hcfg hi hr) w _ ?_, hr⟩
    rintro q ⟨⟩
    exact hnext r s' hr hi hpost
  | crash w => exact ⟨holds_setProc hcfg w none (by simp), K.rely_refl _⟩
  | @spawn w p free started =>
    refine ⟨holds_setProc hcfg w (some p) ?_, K.rely_refl _⟩
    rintro q ⟨⟩
    exact hstart p started _ hcfg.inv
  | drift drifted =>
    obtain ⟨hi, hr⟩ := hK.drift hcfg.inv drifted
    exact ⟨holds_setState hcfg hi hr, hr⟩

/-- **Adequacy.** If the world keeps the contract and every program that may be started is
safe, then the invariant holds in every configuration any run leads to, and the state has
climbed `rely` since the start. -/
theorem reach (hK : K.Sound W)
    (hstart : ∀ p, start p → ∀ s, K.inv s → Safe K p (fun _ _ => True) s)
    {s₀ : S} (h₀ : K.inv s₀) (h : Reach W start (Config.idle s₀) cfg) :
    K.inv cfg.state ∧ K.rely s₀ cfg.state := by
  suffices H : Holds K cfg ∧ K.rely s₀ cfg.state from ⟨H.1.inv, H.2⟩
  induction h with
  | refl => exact ⟨⟨h₀, by simp⟩, K.rely_refl _⟩
  | tail _ hstep ih =>
    obtain ⟨hcfg, hr⟩ := hK.step hstart ih.1 hstep
    exact ⟨hcfg, K.rely_trans ih.2 hr⟩

end Contract.Sound

end SecurityAudit
