import SecurityAudit.Prog.Trace

/-!
# What programs spend

Some answers give a program something, and some calls use it up. `World.traced` keeps the list of
what was called and answered, and an `Account` says what each call costs and each answer gains.
`Affords p Q n` says that `p`, with `n` in hand, never makes a call it cannot pay, whatever it is
answered. If every program that may be started affords what it does from nothing, then in every
run no more is spent than was gained (`Account.solvent`): what the processes have in hand
makes up the difference.
-/

namespace SecurityAudit

variable {σ : Sig} {S α β : Type}

/-- The world that remembers the calls and their answers. -/
def World.traced (W : World σ S) : World σ (S × List σ.Event) where
  answers c s r s' := W.answers c s.1 r s'.1 ∧ s'.2 = s.2 ++ [⟨c, r⟩]
  drift s s' := W.drift s.1 s'.1 ∧ s'.2 = s.2

/-- A restricted run that is remembered is a run that is remembered. -/
theorem Reach.of_restrict_traced {W : World σ S} {start : Prog σ α → Prop}
    {allowed : (c : σ.Call) → S → σ.Answer c → Prop} {cfg₀ cfg : Config σ (S × List σ.Event) α}
    (h : Reach (W.restrict allowed).traced start cfg₀ cfg) : Reach W.traced start cfg₀ cfg :=
  have hstep : ∀ c c', Step (W.restrict allowed).traced start c c' → Step W.traced start c c' :=
    fun _ _ hs => Step.mono (W := (W.restrict allowed).traced) (V := W.traced)
      (fun ha => ⟨ha.1.1, ha.2⟩) id hs
  Relation.ReflTransGen.mono hstep _ _ h

/-- Every run can be remembered. -/
theorem Reach.traced {W : World σ S} {start : Prog σ α → Prop} {s₀ : S} {cfg : Config σ S α}
    (h : Reach W start (Config.idle s₀) cfg) :
    ∃ log, Reach W.traced start (Config.idle (s₀, [])) ⟨(cfg.state, log), cfg.procs⟩ := by
  induction h with
  | refl => exact ⟨[], .refl⟩
  | tail _ hstep ih =>
    obtain ⟨log, ih⟩ := ih
    cases hstep with
    | @answer w c next r s' running answered =>
      have hanswered : W.traced.answers c (_, log) r (s', log ++ [⟨c, r⟩]) := ⟨answered, rfl⟩
      exact ⟨_, ih.tail (.answer running hanswered)⟩
    | crash w => exact ⟨log, ih.tail (.crash w)⟩
    | spawn free started => exact ⟨log, ih.tail (.spawn free started)⟩
    | @drift s' drifted =>
      have hdrifted : W.traced.drift (_, log) (s', log) := ⟨drifted, rfl⟩
      exact ⟨log, ih.tail (.drift hdrifted)⟩

/-- What each call costs, and what each answer gains. -/
structure Account (σ : Sig) where
  cost : σ.Call → ℕ
  gain : (c : σ.Call) → σ.Answer c → ℕ

namespace Account

variable (A : Account σ)

/-- What the calls of a run cost. -/
def spent (log : List σ.Event) : ℕ := (log.map fun e => A.cost e.1).sum

/-- What the answers of a run gained. -/
def gained (log : List σ.Event) : ℕ := (log.map fun e => A.gain e.1 e.2).sum

@[simp] theorem spent_nil : A.spent [] = 0 := rfl

@[simp] theorem gained_nil : A.gained [] = 0 := rfl

theorem spent_snoc (log : List σ.Event) (c : σ.Call) (r : σ.Answer c) :
    A.spent (log ++ [⟨c, r⟩]) = A.spent log + A.cost c := by
  simp [spent]

theorem gained_snoc (log : List σ.Event) (c : σ.Call) (r : σ.Answer c) :
    A.gained (log ++ [⟨c, r⟩]) = A.gained log + A.gain c r := by
  simp [gained]

/-- With `n` in hand, `p` pays for every call it makes, and its outcome and what it has left meet
`Q`. -/
def Affords : Prog σ α → (Except σ.Exc α → ℕ → Prop) → ℕ → Prop
  | .ret a, Q, n => Q (.ok a) n
  | .raise e, Q, n => Q (.error e) n
  | .call c next, Q, n => A.cost c ≤ n ∧ ∀ r, Affords (next r) Q (n - A.cost c + A.gain c r)

/-- What a program that returns something worth `worth` has left: at least what it had, and the
worth of what it returned. -/
def Yields (worth : α → ℕ) (n : ℕ) : Except σ.Exc α → ℕ → Prop
  | .ok a, k => n + worth a ≤ k
  | .error _, k => n ≤ k

namespace Affords

variable {A} {n : ℕ}

theorem mono {p : Prog σ α} {Q Q' : Except σ.Exc α → ℕ → Prop} (h : A.Affords p Q n)
    (hQ : ∀ r k, Q r k → Q' r k) : A.Affords p Q' n := by
  induction p generalizing n with
  | ret a => exact hQ _ _ h
  | raise e => exact hQ _ _ h
  | call c next ih => exact ⟨h.1, fun r => ih r (h.2 r)⟩

/-- The rule for `p; f`. -/
theorem bind {p : Prog σ α} {f : α → Prog σ β} {Q : Except σ.Exc β → ℕ → Prop}
    {R : Except σ.Exc α → ℕ → Prop} (hp : A.Affords p R n)
    (hok : ∀ a k, R (.ok a) k → A.Affords (f a) Q k)
    (herr : ∀ e k, R (.error e) k → Q (.error e) k) : A.Affords (p >>= f) Q n := by
  induction p generalizing n with
  | ret a => exact hok a n hp
  | raise e => exact herr e n hp
  | call c next ih => exact ⟨hp.1, fun r => ih r (hp.2 r)⟩

/-- The rule for `try: p` and what is done about its outcome. -/
theorem attempt_bind {p : Prog σ α} {f : Except σ.Exc α → Prog σ β}
    {Q : Except σ.Exc β → ℕ → Prop} {R : Except σ.Exc α → ℕ → Prop} (hp : A.Affords p R n)
    (hf : ∀ r k, R r k → A.Affords (f r) Q k) : A.Affords (p.attempt >>= f) Q n := by
  induction p generalizing n with
  | ret a => exact hf _ n hp
  | raise e => exact hf _ n hp
  | call c next ih => exact ⟨hp.1, fun r => ih r (hp.2 r)⟩

theorem ofExcept {r : Except σ.Exc α} {Q : Except σ.Exc α → ℕ → Prop} (h : Q r n) :
    A.Affords (Prog.ofExcept r) Q n := by
  cases r <;> exact h

/-- The rule for one call. -/
theorem perform {c : σ.Call} {Q : Except σ.Exc (σ.Reply c) → ℕ → Prop} (hc : A.cost c ≤ n)
    (hQ : ∀ r, Q r (n - A.cost c + A.gain c r)) : A.Affords (Prog.perform c) Q n :=
  ⟨hc, fun r => ofExcept (hQ r)⟩

/-- Calls that cost and gain nothing. -/
theorem of_all {p : Prog σ α} (hp : p.All fun c => A.cost c = 0 ∧ ∀ r, A.gain c r = 0) :
    A.Affords p (fun _ k => k = n) n := by
  induction p generalizing n with
  | ret a => rfl
  | raise e => rfl
  | call c next ih =>
    obtain ⟨⟨hcost, hgain⟩, hnext⟩ := hp
    refine ⟨by omega, fun r => ?_⟩
    have hsame : n - A.cost c + A.gain c r = n := by
      rw [hcost, hgain r]
      omega
    rw [hsame]
    exact ih r (hnext r)

/-- The rule for a loop whose body uses up what there is of each element. -/
theorem forEach {body : β → Prog σ Unit} {price : β → ℕ} {xs : List β}
    (hbody : ∀ x ∈ xs, ∀ k, price x ≤ k → A.Affords (body x) (fun _ l => k ≤ l + price x) k)
    (hn : (xs.map price).sum ≤ n) :
    A.Affords (Prog.forEach body xs) (fun _ l => n ≤ l + (xs.map price).sum) n := by
  induction xs generalizing n with
  | nil => exact le_refl n
  | cons x xs ih =>
    rw [List.map_cons, List.sum_cons] at hn ⊢
    refine bind (hbody x (by simp) n (by omega)) (fun _ k hk => ?_) fun _ k hk => by omega
    exact (ih (fun y hy => hbody y (by simp [hy])) (by omega)).mono fun _ l hl => by omega

end Affords

/-! ## No run spends more than it gained -/

variable {A} {W : World σ S} {start : Prog σ α → Prop}

/-- What the processes have in hand covers what they will spend, and with what was spent it
makes up no more than was gained. The slots not in `slots` are empty. -/
structure Solvent (A : Account σ) (cfg : Config σ (S × List σ.Event) α) (slots : Finset ℕ)
    (hand : ℕ → ℕ) : Prop where
  running : ∀ w p, cfg.procs w = some p → w ∈ slots ∧ A.Affords p (fun _ _ => True) (hand w)
  total : A.spent cfg.state.2 + ∑ w ∈ slots, hand w ≤ A.gained cfg.state.2

/-- One move. -/
theorem Solvent.step (hstart : ∀ p, start p → A.Affords p (fun _ _ => True) 0)
    {cfg cfg' : Config σ (S × List σ.Event) α} {slots : Finset ℕ} {hand : ℕ → ℕ}
    (h : Solvent A cfg slots hand) (hstep : Step W.traced start cfg cfg') :
    ∃ slots' hand', Solvent A cfg' slots' hand' := by
  cases hstep with
  | @answer w c next r s' running answered =>
    obtain ⟨hw, hcost, hnext⟩ := h.running w _ running
    refine ⟨slots, Function.update hand w (hand w - A.cost c + A.gain c r), fun v p hv => ?_, ?_⟩
    · by_cases hvw : v = w
      · subst hvw
        rw [Config.setProc_self, Option.some.injEq] at hv
        rw [Function.update_self, ← hv]
        exact ⟨hw, hnext r⟩
      · rw [Config.setProc_of_ne _ _ hvw] at hv
        rw [Function.update_of_ne hvw]
        exact h.running v p hv
    · have htotal := h.total
      rw [← Finset.add_sum_erase slots hand hw] at htotal
      rw [Finset.sum_update_of_mem hw, Finset.sdiff_singleton_eq_erase]
      show A.spent s'.2 + _ ≤ A.gained s'.2
      rw [answered.2, A.spent_snoc, A.gained_snoc]
      omega
  | crash w =>
    refine ⟨slots, hand, fun v p hv => ?_, h.total⟩
    by_cases hvw : v = w
    · subst hvw
      simp at hv
    · rw [Config.setProc_of_ne _ _ hvw] at hv
      exact h.running v p hv
  | @spawn w p free started =>
    refine ⟨insert w slots, Function.update hand w 0, fun v q hv => ?_, ?_⟩
    · by_cases hvw : v = w
      · subst hvw
        rw [Config.setProc_self, Option.some.injEq] at hv
        rw [Function.update_self, ← hv]
        exact ⟨Finset.mem_insert_self _ _, hstart p started⟩
      · rw [Config.setProc_of_ne _ _ hvw] at hv
        rw [Function.update_of_ne hvw]
        obtain ⟨hmem, hq⟩ := h.running v q hv
        exact ⟨Finset.mem_insert_of_mem hmem, hq⟩
    · have hle : ∑ v ∈ insert w slots, Function.update hand w 0 v ≤ ∑ v ∈ slots, hand v := by
        rw [Finset.sum_update_of_mem (Finset.mem_insert_self _ _), zero_add]
        refine Finset.sum_le_sum_of_subset fun v hv => ?_
        rw [Finset.mem_sdiff, Finset.mem_insert, Finset.mem_singleton] at hv
        exact hv.1.resolve_left hv.2
      have htotal := h.total
      show A.spent cfg.state.2 + _ ≤ A.gained cfg.state.2
      omega
  | @drift s' drifted =>
    refine ⟨slots, hand, h.running, ?_⟩
    show A.spent s'.2 + _ ≤ A.gained s'.2
    rw [drifted.2]
    exact h.total

/-- **No run spends more than it gained.** -/
theorem solvent (hstart : ∀ p, start p → A.Affords p (fun _ _ => True) 0) {s₀ : S}
    {cfg : Config σ (S × List σ.Event) α}
    (h : Reach W.traced start (Config.idle (s₀, [])) cfg) :
    A.spent cfg.state.2 ≤ A.gained cfg.state.2 := by
  have hsolvent : ∃ slots hand, Solvent A cfg slots hand := by
    induction h with
    | refl => exact ⟨∅, fun _ => 0, by simp, by simp⟩
    | tail _ hstep ih =>
      obtain ⟨slots, hand, ih⟩ := ih
      exact ih.step hstart hstep
  obtain ⟨slots, hand, hsolvent⟩ := hsolvent
  have htotal := hsolvent.total
  omega

end Account

end SecurityAudit
