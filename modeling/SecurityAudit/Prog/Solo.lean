import SecurityAudit.Prog.Interleaving

/-!
# One process at a time

To show that a state is reached, a run has to be given. `Solo W p s q t` is a stretch of a run
in which one program, `p`, has calls answered and nothing else happens. It is built along the
program (`Solo.bind`, `Solo.attempt`, `Solo.perform`), and a program that is started, runs a
stretch and is killed leaves the process table as it was (`Solo.visit`), so such visits
compose at the level of states.
-/

namespace SecurityAudit

variable {σ : Sig} {S α β : Type} {W : World σ S} {start : Prog σ α → Prop}

/-- `Solo W p s q t`: the program `p`, alone from `s`, may have some calls answered and be
left as `q` in `t`. -/
inductive Solo (W : World σ S) : Prog σ α → S → Prog σ α → S → Prop where
  | here (p : Prog σ α) (s : S) : Solo W p s p s
  | answer {c : σ.Call} {next : σ.Answer c → Prog σ α} {s t u : S} {q : Prog σ α}
      (r : σ.Answer c) (answered : W.answers c s r t) (rest : Solo W (next r) t q u) :
      Solo W (.call c next) s q u

namespace Solo

variable {p q : Prog σ α} {s t u : S}

/-- A stretch in one world is a stretch in a world that answers as much. -/
theorem mono {V : World σ S} (hanswers : ∀ {c s r s'}, W.answers c s r s' → V.answers c s r s')
    (h : Solo W p s q t) : Solo V p s q t := by
  induction h with
  | here p s => exact .here _ _
  | answer r answered _ ih => exact .answer r (hanswers answered) ih

/-- The rule for `p; f` while `p` is running. -/
theorem bind_left (h : Solo W p s q t) (f : α → Prog σ β) :
    Solo W (p >>= f) s (q >>= f) t := by
  induction h with
  | here p s => exact .here _ _
  | answer r answered _ ih => exact .answer r answered ih

theorem trans {p₁ p₂ p₃ : Prog σ α} (h : Solo W p₁ s p₂ t) (h' : Solo W p₂ t p₃ u) :
    Solo W p₁ s p₃ u := by
  induction h with
  | here => exact h'
  | answer r answered _ ih => exact .answer r answered (ih h')

/-- The rule for `p; f` once `p` has returned. -/
theorem bind {a : α} {f : α → Prog σ β} {r : Prog σ β} (h : Solo W p s (.ret a) t)
    (hf : Solo W (f a) t r u) : Solo W (p >>= f) s r u :=
  (h.bind_left f).trans hf

/-- The rule for `try: p`. -/
theorem attempt (h : Solo W p s q t) : Solo W p.attempt s q.attempt t := by
  induction h with
  | here p s => exact .here _ _
  | answer r answered _ ih => exact .answer r answered ih

/-- The rule for one call. -/
theorem perform {c : σ.Call} {r : σ.Answer c} (h : W.answers c s r t) :
    Solo W (Prog.perform c) s (Prog.ofExcept r) t :=
  .answer r h (.here _ _)

/-- The rule for `try: p finally: fin`. -/
theorem ensuring {fin : Prog σ Unit} {a : α} (h : Solo W p s (.ret a) t)
    (hfin : Solo W fin t (.ret ()) u) : Solo W (Prog.ensuring p fin) s (.ret a) u :=
  bind h.attempt (bind hfin (.here _ _))

/-- The rule for `for x in x :: xs: body x`. -/
theorem forEach_cons {body : β → Prog σ Unit} {x : β} {xs : List β} {q : Prog σ Unit}
    (hx : Solo W (body x) s (.ret ()) t) (hxs : Solo W (Prog.forEach body xs) t q u) :
    Solo W (Prog.forEach body (x :: xs)) s q u :=
  bind hx hxs

/-- A solo stretch of one process is a stretch of a run of the system. -/
theorem reach (h : Solo W p s q t) {cfg : Config σ S α} {w : ℕ} (hs : cfg.state = s)
    (hw : cfg.procs w = some p) :
    Reach W start cfg ((cfg.setState t).setProc w (some q)) := by
  induction h generalizing cfg with
  | here p s =>
    have : (cfg.setState s).setProc w (some p) = cfg := by
      subst hs
      simp only [Config.setState, Config.setProc, ← hw, Function.update_eq_self]
    rw [this]
  | @answer c next s t u q r answered rest ih =>
    subst hs
    refine .head (Step.answer hw answered) ?_
    have hrest : ((cfg.setState t).setProc w (some (next r))).procs w = some (next r) := by simp
    simpa [Config.setState, Config.setProc] using ih rfl hrest

/-- A process is started, runs alone for a while and is killed. -/
theorem visit (h : Solo W p s q t) (hp : start p) :
    Reach W start (Config.idle s) (Config.idle t) := by
  have hspawn : Reach W start (Config.idle s) ((Config.idle s).setProc 0 (some p)) :=
    .single (.spawn rfl hp)
  have hrun : Reach W start ((Config.idle s).setProc 0 (some p))
      ((((Config.idle s).setProc 0 (some p)).setState t).setProc 0 (some q)) :=
    h.reach rfl (by simp)
  refine (hspawn.trans hrun).trans (.single ?_)
  have hidle : Config.idle t =
      ((((Config.idle s).setProc 0 (some p)).setState t).setProc 0 (some q)).setProc 0 none := by
    simp only [Config.idle, Config.setProc, Config.setState, Function.update_idem]
    congr 1
    funext w
    by_cases hw : w = 0 <;> simp [hw]
  rw [hidle]
  exact .crash 0

end Solo

/-- The state drifts while no process runs. -/
theorem Reach.drift_idle {s t : S} (h : W.drift s t) :
    Reach W start (Config.idle s) (Config.idle t) :=
  .single (.drift h)

end SecurityAudit
