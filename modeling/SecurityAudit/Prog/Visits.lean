import SecurityAudit.Prog.Solo

/-!
# Bringing a running system to a state

To show that a state can still be reached from any configuration, it is enough to bring the state
there by visits: a program is started in a free slot, runs alone for a while and is killed, or the
state drifts. The other processes wait meanwhile (`Visits.reach`). `Visits.descend` is the rule for
progress: a measure that some visits make smaller, as long as the goal is not there.
-/

namespace SecurityAudit

variable {σ : Sig} {S α : Type} {W : World σ S} {start : Prog σ α → Prop}

/-- The state drifts, or one program is started, makes some calls and is killed. -/
inductive Visit (W : World σ S) (start : Prog σ α → Prop) : S → S → Prop where
  | drift {s t : S} (drifted : W.drift s t) : Visit W start s t
  | solo {s t : S} {p q : Prog σ α} (run : Solo W p s q t) (started : start p) :
      Visit W start s t

/-- Any number of visits. -/
abbrev Visits (W : World σ S) (start : Prog σ α → Prop) : S → S → Prop :=
  Relation.ReflTransGen (Visit W start)

namespace Visits

/-- A configuration with a free slot can be brought where visits bring its state. -/
theorem reach {cfg : Config σ S α} {t : S} (h : Visits W start cfg.state t) {w : ℕ}
    (hfree : cfg.procs w = none) : Reach W start cfg (cfg.setState t) := by
  induction h with
  | refl => exact .refl
  | @tail u v _ hvisit ih =>
    refine ih.trans ?_
    cases hvisit with
    | drift drifted => exact .single (.drift drifted)
    | @solo p q run started =>
      have hslot : (cfg.setState u).procs w = none := hfree
      have hrun : Reach W start ((cfg.setState u).setProc w (some p))
          ((((cfg.setState u).setProc w (some p)).setState v).setProc w (some q)) :=
        run.reach rfl (by simp)
      -- the slot is empty again when the program was killed
      have hend : ((((cfg.setState u).setProc w (some p)).setState v).setProc w (some q)).setProc w
          none = cfg.setState v := by
        simp only [Config.setProc, Config.setState, Function.update_idem]
        congr 1
        rw [← hfree, Function.update_eq_self]
      rw [← hend]
      exact ((Relation.ReflTransGen.single (.spawn hslot started)).trans hrun).tail (.crash w)

/-- **Descent.** If wherever `I` holds the goal is there or some visits keep `I` and make the
measure smaller, the goal can be brought about. -/
theorem descend {I G : S → Prop} (μ : S → ℕ)
    (h : ∀ s, I s → G s ∨ ∃ t, Visits W start s t ∧ I t ∧ μ t < μ s) {s : S} (hs : I s) :
    ∃ t, Visits W start s t ∧ I t ∧ G t := by
  induction hμ : μ s using Nat.strong_induction_on generalizing s with
  | _ n ih =>
    rcases h s hs with hgoal | ⟨t, hst, ht, hlt⟩
    · exact ⟨s, .refl, hs, hgoal⟩
    · obtain ⟨u, htu, hu, hgoal⟩ := ih (μ t) (hμ ▸ hlt) ht rfl
      exact ⟨u, hst.trans htu, hu, hgoal⟩

end Visits

end SecurityAudit
