import SecurityAudit.Prog.Trace
import SecurityAudit.RedisAcl.Scenarios

/-!
# `authenticate` fails closed

Whatever redis-py and the gate do, `authenticate` either returns a session that was accepted and
confirmed, or raises an error of the module after an attempt to close the client it constructed.
The one way out is that attempt: `client.close()` in the handlers is not itself tried, so what it
raises leaves `authenticate` as it is (`fails_closed_iff`).
-/

namespace SecurityAudit

namespace RedisAcl

open Prog

/-- `AUTH username password`. -/
def authArgs (target : Target) : List Arg :=
  [.str (str "AUTH"), .str target.username, .str target.password]

/-- `ACL WHOAMI`. -/
def whoamiArgs : List Arg := [.str (str "ACL"), .str (str "WHOAMI")]

/-- `AUTH` succeeded: it answered `True` or `"OK"`. -/
def Accepted (r : Except Raised Reply) : Prop := r = .ok .true ∨ r = .ok (.text (str "OK"))

/-- The commands among some calls: on which client, with which arguments, and how answered. -/
def commands : List clientSig.Event → List (ℕ × List Arg × Except Raised Reply)
  | [] => []
  | ⟨.execute c args, r⟩ :: log => (c, args, r) :: commands log
  | ⟨.connect _ _, _⟩ :: log => commands log
  | ⟨.close _, _⟩ :: log => commands log

/-- Among the commands of a log, `AUTH` comes first, and nothing comes after it unless it
succeeded. -/
def AuthFirst (target : Target) (sent : List (ℕ × List Arg × Except Raised Reply)) : Prop :=
  sent = [] ∨ ∃ c r, sent = [(c, authArgs target, r)] ∨
    Accepted r ∧ ∃ r', sent = [(c, authArgs target, r), (c, whoamiArgs, r')]

/-- What a call of `authenticate` that made the calls in `log` and ended with `o` is to be like,
where a session is what `session` makes of its client. -/
structure FailsClosed {α : Type} (target : Target) (session : ℕ → α) (log : List clientSig.Event)
    (o : Except Raised α) : Prop where
  /-- a session is returned only after `AUTH` succeeded and `ACL WHOAMI` confirmed the identity -/
  returned : ∀ s, o = .ok s → ∃ c r, s = session c ∧
    ⟨.connect target.host target.port, .ok c⟩ ∈ log ∧ Accepted r ∧
    commands log = [(c, authArgs target, r),
      (c, whoamiArgs, .ok (.text target.expected_identity))]
  /-- only errors of the module are raised -/
  raised : ∀ e, o = .error e → ∃ err, e = .safety err
  /-- a client that was constructed is closed before an error is raised -/
  closes : ∀ e, o = .error e → ∀ c, ⟨.connect target.host target.port, .ok c⟩ ∈ log →
    ∃ r, ⟨.close c, r⟩ ∈ log
  authFirst : AuthFirst target (commands log)

/-- No attempt to close a client raises anything but an error of the module. -/
def ClosesQuietly (log : List clientSig.Event) : Prop :=
  ∀ c e, ⟨.close c, .error e⟩ ∈ log → ∃ err, e = .safety err

theorem commands_append (log log' : List clientSig.Event) :
    commands (log ++ log') = commands log ++ commands log' := by
  induction log with
  | nil => rfl
  | cons e log ih =>
    obtain ⟨c, r⟩ := e
    cases c <;> simp [commands, ih]

variable {U : Unicode} {target : Target} {authorize : List Arg → Except Raised Unit}
  {log : List clientSig.Event}

theorem unexpected_safety (e : Raised) : ∃ err, unexpected U target e = .safety err := by
  cases e <;> exact ⟨_, rfl⟩

/-- How `establish` goes: it stops at `AUTH`, or it goes on to `ACL WHOAMI`. -/
theorem establish_cases {c : ℕ} {o : Except Raised Unit}
    (h : Transcript (establish U target authorize c) log o) :
    (∃ r e, log = [⟨.execute c (authArgs target), r⟩] ∧ o = .error e) ∨
    ∃ r r', log = [⟨.execute c (authArgs target), r⟩, ⟨.execute c whoamiArgs, r'⟩] ∧ Accepted r ∧
      (o = .ok () → r' = .ok (.text target.expected_identity)) := by
  obtain ⟨r, auth, rest, rfl, hauth, hrest⟩ := Transcript.of_attempt_bind h
  obtain rfl := hauth.of_perform
  cases r with
  | error e =>
    cases hrest
    exact .inl ⟨_, _, rfl, rfl⟩
  | ok ok =>
    dsimp only at hrest
    -- an answer other than `OK` is a failure too
    split_ifs at hrest with hok
    · cases hrest
      exact .inl ⟨_, _, rfl, rfl⟩
    have haccepted : Accepted (.ok ok) := by
      by_cases htrue : ok = .true
      · exact .inl (by rw [htrue])
      · right
        by_contra htext
        exact hok ⟨htrue, fun heq => htext (by rw [heq])⟩
    cases hgate : authorize [.str (str "ACL"), .str (str "WHOAMI")] with
    | error e =>
      rw [hgate] at hrest
      cases hrest
      exact .inl ⟨_, _, rfl, rfl⟩
    | ok _ =>
      rw [hgate] at hrest
      right
      obtain ⟨r', whoami, nothing, rfl, hwhoami, hend⟩ := Transcript.of_attempt_bind hrest
      obtain rfl := hwhoami.of_perform
      cases r' with
      | error e =>
        cases e <;> cases hend <;> exact ⟨_, _, rfl, haccepted, fun hret => by cases hret⟩
      | ok actual =>
        dsimp only at hend
        split_ifs at hend with hactual
        · cases hend
          exact ⟨_, _, rfl, haccepted, fun hret => by cases hret⟩
        · cases hend
          obtain rfl := not_not.mp hactual
          exact ⟨_, _, rfl, haccepted, fun _ => rfl⟩

/-- `establish` sends commands, in this order, and does nothing else. -/
theorem establish_commands {c : ℕ} {o : Except Raised Unit}
    (h : Transcript (establish U target authorize c) log o) :
    AuthFirst target (commands log) ∧ ∀ e ∈ log, ∃ args r, e = ⟨.execute c args, r⟩ := by
  obtain ⟨r, e, rfl, -⟩ | ⟨r, r', rfl, haccepted, -⟩ := establish_cases h
  · exact ⟨.inr ⟨c, r, .inl rfl⟩, by simp⟩
  · exact ⟨.inr ⟨c, r, .inr ⟨haccepted, r', rfl⟩⟩, by simp⟩

/-- How `authenticate` goes: no client, a session, or a failure after which the client is
closed. -/
theorem authenticate_cases {α : Type} {session : ℕ → α} {o : Except Raised α}
    (h : Transcript (authenticateBehind U target authorize session) log o) :
    (∃ e err, log = [⟨.connect target.host target.port, .error e⟩] ∧ o = .error (.safety err)) ∨
    ∃ c own r, Transcript (establish U target authorize c) own r ∧
      ((r = .ok () ∧ log = ⟨.connect target.host target.port, .ok c⟩ :: own ∧
          o = .ok (session c)) ∨
        ∃ closed err, log = ⟨.connect target.host target.port, .ok c⟩ :: (own ++
            [⟨.close c, closed⟩]) ∧
          o = match closed with
            | .ok _ => .error (.safety err)
            | .error e => .error e) := by
  obtain ⟨client, connecting, rest, rfl, hconnect, hrest⟩ := Transcript.of_attempt_bind h
  obtain rfl := hconnect.of_perform
  cases client with
  | error e =>
    obtain ⟨err, herr⟩ := @unexpected_safety U target (authenticationFailed U target e)
    cases hrest
    exact .inl ⟨e, err, rfl, by rw [herr]⟩
  | ok c =>
    right
    obtain ⟨r, own, rest, rfl, hown, hend⟩ := Transcript.of_attempt_bind hrest
    refine ⟨c, own, r, hown, ?_⟩
    cases r with
    | ok _ =>
      cases hend
      exact .inl ⟨rfl, congrArg _ (List.append_nil own), rfl⟩
    | error e =>
      right
      -- what the call ends with depends on whether closing the client raises
      obtain ⟨err, herr⟩ := @unexpected_safety U target e
      obtain ⟨e', ho, hclose⟩ | ⟨_, closing, nothing, rfl, hclose, hraise⟩ := Transcript.of_bind hend
      · obtain rfl := hclose.of_perform
        exact ⟨.error e', err, rfl, ho⟩
      · obtain rfl := hclose.of_perform
        cases hraise
        exact ⟨.ok (), err, rfl, by rw [herr]⟩

/-- **`authenticate` fails closed exactly if closing the client raises nothing foreign**, however
its calls are answered and whatever the gate does. -/
theorem fails_closed_iff {α : Type} (U : Unicode) (target : Target)
    (authorize : List Arg → Except Raised Unit) (session : ℕ → α) (answer : clientSig.Answering)
    (before : List clientSig.Event) :
    let run := (authenticateBehind U target authorize session).play answer before
    FailsClosed target session run.1 run.2 ↔ ClosesQuietly run.1 := by
  intro run
  have hrun : Transcript (authenticateBehind U target authorize session) run.1 run.2 :=
    transcript_play answer before _
  generalize run.1 = log, run.2 = o at hrun ⊢
  obtain ⟨e, err, rfl, rfl⟩ | ⟨c, own, r, hown, ⟨rfl, rfl, rfl⟩ | ⟨closed, err, rfl, rfl⟩⟩ :=
    authenticate_cases hrun
  · -- no client was constructed
    refine iff_of_true ⟨fun s h => (by cases h), ?_, fun _ _ c hc => ?_, .inl rfl⟩ ?_
    · intro e' h
      cases h
      exact ⟨err, rfl⟩
    · simp at hc
    · intro c e' hc
      simp at hc
  · -- a session was returned
    obtain ⟨_, _, -, hret⟩ | ⟨r, r', rfl, haccepted, hconfirmed⟩ := establish_cases hown
    · cases hret
    obtain rfl := hconfirmed rfl
    refine iff_of_true ⟨fun s h => ?_, fun e h => (by cases h), fun e h => (by cases h), ?_⟩ ?_
    · cases h
      exact ⟨c, r, rfl, by simp, haccepted, rfl⟩
    · exact .inr ⟨c, r, .inr ⟨haccepted, _, rfl⟩⟩
    · intro c' e hc
      simp at hc
  · -- the client was closed
    obtain ⟨hfirst, hown⟩ := establish_commands hown
    have hcommands : commands (⟨.connect target.host target.port, .ok c⟩ ::
        (own ++ [⟨.close c, closed⟩])) = commands own := by
      show commands (own ++ [⟨.close c, closed⟩]) = commands own
      rw [commands_append]
      exact List.append_nil _
    have hconnected : ∀ c', ⟨.connect target.host target.port, .ok c'⟩ ∈
        (⟨.connect target.host target.port, .ok c⟩ :: (own ++ [⟨.close c, closed⟩]) :
          List clientSig.Event) → c' = c := by
      intro c' hc'
      rcases List.mem_cons.mp hc' with heq | hc'
      · cases heq
        rfl
      rcases List.mem_append.mp hc' with hc' | hc'
      · obtain ⟨args, r, heq⟩ := hown _ hc'
        cases heq
      · cases List.mem_singleton.mp hc'
    have hclosed : ∀ c' e, ⟨.close c', .error e⟩ ∈
        (⟨.connect target.host target.port, .ok c⟩ :: (own ++ [⟨.close c, closed⟩]) :
          List clientSig.Event) → closed = .error e := by
      intro c' e he
      rcases List.mem_cons.mp he with heq | he
      · cases heq
      rcases List.mem_append.mp he with he | he
      · obtain ⟨args, r, heq⟩ := hown _ he
        cases heq
      · cases List.mem_singleton.mp he
        rfl
    constructor
    · intro h c' e he
      obtain rfl := hclosed c' e he
      exact h.raised e rfl
    · intro h
      refine ⟨fun s hs => ?_, fun e he => ?_, fun e he c' hc' => ?_, ?_⟩
      · cases closed <;> cases hs
      · cases closed with
        | ok _ =>
          cases he
          exact ⟨err, rfl⟩
        | error e' =>
          cases he
          exact h c e (by simp)
      · rw [hconnected c' hc']
        exact ⟨closed, by simp⟩
      · rw [hcommands]
        exact hfirst

/-- `AUTH` is refused and the connection is gone when the client is to be closed. -/
def refusedAndGone : clientSig.Answering :=
  fun _ c => match c with
    | .connect _ _ => .ok (0 : ℕ)
    | .execute _ _ => .error .authenticationError
    | .close _ => .error (.redisError (str "ConnectionError"))

/-- `AUTH` is refused, `client.close()` raises, and that is what leaves `authenticate`. -/
theorem close_error_escapes : ¬∀ (U : Unicode) (target : Target)
    (authorize : List Arg → Except Raised Unit) (answer : clientSig.Answering) (e : Raised),
    ((authenticateBehind U target authorize id).play answer []).2 = .error e →
      ∃ err, e = .safety err := by
  intro h
  obtain ⟨err, herr⟩ := h Sample.unicode Sample.target (fun _ => .ok ()) refusedAndGone
    (.redisError (str "ConnectionError")) rfl
  cases herr

end RedisAcl

end SecurityAudit
