import SecurityAudit.RedisAcl.Confinement

/-!
# Whom a session runs as

`authenticate` confirms the identity once. The client it returns has no credentials, so when its
connection is lost, redis-py opens another one at the next command, and the server executes that
command as `default` (`ping_as_default`). A session keeps its identity as long as no command is run
through it on a lost connection, and none that changes the user of the connection
(`identity_kept`).
-/

namespace SecurityAudit

namespace RedisAcl

variable {U : Unicode} {handshake : Handshake} {st st' : Callers} {call : Option ApiCall}

/-! ## One session -/

/-- The connection of the session, if it is not lost, is that of the identity expected, and so is
everything that was executed on it since the session was returned. -/
structure Opened.Kept (r : Redis) (o : Opened) : Prop where
  since : o.since ≤ r.sent.length
  user : ∀ cl, r.clients[o.session.client]? = some cl →
    cl.user = none ∨ cl.user = some o.target.expected_identity
  sent : ∀ e ∈ r.sent.drop o.since, e.client = o.session.client →
    e.user = o.target.expected_identity

namespace Opened.Kept

variable {r r' : Redis} {o : Opened}

/-- What other clients do does not matter. -/
theorem touches {A : List Arg → Prop} {c : ℕ} (h : o.Kept r) (ht : Touches handshake A c r r')
    (hc : o.session.client ≠ c) : o.Kept r' := by
  obtain ⟨new, hsent, hnew⟩ := ht.sent
  refine ⟨?_, fun cl hcl => ?_, fun e he hclient => ?_⟩
  · rw [hsent, List.length_append]
    exact Nat.le_add_right_of_le h.since
  · rw [ht.others _ hc] at hcl
    exact h.user cl hcl
  · rw [hsent, List.drop_append_of_le_length h.since] at he
    rcases List.mem_append.mp he with he | he
    · exact h.sent e he hclient
    · exact absurd (hclient.symm.trans (hnew e he).1) hc

theorem withClient (h : o.Kept r) (hlt : o.session.client < r.clients.length) (host : Str)
    (port : ℤ) (user : Option Str) : o.Kept (r.withClient host port user) where
  since := h.since
  user cl hcl := by
    rw [Redis.withClient_getElem? _ _ _ _ hlt] at hcl
    exact h.user cl hcl
  sent := h.sent

/-- A connection that is lost is nobody's. -/
theorem lost (h : o.Kept r) (c : ℕ) : o.Kept (r.setUser c none) where
  since := h.since
  user cl hcl := by
    by_cases hc : o.session.client = c
    · subst hc
      obtain ⟨cl', -, rfl⟩ := Option.map_eq_some_iff.mp ((List.getElem?_modify_eq ..).symm.trans hcl)
      exact .inl rfl
    · rw [(Touches.setUser [] (fun _ => True) c r none).others _ hc] at hcl
      exact h.user cl hcl
  sent := h.sent

/-- What redis-py sends of its own does not matter either. -/
theorem greet (h : o.Kept r) (c : ℕ) (host : Str) (port : ℤ) (commands : Handshake) :
    o.Kept (r.greet c host port commands) where
  since := by rw [Redis.sent_greet]; exact h.since
  user cl hcl := h.user cl hcl
  sent := by rw [Redis.sent_greet]; exact h.sent

theorem reopen (h : o.Kept r) (handshake : Handshake) (c : ℕ) (cl : Client) :
    o.Kept (r.reopen handshake c cl) := by
  unfold Redis.reopen
  split_ifs
  · exact h.greet _ _ _ _
  · exact h

/-- A command on a connection that is not lost, and that does not change its user. -/
theorem executed {cl : Client} {ws : List (List (Fin 256))} {user : Option Str} (h : o.Kept r)
    (hcl : r.clients[o.session.client]? = some cl)
    (hlive : cl.user ≠ none ∨ o.target.expected_identity = defaultUser)
    (huser : user = none ∨ user = some (cl.user.getD defaultUser)) :
    o.Kept (r.execute o.session.client cl ws user) := by
  have hidentity : cl.user.getD defaultUser = o.target.expected_identity := by
    rcases h.user cl hcl with hnone | hsome
    · rcases hlive with hlive | hdefault
      · exact absurd hnone hlive
      · rw [hnone, hdefault]
        rfl
    · rw [hsome]
      rfl
  refine ⟨?_, fun cl' hcl' => ?_, fun e he hclient => ?_⟩
  · rw [Redis.sent_execute, List.length_append]
    exact Nat.le_add_right_of_le h.since
  · obtain ⟨cl'', -, rfl⟩ :=
      Option.map_eq_some_iff.mp ((List.getElem?_modify_eq ..).symm.trans hcl')
    rw [hidentity] at huser
    exact huser
  · have happend : (r.execute o.session.client cl ws user).sent.drop o.since =
        r.sent.drop o.since ++
          [.asked o.session.client cl.host cl.port ws (cl.user.getD defaultUser)] := by
      rw [Redis.sent_execute]
      exact List.drop_append_of_le_length h.since
    rw [happend] at he
    rcases List.mem_append.mp he with he | he
    · exact h.sent e he hclient
    · rw [List.mem_singleton.mp he]
      exact hidentity

end Opened.Kept

/-! ## Runs -/

/-- A command that the gate of an open session lets through is run only if the connection was not
lost, unless the session is one of `default`, and if the command does not change the user of the
connection. -/
def Steady (U : Unicode) (st : Callers) : Option ApiCall → Prop
  | some (.run i args) => ∀ o ∈ st.sessions[i]?, o.session.closed = false →
    o.session.gate.authorize U args = .ok () →
      (∀ cl ∈ st.redis.clients[o.session.client]?, cl.user ≠ none ∨
        o.target.expected_identity = defaultUser) ∧
      ∀ ws ∈ packCommand args, ¬ChangesUser ws
  | _ => True

/-- Every session keeps its identity. -/
structure Callers.Identified (st : Callers) : Prop where
  wired : st.Wired
  kept : ∀ o ∈ st.sessions, o.Kept st.redis

theorem identified_initial : Callers.initial.Identified where
  wired := wired_initial
  kept := by simp [Callers.initial]

/-- **One call** keeps the identity of the sessions there were. -/
theorem Callers.Identified.kept_step (h : st.Identified) (he : Effect U handshake st call st')
    (hsteady : Steady U st call) {o : Opened} (ho : o ∈ st.sessions) : o.Kept st'.redis := by
  have hlt := h.wired.lt ho
  have hkept := h.kept o ho
  cases he with
  | own sessions redis =>
    rcases redis with redis | ⟨host, port, user, htouch⟩
    · rw [redis]
      exact hkept
    · exact (hkept.withClient hlt host port user).touches htouch (by omega)
  | opened asked sessions redis =>
    obtain ⟨user, -, hclients⟩ := redis.clients
    obtain ⟨ws, -, hsent⟩ := redis.sent
    refine ⟨?_, fun cl hcl => ?_, fun e he hclient => ?_⟩
    · rw [hsent, List.length_append]
      exact Nat.le_add_right_of_le hkept.since
    · rw [hclients, List.getElem?_append_left hlt] at hcl
      exact hkept.user cl hcl
    · rw [hsent, List.drop_append_of_le_length hkept.since, List.mem_append] at he
      rcases he with he | he
      · exact hkept.sent e he hclient
      · -- the new client is another one
        simp only [List.mem_cons, List.not_mem_nil, or_false] at he
        rcases he with rfl | rfl <;> exact absurd hclient.symm hlt.ne
  | @ran i o' args _ session sessions redis =>
    rcases redis with redis | ⟨hopen, hok, answer, hanswer⟩
    · rw [redis]
      exact hkept
    by_cases hc : o.session.client = o'.session.client
    · obtain rfl := h.wired.eq_of_client ho (List.mem_of_getElem? session) hc
      obtain ⟨hlive, hchanges⟩ := hsteady o session hopen hok
      generalize st'.redis = r' at hanswer ⊢
      cases hanswer with
      | @executed _ _ _ cl _ _ _ hcl hws huser _ _ =>
        refine (hkept.reopen handshake _ cl).executed ?_ (hlive _ hcl) ?_
        · rwa [Redis.clients_reopen]
        rcases huser with huser | huser | huser
        · exact .inl huser
        · exact .inr huser
        · exact absurd huser (hchanges _ hws)
      | unsent _ hr =>
        rcases hr with hr | hr | ⟨cl, commands, -, -, -, hr⟩
        · rw [hr]
          exact hkept
        · rw [hr]
          exact hkept.lost _
        · rw [hr]
          exact hkept.greet _ _ _ _
    · exact hkept.touches (touches_of_execute hanswer) hc
  | closed session sessions redis =>
    rcases redis with redis | redis
    · rw [redis]
      exact hkept
    · rw [redis]
      exact hkept.lost _
  | lost sessions redis =>
    rw [redis]
    exact hkept.lost _

theorem Callers.Identified.step (h : st.Identified) (he : Effect U handshake st call st')
    (hsteady : Steady U st call) : st'.Identified := by
  -- the sessions there were, closed or not
  have hold : ∀ o', (∃ o ∈ st.sessions, o' = o ∨ o' = o.close) → o'.Kept st'.redis := by
    rintro o' ⟨o, ho, rfl | rfl⟩
    · exact h.kept_step he hsteady ho
    · have hkept := h.kept_step he hsteady ho
      exact ⟨hkept.since, hkept.user, hkept.sent⟩
  refine ⟨h.wired.step he, fun o' ho' => ?_⟩
  cases he with
  | own sessions redis => exact hold o' ⟨o', sessions ▸ ho', .inl rfl⟩
  | opened asked sessions redis =>
    rw [sessions, List.mem_append, List.mem_singleton] at ho'
    rcases ho' with ho' | rfl
    · exact hold o' ⟨o', ho', .inl rfl⟩
    · -- the new session: its connection was confirmed, and nothing was sent since
      obtain ⟨user, confirmed, hclients⟩ := redis.clients
      refine ⟨le_refl _, fun cl hcl => ?_, fun e he => ?_⟩
      · rw [hclients] at hcl
        obtain rfl : _ = cl := Option.some.inj (List.getElem?_concat_length.symm.trans hcl)
        exact confirmed
      · rw [List.drop_length] at he
        cases he
  | ran session sessions redis => exact hold o' ⟨o', sessions ▸ ho', .inl rfl⟩
  | closed session sessions redis => exact hold o' (mem_modify_close (sessions ▸ ho'))
  | lost sessions redis => exact hold o' ⟨o', sessions ▸ ho', .inl rfl⟩

/-- **A session keeps its identity**, in runs whose calls are `Steady`. -/
theorem identity_kept (U : Unicode) (handshake : Handshake) {st : Callers}
    (h : ReachedUnder U handshake (Steady U) .initial st) :
    ∀ o ∈ st.sessions, ∀ e ∈ st.redis.sent.drop o.since, e.client = o.session.client →
      e.user = o.target.expected_identity := by
  have hidentified : st.Identified := by
    induction h with
    | refl => exact identified_initial
    | tail _ hstep ih =>
      obtain ⟨call, hstep, hsteady⟩ := hstep
      exact ih.step (effect_of_step hstep) hsteady
  exact fun o ho => (hidentified.kept o ho).sent

/-! ## A lost connection -/

/-- The connection of a session is lost, and `PING` is executed as `default`. -/
theorem ping_as_default : ¬∀ (U : Unicode) (st : Callers),
    Reached U Sample.clientSetinfo .initial st → ∀ o ∈ st.sessions,
      ∀ e ∈ st.redis.sent.drop o.since, e.client = o.session.client →
      e.user = o.target.expected_identity := by
  intro h
  have hlogin := apiStep_loggedIn (U := Sample.unicode) Sample.clientSetinfo rfl
    Sample.packCommand_auth
  have hlost := apiStep_lost Sample.unicode Sample.clientSetinfo Sample.target Sample.authWords
    (some Sample.target.expected_identity)
  obtain ⟨st, hping, o, ho, htarget, e, he, hclient, huser⟩ :=
    apiStep_ping Sample.unicode Sample.clientSetinfo Sample.target Sample.authWords none
  have hreached : Reached Sample.unicode Sample.clientSetinfo .initial st :=
    ((Relation.ReflTransGen.single ⟨_, hlogin, trivial⟩).tail ⟨_, hlost, trivial⟩).tail
      ⟨_, hping, trivial⟩
  have hkept := h _ st hreached o ho e he hclient
  rw [huser, htarget] at hkept
  have hne : defaultUser ≠ Sample.target.expected_identity := by decide
  exact hne hkept

/-- The connection of a session is not lost, and `PING` is executed as the identity expected. -/
theorem identity_kept_ping : ∃ st,
    ReachedUnder Sample.unicode Sample.clientSetinfo (Steady Sample.unicode) .initial st ∧
      ∃ o ∈ st.sessions, ∃ e ∈ st.redis.sent.drop o.since, e.client = o.session.client ∧
      e.user = o.target.expected_identity := by
  have hlogin := apiStep_loggedIn (U := Sample.unicode) Sample.clientSetinfo rfl
    Sample.packCommand_auth
  obtain ⟨st, hping, o, ho, -, e, he, hclient, -⟩ :=
    apiStep_ping Sample.unicode Sample.clientSetinfo Sample.target Sample.authWords
      (some Sample.target.expected_identity)
  have hsteady : Steady Sample.unicode (.loggedIn Sample.clientSetinfo Sample.target Sample.authWords
      (some Sample.target.expected_identity)) (some (.run 0 [.str (str "PING")])) := by
    intro o ho _ _
    cases ho
    refine ⟨fun cl hcl => ?_, fun ws hws => ?_⟩
    · cases hcl
      left
      intro hnone
      cases hnone
    · have hping : packCommand [.str (str "PING")] = some [utf8Bytes (str "PING")] := by
        decide
      rw [hping] at hws
      cases hws
      unfold ChangesUser
      decide
  have hreached : ReachedUnder Sample.unicode Sample.clientSetinfo (Steady Sample.unicode) .initial
      st :=
    (Relation.ReflTransGen.single ⟨_, hlogin, trivial⟩).tail ⟨_, hping, hsteady⟩
  exact ⟨st, hreached, o, ho, e, he, hclient,
    identity_kept Sample.unicode Sample.clientSetinfo hreached o ho e he hclient⟩

end RedisAcl

end SecurityAudit
