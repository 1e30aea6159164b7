import SecurityAudit.RedisAcl.Confinement

/-!
# Where dangerous commands go

The gate, the environment and the endpoint are separate arguments of `authenticate`, and no gate
remembers the endpoint it was built for. So a `DisposableNegativeTestGate` built for a disposable
instance lets `FLUSHALL` through to the production one (`negative_gate_on_production`). In runs in
which a session with that gate is only opened to an endpoint that was classified, and in which no
dangerous command is hidden in the first argument of `run` (`Bound`), dangerous commands reach
classified endpoints only (`dangerous_only_disposable`).
-/

namespace SecurityAudit

namespace RedisAcl

variable {U : Unicode} {handshake : Handshake} {st st' : Callers} {call : Option ApiCall}

/-! ## Commands that are not dangerous -/

/-- Words that begin with a command apart from the denylist are not dangerous. -/
theorem not_dangerous_of_begins {ws : List (List (Fin 256))} {cmd : List Str}
    (hbegins : Begins ws cmd) (hcmd : ∀ d ∈ dangerousCommands, ¬(d <+: cmd ∨ cmd <+: d)) :
    ¬Dangerous ws := by
  rintro ⟨d, hd, h⟩
  exact hcmd d hd (h.comparable hbegins)

theorem not_dangerous_auth {ws : List (List (Fin 256))} (h : Begins ws [str "AUTH"]) :
    ¬Dangerous ws :=
  not_dangerous_of_begins h (by decide)

theorem not_dangerous_whoami : ¬Dangerous whoamiWords := by
  decide

/-- Neither is what the module sends of its own. -/
theorem IsOwn.not_dangerous {args : List Arg} {ws : List (List (Fin 256))} (h : IsOwn args)
    (hpack : packCommand args = some ws) : ¬Dangerous ws := by
  rcases h with ⟨key, rfl⟩ | ⟨username, password, rfl⟩ | rfl
  · exact not_dangerous_of_begins (begins_get hpack) (by decide)
  · exact not_dangerous_auth (begins_auth hpack)
  · rw [packCommand_whoami] at hpack
    cases hpack
    exact not_dangerous_whoami

/-- Nor what the production gate lets through. -/
theorem not_dangerous_production {args : List Arg} {ws : List (List (Fin 256))}
    (hok : authorizeProduction U args = .ok ()) (hpack : packCommand args = some ws) :
    ¬Dangerous ws := by
  rintro ⟨d, hd, hbegins⟩
  have hacl : [str "ACL"] ∉ dangerousCommands := by decide
  let T : ServerCommands := ⟨{cmd | cmd ∈ dangerousCommands}, dangerous_isCommand, hacl⟩
  obtain ⟨cmd, hcmd, hbegins'⟩ := production_wire (T := T) hok hpack hd hbegins
  have hnone : ∀ cmd ∈ productionAllowedCommands, ∀ d ∈ dangerousCommands,
      ¬(d <+: cmd ∨ cmd <+: d) := by
    decide
  exact hnone cmd hcmd d hd (hbegins.comparable hbegins')

/-! ## What a call adds to the log -/

/-- What a call sends is harmless, or it is a command run through a session, at its endpoint. -/
theorem sent_step (h : st.Wired) (he : Effect U handshake st call st') :
    ∃ new, st'.redis.sent = st.redis.sent ++ new ∧ ∀ e ∈ new, ¬Dangerous e.words ∨
      ∃ i args, call = some (.run i args) ∧ ∃ o, st.sessions[i]? = some o ∧
        o.session.closed = false ∧ e.host = o.target.host ∧ e.port = o.target.port ∧
        o.session.gate.authorize U args = .ok () ∧ packCommand args = some e.words := by
  cases he with
  | own sessions redis =>
    rcases redis with redis | ⟨host, port, user, htouch⟩
    · exact ⟨[], by rw [redis, List.append_nil], by simp⟩
    · obtain ⟨new, hsent, hnew⟩ := htouch.sent
      refine ⟨new, hsent, fun e he => .inl ?_⟩
      obtain ⟨-, -, args, hown, hpack⟩ := hnew e he
      exact hown.not_dangerous hpack
  | opened asked sessions redis =>
    obtain ⟨ws, auth, hsent⟩ := redis.sent
    refine ⟨_, hsent, fun e he => .inl ?_⟩
    simp only [List.mem_cons, List.not_mem_nil, or_false] at he
    rcases he with rfl | rfl
    · exact not_dangerous_auth (begins_auth auth)
    · exact not_dangerous_whoami
  | @ran i o args _ session sessions redis =>
    rcases redis with redis | ⟨hopen, hok, answer, hanswer⟩
    · exact ⟨[], by rw [redis, List.append_nil], by simp⟩
    · obtain ⟨new, hsent, hnew⟩ := (touches_of_execute hanswer).sent
      refine ⟨new, hsent, fun e he => .inr ?_⟩
      obtain ⟨-, ⟨cl, hcl, hhost, hport⟩, args', rfl, hpack⟩ := hnew e he
      -- the client of the session has the endpoint of the session
      obtain ⟨user, hcl'⟩ := h.clients o (List.mem_of_getElem? session)
      rw [hcl'] at hcl
      cases hcl
      exact ⟨i, _, rfl, o, session, hopen, hhost, hport, hok, hpack⟩
  | closed session sessions redis =>
    rcases redis with redis | redis
    · exact ⟨[], by rw [redis, List.append_nil], by simp⟩
    · exact ⟨[], by rw [redis]; exact (List.append_nil _).symm, by simp⟩
  | lost sessions redis => exact ⟨[], by rw [redis]; exact (List.append_nil _).symm, by simp⟩

/-! ## The invariant -/

/-- A negative-test session is opened only to a classified endpoint, and a disposable session whose
endpoint is not classified runs no command that hides a dangerous one in its first argument. -/
def Bound (st : Callers) : Option ApiCall → Prop
  | some (.authenticate target gate _) =>
    gate = .disposableNegativeTestGate → (target.host, target.port) ∈ st.disposable
  | some (.run i args) => ∀ o ∈ st.sessions[i]?, o.session.closed = false →
    o.session.gate = .disposableValidator → HoldsSpace args ∧ FirstDangerous args →
      (o.target.host, o.target.port) ∈ st.disposable
  | _ => True

/-- No classified endpoint has the production port, the negative-test sessions are at classified
endpoints, and so is everything dangerous. -/
structure Callers.Attested (st : Callers) : Prop where
  wired : st.Wired
  port : ∀ p ∈ st.disposable, p.2 ≠ productionPort
  negative : ∀ o ∈ st.sessions, o.session.gate = .disposableNegativeTestGate →
    (o.target.host, o.target.port) ∈ st.disposable
  dangerous : ∀ e ∈ st.redis.sent, Dangerous e.words → (e.host, e.port) ∈ st.disposable

theorem attested_initial : Callers.initial.Attested where
  wired := wired_initial
  port := by simp [Callers.initial]
  negative := by simp [Callers.initial]
  dangerous := by simp [Callers.initial, Redis.sent]

/-- Classified endpoints stay classified, and none has the production port. -/
theorem disposable_step (h : ApiStep U handshake st call st')
    (hport : ∀ p ∈ st.disposable, p.2 ≠ productionPort) :
    st.disposable ⊆ st'.disposable ∧ ∀ p ∈ st'.disposable, p.2 ≠ productionPort := by
  have hcons : ∀ host port, port ≠ productionPort →
      st.disposable ⊆ (host, port) :: st.disposable ∧
        ∀ p ∈ (host, port) :: st.disposable, p.2 ≠ productionPort := by
    intro host port hne
    refine ⟨List.subset_cons_self _ _, fun p hp => ?_⟩
    rcases List.mem_cons.mp hp with rfl | hp
    · exact hne
    · exact hport p hp
  cases h with
  | @classify host port attestation environment r h =>
    by_cases henv : environment = .disposable
    · subst henv
      exact hcons _ _ (classify_ret h)
    · show st.disposable ⊆ (if environment = .disposable then _ else _) ∧
        ∀ p ∈ (if environment = .disposable then _ else _), _
      rw [if_neg henv]
      exact ⟨List.Subset.refl _, hport⟩
  | disposableValidator h => exact hcons _ _ (requireDisposable_ret h).2
  | disposableNegativeTestGate h => exact hcons _ _ (requireDisposable_ret h).2
  | productionValidator => exact ⟨List.Subset.refl _, hport⟩
  | authenticate => exact ⟨List.Subset.refl _, hport⟩
  | authenticateProduction => exact ⟨List.Subset.refl _, hport⟩
  | close => exact ⟨List.Subset.refl _, hport⟩
  | other => exact ⟨List.Subset.refl _, hport⟩
  | lost => exact ⟨List.Subset.refl _, hport⟩

/-- A session that a call opens has the gate and the target of that call. -/
theorem sessions_step (he : Effect U handshake st call st') {o' : Opened} (ho' : o' ∈ st'.sessions) :
    (∃ o ∈ st.sessions, o' = o ∨ o' = o.close) ∨
    (∃ environment, call = some (.authenticate o'.target o'.session.gate environment)) ∨
    o'.session.gate = .productionValidator := by
  cases he with
  | own sessions redis => exact .inl ⟨o', sessions ▸ ho', .inl rfl⟩
  | opened asked sessions redis =>
    rw [sessions, List.mem_append, List.mem_singleton] at ho'
    rcases ho' with ho' | rfl
    · exact .inl ⟨o', ho', .inl rfl⟩
    · right
      rcases asked with ⟨rfl, -, -⟩ | ⟨-, -, hgate, -⟩
      · exact .inl ⟨_, rfl⟩
      · exact .inr hgate
  | ran session sessions redis => exact .inl ⟨o', sessions ▸ ho', .inl rfl⟩
  | closed session sessions redis => exact .inl (mem_modify_close (sessions ▸ ho'))
  | lost sessions redis => exact .inl ⟨o', sessions ▸ ho', .inl rfl⟩

/-- **One call.** -/
theorem Callers.Attested.step (h : st.Attested) (hs : ApiStep U handshake st call st')
    (hbound : Bound st call) : st'.Attested := by
  have he := effect_of_step hs
  obtain ⟨hsub, hport⟩ := disposable_step hs h.port
  refine ⟨h.wired.step he, hport, fun o' ho' hgate => ?_, fun e hmem hdanger => ?_⟩
  · rcases sessions_step he ho' with ⟨o, ho, rfl | rfl⟩ | ⟨environment, rfl⟩ | hprod
    · exact hsub (h.negative o' ho hgate)
    · exact hsub (h.negative o ho hgate)
    · exact hsub (hbound hgate)
    · rw [hprod] at hgate
      cases hgate
  · obtain ⟨new, hsent, hnew⟩ := sent_step h.wired he
    rw [hsent, List.mem_append] at hmem
    rcases hmem with hmem | hmem
    · exact hsub (h.dangerous e hmem hdanger)
    rcases hnew e hmem with hharmless |
      ⟨i, args, rfl, o, ho, hopen, hhost, hport, hok, hpack⟩
    · exact absurd hdanger hharmless
    rw [hhost, hport]
    -- what each gate lets through
    cases hgate : o.session.gate with
    | productionValidator =>
      rw [hgate] at hok
      exact absurd hdanger (not_dangerous_production hok hpack)
    | disposableNegativeTestGate => exact hsub (h.negative o (List.mem_of_getElem? ho) hgate)
    | disposableValidator =>
      rw [hgate] at hok
      by_cases hhidden : HoldsSpace args ∧ FirstDangerous args
      · exact hsub (hbound o ho hopen hgate hhidden)
      · exact absurd hdanger ((disposable_gate_iff U args).mpr hhidden hok _ hpack)

/-- **Dangerous commands reach disposable endpoints only**, in runs whose calls are `Bound`. -/
theorem dangerous_only_disposable (U : Unicode) (handshake : Handshake) {st : Callers}
    (h : ReachedUnder U handshake Bound .initial st) :
    ∀ e ∈ st.redis.sent, Dangerous e.words →
      (e.host, e.port) ∈ st.disposable ∧ e.port ≠ productionPort := by
  have hattested : st.Attested := by
    induction h with
    | refl => exact attested_initial
    | tail _ hstep ih =>
      obtain ⟨call, hstep, hbound⟩ := hstep
      exact ih.step hstep hbound
  intro e he hdanger
  have hmem := hattested.dangerous e he hdanger
  exact ⟨hmem, hattested.port _ hmem⟩

/-! ## A gate built for one endpoint and used at another -/

/-- A gate for negative tests is built for an attested endpoint, a session is opened with it to
any endpoint, and `FLUSHALL` is run. -/
theorem exists_flushall (handshake : Handshake) (attestation : DisposableAttestation) (target : Target)
    {getWords authWords : List (List (Fin 256))}
    (hget : packCommand [.str (str "GET"), .str attestation.nonce_key] = some getWords)
    (hauth : packCommand [.str (str "AUTH"), .str target.username, .str target.password] =
      some authWords) :
    ∃ st, ReachedUnder U handshake (fun st call => (target.host, target.port) =
        (attestation.host, attestation.port) → Bound st call) .initial st ∧
      st.disposable = [(attestation.host, attestation.port)] ∧
      ∃ e ∈ st.redis.sent, Dangerous e.words ∧ (e.host, e.port) = (target.host, target.port) := by
  obtain ⟨r, hgate⟩ := solo_negativeTestGate handshake attestation ⟨[], []⟩ hget
  let built : Callers := Callers.initial.built attestation.host attestation.port
    .disposableNegativeTestGate r
  let session : AuthenticatedSession :=
    ⟨.disposable, .disposableNegativeTestGate, r.clients.length, false⟩
  let wire : List Sent :=
    r.wire ++ handshake.map (Sent.greeting r.clients.length target.host target.port) ++
      [.asked r.clients.length target.host target.port authWords defaultUser] ++
      [.asked r.clients.length target.host target.port whoamiWords target.expected_identity]
  let opened : Callers := built.opened session target false
    ⟨r.clients ++ [⟨target.host, target.port, some target.expected_identity⟩], wire⟩
  have hother : ¬Begins [utf8Bytes (str "FLUSHALL")] [str "ACL", str "WHOAMI"] := by
    decide
  have hmem : Gate.disposableNegativeTestGate ∈ built.gates := List.mem_singleton_self _
  -- the three calls
  have hbuilt : ApiStep U handshake .initial _ built := .disposableNegativeTestGate hgate
  have hopened : ApiStep U handshake built _ opened :=
    .authenticate hmem (solo_authenticate target _ .disposable r hauth)
  have hruns : Runs U opened (.run 0 [.str (str "FLUSHALL")]) Reply
    (session.run U [.str (str "FLUSHALL")]) :=
    .run (o := ⟨session, target, false, opened.redis.sent.length⟩) rfl
  have hran := ApiStep.other hruns (solo_run handshake .disposable r.clients
    ⟨target.host, target.port, some target.expected_identity⟩ wire
    authorizeNegativeTest_flushall Sample.packCommand_flushall hother)
  have hboundOpened : (target.host, target.port) = (attestation.host, attestation.port) →
      Bound built (some (.authenticate target .disposableNegativeTestGate .disposable)) := by
    intro heq _
    rw [heq]
    exact List.mem_singleton_self _
  have hboundRan : Bound opened (some (.run 0 [.str (str "FLUSHALL")])) := by
    intro o ho _ hdisposable
    cases ho
    cases hdisposable
  have hdanger : Dangerous [utf8Bytes (str "FLUSHALL")] := by decide
  refine ⟨_, ((Relation.ReflTransGen.single ⟨_, hbuilt, fun _ => trivial⟩).tail
    ⟨_, hopened, hboundOpened⟩).tail ⟨_, hran, fun _ => hboundRan⟩, rfl,
    .asked r.clients.length target.host target.port [utf8Bytes (str "FLUSHALL")]
      target.expected_identity, ?_, hdanger, rfl⟩
  exact List.mem_filter.mpr ⟨List.mem_append_right _ (List.mem_singleton_self _), rfl⟩

/-- `FLUSHALL` reaches the production port. -/
theorem negative_gate_on_production : ¬∀ (U : Unicode) (st : Callers),
    Reached U Sample.clientSetinfo .initial st → ∀ e ∈ st.redis.sent, Dangerous e.words →
      (e.host, e.port) ∈ st.disposable ∧ e.port ≠ productionPort := by
  intro h
  obtain ⟨st, hreached, -, e, he, hdanger, hendpoint⟩ := exists_flushall (U := Sample.unicode)
    Sample.clientSetinfo Sample.attestation Sample.target Sample.packCommand_get
    Sample.packCommand_auth
  exact (h _ st (hreached.mono fun _ _ _ => trivial) e he hdanger).2 (Prod.mk.inj hendpoint).2

/-- On the attested endpoint it is what the gate is for. -/
theorem dangerous_only_disposable_flushall : ∃ st,
    ReachedUnder Sample.unicode Sample.clientSetinfo Bound .initial st ∧
    ∃ e ∈ st.redis.sent, Dangerous e.words ∧
      (e.host, e.port) ∈ st.disposable ∧ e.port ≠ productionPort := by
  obtain ⟨st, hreached, -, e, he, hdanger, -⟩ := exists_flushall (U := Sample.unicode)
    Sample.clientSetinfo Sample.attestation Sample.disposableTarget Sample.packCommand_get
    Sample.packCommand_auth
  have hbound : ReachedUnder Sample.unicode Sample.clientSetinfo Bound .initial st :=
    hreached.mono fun _ _ hbound => hbound rfl
  exact ⟨st, hbound, e, he, hdanger,
    dangerous_only_disposable Sample.unicode Sample.clientSetinfo hbound e he hdanger⟩

end RedisAcl

end SecurityAudit
