import SecurityAudit.RedisAcl.Effects
import SecurityAudit.RedisAcl.Scenarios

/-!
# A production session on the wire

What the module sends on the client of a production session is `AUTH` and then nothing that a server
could recognise but `ACL WHOAMI`, `PING` and `INFO` (`Confined`). The invariant speaks about the log
of the client, so it says the order too; that nothing follows a `close` is a statement about two
states of a run.

The connection itself is confined only if redis-py sends nothing of its own on it: the client
connects when it is constructed, so its handshake comes before `AUTH` (`production_confined`).
-/

namespace SecurityAudit

namespace RedisAcl

variable {U : Unicode} {handshake : Handshake} {st st' : Callers} {call : Option ApiCall}

/-- Whatever a server recognises in these words is on the production allowlist. -/
def OnAllowlist (ws : List (List (Fin 256))) : Prop :=
  ∀ (T : ServerCommands), ∀ d ∈ T.commands, Begins ws d →
    ∃ cmd ∈ productionAllowedCommands, Begins ws cmd

/-- `AUTH` first, and then only what is on the allowlist. -/
def Confined (sent : List Sent) : Prop :=
  ∃ auth rest, sent = auth :: rest ∧ Begins auth.words [str "AUTH"] ∧
    ∀ e ∈ rest, OnAllowlist e.words ∧ ¬Begins e.words [str "AUTH"]

/-- `AUTH` is a command, and not on the allowlist. -/
theorem OnAllowlist.not_auth {ws : List (List (Fin 256))} (h : OnAllowlist ws) :
    ¬Begins ws [str "AUTH"] := by
  intro hauth
  let T : ServerCommands := {
    commands := {[str "AUTH"]}
    isCommand := by
      rintro cmd rfl
      decide
    acl_not_mem := by
      show [str "ACL"] ≠ [str "AUTH"]
      decide }
  obtain ⟨cmd, hcmd, hbegins⟩ := h T _ rfl hauth
  have hnone : ∀ cmd ∈ productionAllowedCommands,
      ¬(cmd <+: [str "AUTH"] ∨ [str "AUTH"] <+: cmd) := by
    decide
  exact hnone cmd hcmd (hbegins.comparable hauth)

theorem OnAllowlist.confined_snoc {sent new : List Sent} (h : Confined sent)
    (hnew : ∀ e ∈ new, OnAllowlist e.words) : Confined (sent ++ new) := by
  obtain ⟨auth, rest, rfl, hauth, hrest⟩ := h
  refine ⟨auth, rest ++ new, rfl, hauth, fun e he => ?_⟩
  rcases List.mem_append.mp he with he | he
  · exact hrest e he
  · exact ⟨hnew e he, (hnew e he).not_auth⟩

theorem onAllowlist_whoami : OnAllowlist whoamiWords := by
  intro T d hd hbegins
  have hmem : [str "ACL", str "WHOAMI"] ∈ productionAllowedCommands := by decide
  have hwhoami : Begins whoamiWords [str "ACL", str "WHOAMI"] := by decide
  exact ⟨_, hmem, hwhoami⟩

/-! ## What other clients see -/

/-- A call is seen on the client of a session only if it is a command run through that session. -/
theorem wireOn_step (h : st.Wired) (he : Effect U handshake st call st') {o : Opened}
    (ho : o ∈ st.sessions) :
    st'.redis.wireOn o.session.client = st.redis.wireOn o.session.client ∨
    ∃ i args, call = some (.run i args) ∧ o.session.closed = false ∧
      o.session.gate.authorize U args = .ok () ∧
      Touches handshake (fun a => a = args) o.session.client st.redis st'.redis := by
  have hlt := h.lt ho
  cases he with
  | own sessions redis =>
    rcases redis with redis | ⟨host, port, user, htouch⟩
    · exact .inl (by rw [redis])
    · exact .inl (htouch.wireOn_of_ne (by omega))
  | @opened target _ _ _ _ _ asked sessions redis =>
    left
    obtain ⟨more, hwire, hmore⟩ := redis.wire
    -- all of the login was on another client
    have hnone : (handshake.map (Sent.greeting st.redis.clients.length target.host target.port) ++
        more).filter (fun e => e.client = o.session.client) = [] := by
      rw [List.filter_eq_nil_iff]
      intro e he
      have hclient : e.client = st.redis.clients.length := by
        rcases List.mem_append.mp he with he | he
        · obtain ⟨ws, -, rfl⟩ := List.mem_map.mp he
          rfl
        · exact (hmore e he).1
      simp only [decide_eq_true_eq]
      omega
    rw [Redis.wireOn, hwire, List.filter_append, hnone, List.append_nil, Redis.wireOn]
  | @ran i o' args _ session sessions redis =>
    rcases redis with redis | ⟨hclosed, hok, answer, hanswer⟩
    · exact .inl (by rw [redis])
    · have htouch := touches_of_execute hanswer
      by_cases hc : o.session.client = o'.session.client
      · obtain rfl := h.eq_of_client ho (List.mem_of_getElem? session) hc
        exact .inr ⟨i, args, rfl, hclosed, hok, htouch⟩
      · exact .inl (htouch.wireOn_of_ne hc)
  | closed session sessions redis =>
    left
    rcases redis with redis | redis
    · rw [redis]
    · rw [redis]
      rfl
  | lost sessions redis =>
    left
    rw [redis]
    rfl

/-- On the client of a session only ever more is on the wire. -/
theorem wireOn_prefix_step (h : st.Wired) (he : Effect U handshake st call st') {o : Opened}
    (ho : o ∈ st.sessions) :
    st.redis.wireOn o.session.client <+: st'.redis.wireOn o.session.client := by
  rcases wireOn_step h he ho with hsame | ⟨_, _, -, -, -, htouch⟩
  · rw [hsame]
  · obtain ⟨new, hwire, -⟩ := htouch.wire
    rw [Redis.wireOn, Redis.wireOn, hwire, List.filter_append]
    exact List.prefix_append _ _

/-! ## The invariant -/

/-- The production sessions have the production gate, and what was sent on them is confined. What was
not sent is of the handshake, and on every session the handshake came first. -/
structure Callers.Production (handshake : Handshake) (st : Callers) : Prop where
  wired : st.Wired
  gate : ∀ o ∈ st.sessions, o.production = true → o.session.gate = .productionValidator
  confined : ∀ o ∈ st.sessions, o.production = true →
    Confined (st.redis.sentOn o.session.client)
  greeting : ∀ e ∈ st.redis.wire, e.handshake = true → e.words ∈ handshake
  greeted : ∀ o ∈ st.sessions, ∃ host port,
    handshake.map (Sent.greeting o.session.client host port) <+:
      st.redis.wireOn o.session.client

theorem production_initial : Callers.initial.Production handshake where
  wired := wired_initial
  gate := by simp [Callers.initial]
  confined := by simp [Callers.initial]
  greeting := by simp [Callers.initial]
  greeted := by simp [Callers.initial]

/-- A session that was there stays confined. -/
theorem Callers.Production.confined_step (h : st.Production handshake)
    (he : Effect U handshake st call st') {o : Opened} (ho : o ∈ st.sessions)
    (hprod : o.production = true) : Confined (st'.redis.sentOn o.session.client) := by
  rcases wireOn_step h.wired he ho with hsame | ⟨i, args, -, -, hok, htouch⟩
  · rw [Redis.sentOn_eq, hsame, ← Redis.sentOn_eq]
    exact h.confined o ho hprod
  · obtain ⟨new, hsent, hnew⟩ := htouch.sent
    rw [Redis.sentOn, hsent, List.filter_append]
    refine OnAllowlist.confined_snoc (h.confined o ho hprod) fun e he => ?_
    obtain ⟨-, -, args', rfl, hpack⟩ := hnew e (List.mem_of_mem_filter he)
    rw [h.gate o ho hprod] at hok
    exact fun T d hd hbegins => production_wire hok hpack hd hbegins

/-- What touching a client puts on the wire and was not asked for is of the handshake. -/
theorem Touches.keeps_greeting {A : List Arg → Prop} {c : ℕ} {r r' : Redis}
    (h : Touches handshake A c r r') (hr : ∀ e ∈ r.wire, e.handshake = true → e.words ∈ handshake) :
    ∀ e ∈ r'.wire, e.handshake = true → e.words ∈ handshake := by
  obtain ⟨new, hwire, hnew⟩ := h.wire
  intro e he hgreeting
  rw [hwire, List.mem_append] at he
  rcases he with he | he
  · exact hr e he hgreeting
  · obtain ⟨-, -, ⟨-, hmem⟩ | ⟨hasked, -⟩⟩ := hnew e he
    · exact hmem
    · rw [hasked] at hgreeting
      cases hgreeting

/-- Every call keeps what is on the wire and was not asked for. -/
theorem Callers.Production.greeting_step (h : st.Production handshake)
    (he : Effect U handshake st call st') :
    ∀ e ∈ st'.redis.wire, e.handshake = true → e.words ∈ handshake := by
  have hsame : st'.redis.wire = st.redis.wire →
      ∀ e ∈ st'.redis.wire, e.handshake = true → e.words ∈ handshake := by
    intro hwire
    rw [hwire]
    exact h.greeting
  cases he with
  | own sessions redis =>
    rcases redis with redis | ⟨host, port, user, htouch⟩
    · exact hsame (by rw [redis])
    · exact htouch.keeps_greeting h.greeting
  | opened asked sessions redis =>
    obtain ⟨more, hwire, hmore⟩ := redis.wire
    intro e he hgreeting
    rw [hwire, List.mem_append, List.mem_append, List.mem_map] at he
    rcases he with he | ⟨ws, hws, rfl⟩ | he
    · exact h.greeting e he hgreeting
    · exact hws
    · exact (hmore e he).2 hgreeting
  | ran session sessions redis =>
    rcases redis with redis | ⟨-, -, answer, hanswer⟩
    · exact hsame (by rw [redis])
    · exact (touches_of_execute hanswer).keeps_greeting h.greeting
  | closed session sessions redis =>
    rcases redis with redis | redis
    · exact hsame (by rw [redis])
    · exact hsame (by rw [redis]; rfl)
  | lost sessions redis => exact hsame (by rw [redis]; rfl)

/-- A session that a login opened: the handshake came first, and of the rest the module asked for
`AUTH` and `ACL WHOAMI`. -/
theorem LoggedIn.new (h : st.Wired) {target : Target} {r' : Redis}
    (hlogin : LoggedIn handshake target st.redis r') :
    Confined (r'.sentOn st.redis.clients.length) ∧
      handshake.map (Sent.greeting st.redis.clients.length target.host target.port) <+:
        r'.wireOn st.redis.clients.length := by
  have hnew := h.wireOn_new
  constructor
  · obtain ⟨ws, hauth, hsent⟩ := hlogin.sent
    have hnone : st.redis.sentOn st.redis.clients.length = [] := by
      rw [Redis.sentOn_eq, hnew, List.filter_nil]
    rw [Redis.sentOn] at hnone
    rw [Redis.sentOn, hsent, List.filter_append, hnone, List.nil_append]
    simp only [Sent.asked, List.filter_cons, decide_true, if_true, List.filter_nil]
    refine ⟨_, _, rfl, begins_auth hauth, fun e he => ?_⟩
    obtain rfl := List.mem_singleton.mp he
    exact ⟨onAllowlist_whoami, onAllowlist_whoami.not_auth⟩
  · obtain ⟨more, hwire, -⟩ := hlogin.wire
    have hall : (handshake.map (Sent.greeting st.redis.clients.length target.host
        target.port)).filter (fun e => e.client = st.redis.clients.length) =
          handshake.map (Sent.greeting st.redis.clients.length target.host target.port) := by
      rw [List.filter_eq_self]
      intro e he
      obtain ⟨ws, -, rfl⟩ := List.mem_map.mp he
      exact decide_eq_true rfl
    rw [Redis.wireOn] at hnew
    rw [Redis.wireOn, hwire, List.filter_append, hnew, List.nil_append, List.filter_append, hall]
    exact List.prefix_append _ _

theorem Callers.Production.step (h : st.Production handshake)
    (he : Effect U handshake st call st') : st'.Production handshake := by
  -- the sessions there were, closed or not
  have hold : ∀ o' ∈ st'.sessions, (∃ o ∈ st.sessions, o' = o ∨ o' = o.close) →
      (o'.production = true → o'.session.gate = .productionValidator ∧
        Confined (st'.redis.sentOn o'.session.client)) ∧
      ∃ host port, handshake.map (Sent.greeting o'.session.client host port) <+:
        st'.redis.wireOn o'.session.client := by
    rintro o' - ⟨o, ho, hclose⟩
    have hfields : o'.production = o.production ∧ o'.session.gate = o.session.gate ∧
        o'.session.client = o.session.client := by
      rcases hclose with rfl | rfl <;> exact ⟨rfl, rfl, rfl⟩
    obtain ⟨hproduction, hgate, hclient⟩ := hfields
    rw [hproduction, hgate, hclient]
    obtain ⟨host, port, hgreeted⟩ := h.greeted o ho
    exact ⟨fun hprod => ⟨h.gate o ho hprod, h.confined_step he ho hprod⟩,
      host, port, hgreeted.trans (wireOn_prefix_step h.wired he ho)⟩
  suffices H : ∀ o' ∈ st'.sessions,
      (o'.production = true → o'.session.gate = .productionValidator ∧
        Confined (st'.redis.sentOn o'.session.client)) ∧
      ∃ host port, handshake.map (Sent.greeting o'.session.client host port) <+:
        st'.redis.wireOn o'.session.client from
    ⟨h.wired.step he, fun o' ho' hprod => ((H o' ho').1 hprod).1,
      fun o' ho' hprod => ((H o' ho').1 hprod).2, h.greeting_step he, fun o' ho' => (H o' ho').2⟩
  intro o' ho'
  cases he with
  | own sessions redis => exact hold o' ho' ⟨o', sessions ▸ ho', .inl rfl⟩
  | @opened target gate environment production _ _ asked sessions redis =>
    rw [sessions, List.mem_append, List.mem_singleton] at ho'
    rcases ho' with ho' | rfl
    · exact hold o' (by rw [sessions]; simp [ho']) ⟨o', ho', .inl rfl⟩
    · obtain ⟨hconfined, hgreeted⟩ := redis.new h.wired
      refine ⟨fun hprod => ⟨?_, hconfined⟩, _, _, hgreeted⟩
      rcases asked with ⟨-, hfalse, -⟩ | ⟨-, -, hgate, -⟩
      · rw [hfalse] at hprod
        cases hprod
      · exact hgate
  | ran session sessions redis => exact hold o' ho' ⟨o', sessions ▸ ho', .inl rfl⟩
  | closed session sessions redis => exact hold o' ho' (mem_modify_close (sessions ▸ ho'))
  | lost sessions redis => exact hold o' ho' ⟨o', sessions ▸ ho', .inl rfl⟩

/-- The connection of a production session is confined exactly if redis-py sends nothing of its own
on it. -/
theorem Callers.Production.confined_wire_iff (h : st.Production handshake)
    (hauth : ∀ ws ∈ handshake.head?, ¬Begins ws [str "AUTH"]) {o : Opened} (ho : o ∈ st.sessions)
    (hprod : o.production = true) :
    Confined (st.redis.wireOn o.session.client) ↔ handshake = [] := by
  constructor
  · intro ⟨auth, rest, hwire, hbegins, _⟩
    cases handshake with
    | nil => rfl
    | cons ws commands =>
      -- the first command of the handshake was the first on the wire
      obtain ⟨host, port, more, hgreeted⟩ := h.greeted o ho
      rw [hwire, List.map_cons, List.cons_append] at hgreeted
      obtain ⟨hfirst, -⟩ := List.cons.inj hgreeted
      rw [← hfirst] at hbegins
      exact absurd hbegins (hauth ws rfl)
  · rintro rfl
    have hasked : (st.redis.wireOn o.session.client).filter (fun e => e.handshake = false) =
        st.redis.wireOn o.session.client := by
      rw [List.filter_eq_self]
      intro e he
      have hnot : ¬e.handshake = true := fun hgreeting => by
        cases h.greeting e (List.mem_filter.mp he).1 hgreeting
      simpa using hnot
    rw [← hasked, ← Redis.sentOn_eq]
    exact h.confined o ho hprod

/-! ## Runs -/

theorem Callers.Production.reached (h : st.Production handshake)
    (hr : Reached U handshake st st') : st'.Production handshake := by
  induction hr with
  | refl => exact h
  | tail _ hstep ih =>
    obtain ⟨call, hstep, -⟩ := hstep
    exact ih.step (effect_of_step hstep)

/-- A closed session stays closed, and nothing more is on the wire of its client. -/
theorem closed_reached (h : st.Production handshake) (hr : Reached U handshake st st') {o : Opened}
    (ho : o ∈ st.sessions) (hclosed : o.session.closed = true) :
    (∃ o' ∈ st'.sessions, o'.session.client = o.session.client ∧ o'.session.closed = true) ∧
      st'.redis.wireOn o.session.client = st.redis.wireOn o.session.client := by
  induction hr with
  | refl => exact ⟨⟨o, ho, rfl, hclosed⟩, rfl⟩
  | @tail u v hu hstep ih =>
    obtain ⟨call, hstep, -⟩ := hstep
    obtain ⟨⟨o', ho', hclient, hclosed'⟩, hwire⟩ := ih
    have heffect := effect_of_step hstep
    have hwired := (h.reached hu).wired
    constructor
    · obtain ⟨o'', ho'', rfl | rfl⟩ := sessions_kept heffect ho'
      · exact ⟨o'', ho'', hclient, hclosed'⟩
      · exact ⟨o'.close, ho'', hclient, rfl⟩
    · rcases wireOn_step hwired heffect ho' with hsame | ⟨i, args, -, hopen, -⟩
      · rw [← hclient, hsame, hclient, hwire]
      · rw [hclosed'] at hopen
        cases hopen

/-- **A production session is confined on the wire exactly if redis-py has no handshake.** In every
state that calls of the module lead to: what is on the wire of the connection of a production session
is `AUTH`, and then nothing a server recognises but `ACL WHOAMI`, `PING` and `INFO`, if and only if
redis-py sends nothing of its own on a connection it opens. Whether it does or not, what the module
asks for is confined so; nothing is on the wire of a session after it was closed; and a command that
is refused sends nothing. -/
theorem production_confined (U : Unicode) (handshake : Handshake)
    (hauth : ∀ ws ∈ handshake.head?, ¬Begins ws [str "AUTH"]) {st : Callers}
    (h : Reached U handshake .initial st) :
    (∀ o ∈ st.sessions, o.production = true →
      (Confined (st.redis.wireOn o.session.client) ↔ handshake = []) ∧
      Confined (st.redis.sentOn o.session.client)) ∧
    (∀ st', Reached U handshake st st' → ∀ o ∈ st.sessions, o.session.closed = true →
      st'.redis.wireOn o.session.client = st.redis.wireOn o.session.client) ∧
    ∀ o ∈ st.sessions, ∀ args,
      (o.session.closed = true ∨ o.session.gate.authorize U args ≠ .ok ()) →
      ∀ q r', Solo (redisWorld handshake) (o.session.run U args) st.redis q r' →
        r' = st.redis := by
  have hprod := production_initial.reached h
  refine ⟨fun o ho hproduction => ⟨hprod.confined_wire_iff hauth ho hproduction,
      hprod.confined o ho hproduction⟩,
    fun st' hr o ho hclosed => (closed_reached hprod hr ho hclosed).2,
    fun o _ args href q r' hrun => ?_⟩
  rcases run_cases hrun with hsame | ⟨hopen, hok, -⟩
  · exact hsame
  · rcases href with hclosed | href
    · rw [hclosed] at hopen
      cases hopen
    · exact absurd hok href

/-- A production session is opened, by a client without a handshake and by one of redis-py 5: the
connection is confined in the first case only, and what the module asks for is in both. -/
theorem production_confined_login :
    (∃ st, Reached Sample.unicode [] .initial st ∧ ∃ o ∈ st.sessions, o.production = true ∧
      Confined (st.redis.wireOn o.session.client)) ∧
    ∃ st, Reached Sample.unicode Sample.clientSetinfo .initial st ∧ ∃ o ∈ st.sessions,
      o.production = true ∧ ¬Confined (st.redis.wireOn o.session.client) ∧
        Confined (st.redis.sentOn o.session.client) := by
  have hreached : ∀ handshake : Handshake, Reached Sample.unicode handshake .initial
      (.loggedIn handshake Sample.target Sample.authWords
        (some Sample.target.expected_identity)) := fun handshake =>
    .single ⟨_, apiStep_loggedIn handshake rfl Sample.packCommand_auth, trivial⟩
  constructor
  · refine ⟨_, hreached [], _, List.mem_singleton_self _, rfl, ?_⟩
    obtain ⟨hconfined, -⟩ := (production_confined Sample.unicode [] (by simp) (hreached [])).1 _
      (List.mem_singleton_self _) rfl
    exact hconfined.mpr rfl
  · refine ⟨_, hreached Sample.clientSetinfo, _, List.mem_singleton_self _, rfl, ?_⟩
    obtain ⟨hconfined, hsent⟩ := (production_confined Sample.unicode Sample.clientSetinfo
      (by decide) (hreached _)).1 _ (List.mem_singleton_self _) rfl
    exact ⟨fun h => absurd (hconfined.mp h) (by decide), hsent⟩

/-- `CLIENT SETINFO` comes before `AUTH` on the connection of a production session. -/
theorem setinfo_before_auth : ¬∀ (U : Unicode) (st : Callers),
    Reached U Sample.clientSetinfo .initial st → ∀ o ∈ st.sessions, o.production = true →
      Confined (st.redis.wireOn o.session.client) := by
  intro h
  have hstep := apiStep_loggedIn (U := Sample.unicode) Sample.clientSetinfo rfl
    Sample.packCommand_auth
  obtain ⟨auth, rest, hwire, hbegins, -⟩ := h Sample.unicode _
    (.single ⟨_, hstep, trivial⟩) _ (List.mem_singleton_self _) rfl
  -- the first command on the wire
  obtain ⟨hfirst, -⟩ := List.cons.inj hwire
  rw [← hfirst] at hbegins
  have hsetinfo : ∀ ws ∈ Sample.clientSetinfo.head?, ¬Begins ws [str "AUTH"] := by decide
  exact hsetinfo _ rfl hbegins

end RedisAcl

end SecurityAudit
