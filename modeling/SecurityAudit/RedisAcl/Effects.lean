import SecurityAudit.RedisAcl.Frames

/-!
# What a public call does to the wire

`Effect` lists the ways a public call can change the sessions and the wire; `effect_of_step` is
the only place where the calls are looked at one by one. The invariants of this and the following
files are shown for each way once.
-/

namespace SecurityAudit

namespace RedisAcl

variable {U : Unicode} {handshake : Handshake} {st st' : Callers} {call : Option ApiCall}

/-- What `classify_environment` and `authenticate` send of their own. -/
def IsOwn (args : List Arg) : Prop := IsProbe args ∨ IsLogin args

/-- The session, closed. -/
def Opened.close (o : Opened) : Opened := { o with session := { o.session with closed := true } }

/-- The ways a public call can change the sessions and the wire. -/
inductive Effect (U : Unicode) (handshake : Handshake) (st : Callers) :
    Option ApiCall → Callers → Prop where
  /-- no session is concerned; at most a new client was used -/
  | own {call : Option ApiCall} {st' : Callers} (sessions : st'.sessions = st.sessions)
      (redis : TouchesNew handshake IsOwn st.redis st'.redis) : Effect U handshake st call st'
  /-- a session was opened on a new client -/
  | opened {target : Target} {gate : Gate} {environment : RedisEnvironment} {production : Bool}
      {call : ApiCall} {st' : Callers}
      (asked : call = .authenticate target gate environment ∧ production = false ∧
          gate ∈ st.gates ∨
        call = .authenticateProduction target ∧ production = true ∧
          gate = .productionValidator ∧ target.port = productionPort)
      (sessions : st'.sessions = st.sessions ++ [⟨⟨environment, gate, st.redis.clients.length,
        false⟩, target, production, st'.redis.sent.length⟩])
      (redis : LoggedIn handshake target st.redis st'.redis) : Effect U handshake st (some call) st'
  /-- a command was run through a session -/
  | ran {i : ℕ} {o : Opened} {args : List Arg} {st' : Callers} (session : st.sessions[i]? = some o)
      (sessions : st'.sessions = st.sessions)
      (redis : st'.redis = st.redis ∨ o.session.closed = false ∧
        o.session.gate.authorize U args = .ok () ∧
        ∃ answer, Answers handshake (.execute o.session.client args) st.redis answer st'.redis) :
      Effect U handshake st (some (.run i args)) st'
  /-- a session was closed -/
  | closed {i : ℕ} {o : Opened} {call : Option ApiCall} {st' : Callers}
      (session : st.sessions[i]? = some o)
      (sessions : st'.sessions = st.sessions.modify i Opened.close)
      (redis : st'.redis = st.redis ∨ st'.redis = st.redis.setUser o.session.client none) :
      Effect U handshake st call st'
  /-- a connection was lost -/
  | lost {c : ℕ} {st' : Callers} (sessions : st'.sessions = st.sessions)
      (redis : st'.redis = st.redis.setUser c none) : Effect U handshake st none st'

theorem Touches.mono {A B : List Arg → Prop} {c : ℕ} {r r' : Redis} (hAB : ∀ a, A a → B a)
    (h : Touches handshake A c r r') : Touches handshake B c r r' where
  length := h.length
  others := h.others
  endpoint := h.endpoint
  wire := by
    obtain ⟨new, hwire, hnew⟩ := h.wire
    refine ⟨new, hwire, fun e he => ?_⟩
    obtain ⟨hc, hcl, hcommand⟩ := hnew e he
    refine ⟨hc, hcl, hcommand.imp_right ?_⟩
    intro ⟨hasked, args, hargs, hpack⟩
    exact ⟨hasked, args, hAB args hargs, hpack⟩

/-- What a modest call touches, for the arguments the module sends of its own. -/
theorem Modest.own {α : Type} {A : List Arg → Prop} {p q : Script α} {r r' : Redis}
    (hp : Modest A p) (hA : ∀ a, A a → IsOwn a) (h : Solo (redisWorld handshake) p r q r') :
    TouchesNew handshake IsOwn r r' := by
  rcases hp.touches h with h | ⟨host, port, user, h⟩
  · exact .inl h
  · exact .inr ⟨host, port, user, h.mono hA⟩

theorem modest_authenticateProduction (target : Target) :
    Modest IsLogin (authenticateProduction U target) := by
  unfold authenticateProduction
  split_ifs
  · exact .inl trivial
  · exact .inr (opens_authenticate _ _ _)

/-- **Every public call has one of these effects.** -/
theorem effect_of_step (h : ApiStep U handshake st call st') : Effect U handshake st call st' := by
  cases h with
  | classify h => exact .own rfl ((modest_classify _ _ _).own (fun _ => .inl) h)
  | productionValidator => exact .own rfl (.inl rfl)
  | disposableValidator h =>
    exact .own rfl ((modest_requireDisposable _ _ _ _ _).own (fun _ => .inl) h)
  | disposableNegativeTestGate h =>
    exact .own rfl ((modest_requireDisposable _ _ _ _ _).own (fun _ => .inl) h)
  | authenticate hgate h =>
    obtain ⟨rfl, hlogin⟩ := authenticate_ret h
    exact .opened (.inl ⟨rfl, rfl, hgate⟩) rfl hlogin
  | @authenticateProduction target session r h =>
    unfold authenticateProduction at h
    split_ifs at h with hport
    · cases h
    · obtain ⟨rfl, hlogin⟩ := authenticate_ret h
      exact .opened (.inr ⟨rfl, rfl, rfl, not_not.mp hport⟩) rfl hlogin
  | close ho h => exact .closed ho rfl (close_cases h)
  | other hp h =>
    cases hp with
    | classify => exact .own rfl ((modest_classify _ _ _).own (fun _ => .inl) h)
    | disposableValidator =>
      exact .own rfl ((modest_requireDisposable _ _ _ _ _).own (fun _ => .inl) h)
    | disposableNegativeTestGate =>
      exact .own rfl ((modest_requireDisposable _ _ _ _ _).own (fun _ => .inl) h)
    | authenticate hgate =>
      exact .own rfl (Modest.own (.inr (opens_authenticate _ _ _)) (fun _ => .inr) h)
    | authenticateProduction =>
      exact .own rfl ((modest_authenticateProduction _).own (fun _ => .inr) h)
    | run ho => exact .ran ho rfl (run_cases h)
  | lost h =>
    obtain ⟨c, rfl⟩ := h
    exact .lost rfl rfl

/-! ## Clients and sessions -/

/-- The sessions have clients of their own, at the endpoints they were opened for, and what was on
the wire was sent on some client. -/
structure Callers.Wired (st : Callers) : Prop where
  clients : ∀ o ∈ st.sessions, ∃ user,
    st.redis.clients[o.session.client]? = some ⟨o.target.host, o.target.port, user⟩
  distinct : (st.sessions.map fun o => o.session.client).Nodup
  wire_lt : ∀ e ∈ st.redis.wire, e.client < st.redis.clients.length

theorem Callers.Wired.lt (h : st.Wired) {o : Opened} (ho : o ∈ st.sessions) :
    o.session.client < st.redis.clients.length := by
  obtain ⟨user, hcl⟩ := h.clients o ho
  exact (List.getElem?_eq_some_iff.mp hcl).1

/-- Nothing was on the wire on a client that is not there yet. -/
theorem Callers.Wired.wireOn_new (h : st.Wired) :
    st.redis.wireOn st.redis.clients.length = [] := by
  rw [Redis.wireOn, List.filter_eq_nil_iff]
  intro e he
  have := h.wire_lt e he
  simp only [decide_eq_true_eq]
  omega

/-- What was sent on a client is what was on its wire and not of the handshake. -/
theorem Redis.sentOn_eq (r : Redis) (c : ℕ) :
    r.sentOn c = (r.wireOn c).filter fun e => e.handshake = false := by
  rw [Redis.sentOn, Redis.sent, Redis.wireOn, List.filter_comm]

/-- Two sessions on one client are one session. -/
theorem Callers.Wired.eq_of_client (h : st.Wired) {o o' : Opened} (ho : o ∈ st.sessions)
    (ho' : o' ∈ st.sessions) (hc : o.session.client = o'.session.client) : o = o' :=
  List.inj_on_of_nodup_map h.distinct ho ho' hc

section

variable {A : List Arg → Prop} {c : ℕ} {r r' : Redis}

/-- Touching a client keeps the endpoints of all clients. -/
theorem Touches.keeps_endpoint (h : Touches handshake A c r r') {c' : ℕ} {host : Str} {port : ℤ}
    (hcl : ∃ user, r.clients[c']? = some ⟨host, port, user⟩) :
    ∃ user, r'.clients[c']? = some ⟨host, port, user⟩ := by
  obtain ⟨user, hcl⟩ := hcl
  by_cases hc : c' = c
  · subst hc
    exact h.endpoint _ hcl
  · exact ⟨user, (h.others c' hc).trans hcl⟩

/-- What is sent is sent on a client there is. -/
theorem Touches.keeps_wire_lt (h : Touches handshake A c r r')
    (hlt : ∀ e ∈ r.wire, e.client < r.clients.length) :
    ∀ e ∈ r'.wire, e.client < r'.clients.length := by
  obtain ⟨new, hwire, hnew⟩ := h.wire
  intro e he
  rw [hwire] at he
  rw [h.length]
  rcases List.mem_append.mp he with he | he
  · exact hlt e he
  · obtain ⟨rfl, ⟨cl, hcl, -⟩, -⟩ := hnew e he
    exact (List.getElem?_eq_some_iff.mp hcl).1

end

/-- A new client leaves the others as they are. -/
theorem Redis.withClient_getElem? (r : Redis) (host : Str) (port : ℤ) (user : Option Str) {c : ℕ}
    (hc : c < r.clients.length) : (r.withClient host port user).clients[c]? = r.clients[c]? := by
  rw [Redis.withClient, List.getElem?_append_left hc]

theorem touches_of_execute {c : ℕ} {args : List Arg} {answer : clientSig.Answer (.execute c args)}
    {r r' : Redis} (h : Answers handshake (.execute c args) r answer r') :
    Touches handshake (fun a => a = args) c r r' := by
  have hon : OnClient (fun a => a = args) c (.execute c args) := ⟨rfl, rfl⟩
  exact touches_of_answers hon h

theorem touches_of_close (handshake : Handshake) {c : ℕ} {r r' : Redis}
    (h : r' = r ∨ r' = r.setUser c none) :
    Touches handshake (fun _ => False) c r r' := by
  rcases h with rfl | rfl
  · exact .refl _ _ _ _
  · exact .setUser _ _ _ _ _

/-- Touching one client keeps the wiring, whatever is closed. -/
theorem Callers.Wired.of_touches {A : List Arg → Prop} {c : ℕ} (h : st.Wired)
    (hs : ∀ o' ∈ st'.sessions, ∃ o ∈ st.sessions, o' = o ∨ o' = o.close)
    (hmap : st'.sessions.map (fun o => o.session.client) =
      st.sessions.map fun o => o.session.client)
    (ht : Touches handshake A c st.redis st'.redis) : st'.Wired where
  clients o' ho' := by
    obtain ⟨o, ho, rfl | rfl⟩ := hs o' ho'
    · exact ht.keeps_endpoint (h.clients o' ho)
    · exact ht.keeps_endpoint (h.clients o ho)
  distinct := hmap ▸ h.distinct
  wire_lt := ht.keeps_wire_lt h.wire_lt

/-- What closing the `i`-th session makes of the sessions. -/
theorem mem_modify_close {l : List Opened} {i : ℕ} {o' : Opened}
    (h : o' ∈ l.modify i Opened.close) : ∃ o ∈ l, o' = o ∨ o' = o.close := by
  obtain ⟨j, hj⟩ := List.getElem?_of_mem h
  rw [List.getElem?_modify] at hj
  obtain ⟨o, ho, rfl⟩ := Option.map_eq_some_iff.mp hj
  refine ⟨o, List.mem_of_getElem? ho, ?_⟩
  by_cases hij : i = j
  · exact .inr (by simp [hij])
  · exact .inl (by simp [hij])

theorem modify_close_mem {l : List Opened} (i : ℕ) {o : Opened} (h : o ∈ l) :
    ∃ o' ∈ l.modify i Opened.close, o' = o ∨ o' = o.close := by
  obtain ⟨j, hj⟩ := List.getElem?_of_mem h
  have hmodify : (l.modify i Opened.close)[j]? = some (if i = j then o.close else o) := by
    rw [List.getElem?_modify, hj]
    by_cases hij : i = j <;> simp [hij]
  refine ⟨_, List.mem_of_getElem? hmodify, ?_⟩
  by_cases hij : i = j <;> simp [hij]

theorem map_client_modify_close (l : List Opened) (i : ℕ) :
    (l.modify i Opened.close).map (fun o => o.session.client) =
      l.map fun o => o.session.client := by
  refine List.ext_getElem? fun j => ?_
  rw [List.getElem?_map, List.getElem?_map, List.getElem?_modify]
  cases l[j]? with
  | none => rfl
  | some o => by_cases hij : i = j <;> simp [hij, Opened.close]

/-- What a login put on the wire was put there on its new client. -/
theorem LoggedIn.mem_wire {target : Target} {r r' : Redis} (h : LoggedIn handshake target r r')
    {e : Sent} (he : e ∈ r'.wire) : e ∈ r.wire ∨ e.client = r.clients.length := by
  obtain ⟨more, hwire, hmore⟩ := h.wire
  rw [hwire, List.mem_append, List.mem_append, List.mem_map] at he
  rcases he with he | ⟨ws, -, rfl⟩ | he
  · exact .inl he
  · exact .inr rfl
  · exact .inr (hmore e he).1

/-- Every call keeps the wiring. -/
theorem Callers.Wired.step (h : st.Wired) (he : Effect U handshake st call st') : st'.Wired := by
  cases he with
  | own sessions redis =>
    rcases redis with redis | ⟨host, port, user, htouch⟩
    · exact ⟨by rw [sessions, redis]; exact h.clients, by rw [sessions]; exact h.distinct,
        by rw [redis]; exact h.wire_lt⟩
    · -- a client was constructed that no session has
      refine ⟨fun o ho => ?_, by rw [sessions]; exact h.distinct, htouch.keeps_wire_lt ?_⟩
      · rw [sessions] at ho
        refine htouch.keeps_endpoint ?_
        rw [Redis.withClient_getElem? _ _ _ _ (h.lt ho)]
        exact h.clients o ho
      · intro e he
        have := h.wire_lt e he
        show e.client < (st.redis.clients ++ [_]).length
        rw [List.length_append]
        omega
  | opened asked sessions redis =>
    obtain ⟨user, -, hclients⟩ := redis.clients
    -- the new session has the newest client, whose number no other session has
    refine ⟨fun o ho => ?_, ?_, fun e he => ?_⟩
    · rw [sessions, List.mem_append, List.mem_singleton] at ho
      rw [hclients]
      rcases ho with ho | rfl
      · obtain ⟨user', hcl⟩ := h.clients o ho
        exact ⟨user', by rw [List.getElem?_append_left (h.lt ho)]; exact hcl⟩
      · exact ⟨user, List.getElem?_concat_length⟩
    · rw [sessions, List.map_append, List.nodup_append]
      refine ⟨h.distinct, by simp, fun a ha b hb => ?_⟩
      obtain ⟨o, ho, rfl⟩ := List.mem_map.mp ha
      have hlt := h.lt ho
      simp only [List.map_cons, List.map_nil, List.mem_singleton] at hb
      omega
    · rw [hclients, List.length_append, List.length_singleton]
      rcases redis.mem_wire he with he | hclient
      · have := h.wire_lt e he
        omega
      · omega
  | ran session sessions redis =>
    have hs : ∀ o' ∈ st'.sessions, ∃ o ∈ st.sessions, o' = o ∨ o' = o.close := by
      rw [sessions]
      exact fun o ho => ⟨o, ho, .inl rfl⟩
    rcases redis with redis | ⟨-, -, answer, hanswer⟩
    · have hsame : Touches handshake (fun _ => False) 0 st.redis st'.redis := by
        rw [redis]
        exact .refl _ _ _ _
      exact h.of_touches hs (by rw [sessions]) hsame
    · exact h.of_touches hs (by rw [sessions]) (touches_of_execute hanswer)
  | closed session sessions redis =>
    refine h.of_touches ?_ ?_ (touches_of_close handshake redis)
    · rw [sessions]
      exact fun _ => mem_modify_close
    · rw [sessions, map_client_modify_close]
  | lost sessions redis =>
    refine h.of_touches ?_ (by rw [sessions]) (touches_of_close handshake (.inr redis))
    rw [sessions]
    exact fun o ho => ⟨o, ho, .inl rfl⟩

/-- No session is forgotten. -/
theorem sessions_kept (he : Effect U handshake st call st') {o : Opened} (ho : o ∈ st.sessions) :
    ∃ o' ∈ st'.sessions, o' = o ∨ o' = o.close := by
  cases he with
  | own sessions redis => exact ⟨o, sessions ▸ ho, .inl rfl⟩
  | opened asked sessions redis =>
    exact ⟨o, by rw [sessions]; exact List.mem_append_left _ ho, .inl rfl⟩
  | ran session sessions redis => exact ⟨o, sessions ▸ ho, .inl rfl⟩
  | closed session sessions redis =>
    rw [sessions]
    exact modify_close_mem _ ho
  | lost sessions redis => exact ⟨o, sessions ▸ ho, .inl rfl⟩

theorem wired_initial : Callers.initial.Wired where
  clients := by simp [Callers.initial]
  distinct := by simp [Callers.initial]
  wire_lt := by simp [Callers.initial]

end RedisAcl

end SecurityAudit
