import SecurityAudit.RedisAcl.Frames

/-!
# Scenarios

Calls with the answers of a server that behaves: an endpoint is classified, a session is opened,
a connection is lost, a command is run. Each lemma gives the state the call ends in, so that the
next one can be put after it.
-/

namespace SecurityAudit

namespace RedisAcl

variable {U : Unicode} {handshake : Handshake}

/-! ## The gates let `ACL WHOAMI` through -/

/-- ASCII text is upper-cased letter by letter. -/
theorem Unicode.upperText_ascii (U : Unicode) {s : Str} (h : isAscii s = true) :
    U.upperText s = s.map asciiUpper := by
  rw [Unicode.upperText, ← List.flatMap_singleton' (s.map asciiUpper), List.flatMap_map]
  refine List.flatMap_congr fun c hc => U.upper_ascii c ?_
  simpa using List.all_eq_true.mp h c hc

/-- A name of upper-case letters is its own normal form. -/
theorem part_name {name : Str} (hstrip : strip isSpace name = name)
    (hascii : isAscii name = true) (hupper : name.map asciiUpper = name) :
    part U (.str name) = name := by
  show U.upperText (strip isSpace name) = name
  rw [hstrip, U.upperText_ascii hascii, hupper]

theorem normalizeCommand_whoami :
    normalizeCommand U [.str (str "ACL"), .str (str "WHOAMI")] =
      .ok [str "ACL", str "WHOAMI"] := by
  have hacl : part U (.str (str "ACL")) = str "ACL" :=
    part_name (by decide) (by decide +kernel) (by decide +kernel)
  have hwhoami : part U (.str (str "WHOAMI")) = str "WHOAMI" :=
    part_name (by decide) (by decide +kernel) (by decide +kernel)
  have hprefix : str "ACL" ∈ knownSubcommandPrefixes := by decide
  unfold normalizeCommand
  rw [List.map_cons, List.map_singleton, hacl, hwhoami]
  show (if str "ACL" ∈ knownSubcommandPrefixes then _ else _) = _
  rw [if_pos hprefix]

/-- A command that is one name of upper-case letters. -/
theorem normalizeCommand_name {name : Str} (hstrip : strip isSpace name = name)
    (hascii : isAscii name = true) (hupper : name.map asciiUpper = name) (hne : name ≠ []) :
    normalizeCommand U [.str name] = .ok [name] := by
  obtain ⟨c, cs, rfl⟩ := List.exists_cons_of_ne_nil hne
  unfold normalizeCommand
  rw [List.map_singleton, part_name hstrip hascii hupper]

/-- Every gate lets it through, so a login can succeed with any gate. -/
theorem authorize_whoami (gate : Gate) :
    gate.authorize U [.str (str "ACL"), .str (str "WHOAMI")] = .ok () := by
  have hdanger : [str "ACL", str "WHOAMI"] ∉ dangerousCommands := by decide
  have hallowed : [str "ACL", str "WHOAMI"] ∈ productionAllowedCommands := by decide
  cases gate with
  | productionValidator =>
    show authorizeProduction U _ = _
    rw [authorizeProduction, normalizeCommand_whoami, ok_bind, if_neg hdanger,
      if_neg (not_not.mpr hallowed)]
  | disposableValidator =>
    show authorizeDisposable U _ = _
    rw [authorizeDisposable, normalizeCommand_whoami, ok_bind, if_neg hdanger]
  | disposableNegativeTestGate =>
    show authorizeNegativeTest U _ = _
    rw [authorizeNegativeTest, normalizeCommand_whoami, ok_bind]

/-- The production gate lets `PING` through. -/
theorem authorizeProduction_ping :
    Gate.authorize U .productionValidator [.str (str "PING")] = .ok () := by
  show authorizeProduction U _ = _
  have hdanger : [str "PING"] ∉ dangerousCommands := by decide
  have hallowed : [str "PING"] ∈ productionAllowedCommands := by decide
  rw [authorizeProduction, normalizeCommand_name (by decide) (by decide +kernel)
    (by decide) (by decide +kernel), ok_bind, if_neg hdanger,
    if_neg (not_not.mpr hallowed)]

/-- The gate for negative tests lets `FLUSHALL` through. -/
theorem authorizeNegativeTest_flushall :
    Gate.authorize U .disposableNegativeTestGate [.str (str "FLUSHALL")] = .ok () := by
  show authorizeNegativeTest U _ = _
  rw [authorizeNegativeTest, normalizeCommand_name (by decide) (by decide +kernel)
    (by decide) (by decide +kernel), ok_bind]

/-! ## Calls that succeed -/

/-- The rule for a call that is answered. -/
theorem solo_ask {c : ClientCall} {r r' : Redis} {reply : c.Reply}
    (h : Answers handshake c r (.ok reply) r') :
    Solo (redisWorld handshake) (ask c) r (.ret reply) r' :=
  Solo.perform (W := redisWorld handshake) h

theorem solo_connect (r : Redis) (host : Str) (port : ℤ) :
    Solo (redisWorld handshake) (connect host port) r (.ret r.clients.length)
      ⟨r.clients ++ [⟨host, port, some defaultUser⟩],
        r.wire ++ handshake.map (Sent.greeting r.clients.length host port)⟩ :=
  solo_ask (.connected (.inr rfl))

section

variable (cs : List Client) (cl : Client) (wire : List Sent)

/-- What redis-py sends before a command on the client. -/
def Client.reopening (handshake : Handshake) (cl : Client) (c : ℕ) : List Sent :=
  if cl.user = none then handshake.map (Sent.greeting c cl.host cl.port) else []

/-- A command on the newest client. -/
theorem execute_last (ws : List (List (Fin 256))) (user : Option Str) :
    ((⟨cs ++ [cl], wire⟩ : Redis).reopen handshake cs.length cl).execute cs.length cl ws user =
      ⟨cs ++ [{ cl with user := user }], wire ++ cl.reopening handshake cs.length ++
        [.asked cs.length cl.host cl.port ws (cl.user.getD defaultUser)]⟩ := by
  have hclients := clients_execute_last (r := ⟨cs ++ [cl], wire⟩) handshake cl ws user rfl
  rw [Redis.execute, Redis.mk.injEq]
  refine ⟨hclients, congrArg (· ++ _) ?_⟩
  unfold Redis.reopen Client.reopening
  split_ifs
  · rfl
  · exact (List.append_nil _).symm

/-- A command on the newest client is answered. -/
theorem solo_execute (handshake : Handshake) (user : Option Str) (reply : Reply) {args : List Arg}
    {ws : List (List (Fin 256))} (hws : packCommand args = some ws)
    (huser : user = none ∨ user = some (cl.user.getD defaultUser) ∨ ChangesUser ws)
    (hwhoami : Begins ws [str "ACL", str "WHOAMI"] → reply = .text (cl.user.getD defaultUser)) :
    Solo (redisWorld handshake) (executeCommand cs.length args) ⟨cs ++ [cl], wire⟩ (.ret reply)
      ⟨cs ++ [{ cl with user := user }], wire ++ cl.reopening handshake cs.length ++
        [.asked cs.length cl.host cl.port ws (cl.user.getD defaultUser)]⟩ := by
  rw [← execute_last]
  refine solo_ask (.executed List.getElem?_concat_length hws huser (fun _ hbegins heq => ?_)
    fun _ h => by cases h)
  rw [← Except.ok.inj heq]
  exact hwhoami hbegins

theorem solo_closeClient (r : Redis) (c : ℕ) :
    Solo (redisWorld handshake) (closeClient c) r (.ret ()) (r.setUser c none) :=
  solo_ask (.closed fun _ h => by cases h)

end

/-- The endpoint holds the attested nonce: it is classified `DISPOSABLE`. -/
theorem solo_classify (handshake : Handshake) (attestation : DisposableAttestation) (r : Redis)
    {ws : List (List (Fin 256))}
    (hws : packCommand [.str (str "GET"), .str attestation.nonce_key] = some ws) :
    ∃ r', Solo (redisWorld handshake)
      (classifyEnvironment attestation.host attestation.port (some attestation)) r
      (.ret .disposable) r' := by
  -- the only command whose answer is fixed is another one
  have hother : ¬Begins ws [str "ACL", str "WHOAMI"] := by
    intro h
    have hnone : ¬([str "GET"] <+: [str "ACL", str "WHOAMI"] ∨
        [str "ACL", str "WHOAMI"] <+: [str "GET"]) := by decide
    exact hnone ((begins_get hws).comparable h)
  have hget := solo_execute r.clients ⟨attestation.host, attestation.port, some defaultUser⟩
    (r.wire ++ handshake.map (Sent.greeting r.clients.length attestation.host attestation.port))
    handshake none (.text attestation.nonce_value) hws (.inl rfl) fun h => absurd h hother
  have hprobe : ∃ r', Solo (redisWorld handshake)
      (probe attestation.host attestation.port attestation) r (.ret (.text attestation.nonce_value)) r' :=
    ⟨_, .bind (solo_connect r attestation.host attestation.port)
      (hget.ensuring (.bind (solo_closeClient _ r.clients.length).attempt (.here _ _)))⟩
  obtain ⟨r', hprobe⟩ := hprobe
  refine ⟨r', ?_⟩
  unfold classifyEnvironment
  rw [if_neg attestation.port_ne]
  dsimp only
  rw [if_neg (by simp)]
  refine .bind hprobe.attempt ?_
  dsimp only
  rw [if_neg (by simp)]
  exact .here _ _

/-- So a gate for negative tests can be built. -/
theorem solo_negativeTestGate (handshake : Handshake) (attestation : DisposableAttestation) (r : Redis)
    {ws : List (List (Fin 256))}
    (hws : packCommand [.str (str "GET"), .str attestation.nonce_key] = some ws) :
    ∃ r', Solo (redisWorld handshake)
      (disposableNegativeTestGate attestation.host attestation.port attestation) r
      (.ret .disposableNegativeTestGate) r' := by
  obtain ⟨r', hclassify⟩ := solo_classify handshake attestation r hws
  refine ⟨r', .bind hclassify ?_⟩
  rw [if_neg (by simp)]
  exact .here _ _

/-- A login that succeeds. -/
theorem solo_authenticate (target : Target) (gate : Gate) (environment : RedisEnvironment)
    (r : Redis) {ws : List (List (Fin 256))}
    (hws : packCommand [.str (str "AUTH"), .str target.username, .str target.password] =
      some ws) :
    Solo (redisWorld handshake) (authenticate U target gate environment) r
      (.ret ⟨environment, gate, r.clients.length, false⟩)
      ⟨r.clients ++ [⟨target.host, target.port, some target.expected_identity⟩], r.wire ++
        handshake.map (Sent.greeting r.clients.length target.host target.port) ++
        [.asked r.clients.length target.host target.port ws defaultUser] ++
        [.asked r.clients.length target.host target.port whoamiWords
          target.expected_identity]⟩ := by
  have hother : ¬Begins ws [str "ACL", str "WHOAMI"] := by
    intro h
    have hnone : ¬([str "AUTH"] <+: [str "ACL", str "WHOAMI"] ∨
        [str "ACL", str "WHOAMI"] <+: [str "AUTH"]) := by decide
    exact hnone ((begins_auth hws).comparable h)
  have hauth := solo_execute r.clients ⟨target.host, target.port, some defaultUser⟩
    (r.wire ++ handshake.map (Sent.greeting r.clients.length target.host target.port)) handshake
    (some target.expected_identity) .true hws (.inr (.inr (.inl (begins_auth hws))))
    fun h => absurd h hother
  have hwhoami := solo_execute r.clients
    ⟨target.host, target.port, some target.expected_identity⟩
    (r.wire ++ handshake.map (Sent.greeting r.clients.length target.host target.port) ++
      [.asked r.clients.length target.host target.port ws defaultUser])
    handshake (some target.expected_identity) (.text target.expected_identity) packCommand_whoami
    (.inr (.inl rfl)) fun _ => rfl
  -- neither command finds the connection lost
  have hopen : ∀ user : Str, (Client.mk target.host target.port (some user)).reopening handshake
      r.clients.length = [] := fun user => if_neg (by simp)
  rw [hopen, List.append_nil] at hauth hwhoami
  refine .bind (solo_connect r target.host target.port).attempt (.bind (.attempt (q := .ret ()) ?_)
    (.here _ _))
  show Solo (redisWorld handshake) (establish U target (gate.check U) r.clients.length) _ _ _
  refine .bind hauth.attempt ?_
  dsimp only
  rw [if_neg (by simp), Gate.check, authorize_whoami]
  refine .bind hwhoami.attempt ?_
  dsimp only
  rw [if_neg (by simp)]
  exact .here _ _

/-- A command the gate lets through is run on the newest client. -/
theorem solo_run (handshake : Handshake) (environment : RedisEnvironment) {gate : Gate}
    (cs : List Client) (cl : Client) (wire : List Sent) {args : List Arg} {ws : List (List (Fin 256))}
    (hok : gate.authorize U args = .ok ()) (hws : packCommand args = some ws)
    (hother : ¬Begins ws [str "ACL", str "WHOAMI"]) :
    Solo (redisWorld handshake) (AuthenticatedSession.run U ⟨environment, gate, cs.length, false⟩ args)
      ⟨cs ++ [cl], wire⟩ (.ret .true)
      ⟨cs ++ [{ cl with user := some (cl.user.getD defaultUser) }],
        wire ++ cl.reopening handshake cs.length ++
          [.asked cs.length cl.host cl.port ws (cl.user.getD defaultUser)]⟩ := by
  unfold AuthenticatedSession.run
  rw [if_neg (by simp), hok]
  exact solo_execute cs cl wire handshake _ .true hws (.inr (.inl rfl)) fun h => absurd h hother

/-! ## A login on the production port -/

/-- The first login is on the production port, and its connection has `user` now. -/
def Callers.loggedIn (handshake : Handshake) (target : Target) (ws : List (List (Fin 256)))
    (user : Option Str) : Callers where
  redis := ⟨[⟨target.host, target.port, user⟩],
    handshake.map (Sent.greeting 0 target.host target.port) ++
      [.asked 0 target.host target.port ws defaultUser] ++
      [.asked 0 target.host target.port whoamiWords target.expected_identity]⟩
  disposable := []
  gates := []
  sessions := [⟨⟨.production, .productionValidator, 0, false⟩, target, true, 2⟩]

section

variable {target : Target} {ws : List (List (Fin 256))}

theorem sent_loggedIn (handshake : Handshake) (target : Target) (ws : List (List (Fin 256)))
    (user : Option Str) :
    (Callers.loggedIn handshake target ws user).redis.sent =
      [.asked 0 target.host target.port ws defaultUser,
        .asked 0 target.host target.port whoamiWords target.expected_identity] := by
  simp [Redis.sent, Callers.loggedIn, Sent.greeting]

theorem apiStep_loggedIn (handshake : Handshake) (hport : target.port = productionPort)
    (hws : packCommand [.str (str "AUTH"), .str target.username, .str target.password] =
      some ws) :
    ApiStep U handshake .initial (some (.authenticateProduction target))
      (.loggedIn handshake target ws (some target.expected_identity)) := by
  have hlogin : Solo (redisWorld handshake) (authenticateProduction U target) ⟨[], []⟩
      (.ret ⟨.production, .productionValidator, 0, false⟩)
      (Callers.loggedIn handshake target ws (some target.expected_identity)).redis := by
    unfold authenticateProduction
    rw [if_neg (not_not.mpr hport)]
    exact solo_authenticate target .productionValidator .production ⟨[], []⟩ hws
  have hopened : ApiStep U handshake .initial (some (.authenticateProduction target))
      (Callers.initial.opened _ target true _) := .authenticateProduction hlogin
  have hsince : (Callers.loggedIn handshake target ws
      (some target.expected_identity)).redis.sent.length = 2 := by
    rw [sent_loggedIn]
    rfl
  rw [Callers.opened, hsince] at hopened
  exact hopened

theorem apiStep_lost (U : Unicode) (handshake : Handshake) (target : Target)
    (ws : List (List (Fin 256))) (user : Option Str) :
    ApiStep U handshake (.loggedIn handshake target ws user) none
      (.loggedIn handshake target ws none) := by
  have hdrift : (redisWorld handshake).drift (Callers.loggedIn handshake target ws user).redis
      (Callers.loggedIn handshake target ws none).redis := ⟨0, rfl⟩
  exact .lost hdrift

/-- `PING` is executed as whoever the connection is of. -/
theorem apiStep_ping (U : Unicode) (handshake : Handshake) (target : Target)
    (ws : List (List (Fin 256))) (user : Option Str) :
    ∃ st, ApiStep U handshake (.loggedIn handshake target ws user)
        (some (.run 0 [.str (str "PING")])) st ∧
      ∃ o ∈ st.sessions, o.target = target ∧ ∃ e ∈ st.redis.sent.drop o.since,
        e.client = o.session.client ∧ e.user = user.getD defaultUser := by
  let session : AuthenticatedSession := ⟨.production, .productionValidator, 0, false⟩
  have hother : ¬Begins [utf8Bytes (str "PING")] [str "ACL", str "WHOAMI"] := by decide
  have hping : packCommand [.str (str "PING")] = some [utf8Bytes (str "PING")] := by
    decide
  have hruns : Runs U (.loggedIn handshake target ws user) (.run 0 [.str (str "PING")]) Reply
    (session.run U [.str (str "PING")]) := .run (o := ⟨session, target, true, 2⟩) rfl
  have hran := ApiStep.other hruns (solo_run handshake .production []
    ⟨target.host, target.port, user⟩ _ authorizeProduction_ping hping hother)
  let ping : Sent := .asked 0 target.host target.port [utf8Bytes (str "PING")]
    (user.getD defaultUser)
  refine ⟨_, hran, _, List.mem_singleton_self _, rfl, ping, ?_, rfl, rfl⟩
  -- of what came after the login only `PING` was asked for
  have hsent : ∀ before : List Sent, ping ∈ (List.filter (fun e => e.handshake = false)
      ((Callers.loggedIn handshake target ws user).redis.wire ++ before ++ [ping])).drop 2 := by
    intro before
    have hlogin := sent_loggedIn handshake target ws user
    rw [Redis.sent] at hlogin
    rw [List.filter_append, List.filter_append, hlogin, List.append_assoc]
    simp [ping]
  exact hsent _

end

namespace Sample

/-- Upper-casing that changes ASCII letters only, and `repr` without quotes. -/
def unicode : Unicode := ⟨fun c => [asciiUpper c], id, fun _ _ => rfl⟩

/-- What redis-py 5 sends when it has connected. -/
def clientSetinfo : Handshake :=
  [[utf8Bytes (str "CLIENT"), utf8Bytes (str "SETINFO"), utf8Bytes (str "LIB-NAME"),
      utf8Bytes (str "redis-py")],
    [utf8Bytes (str "CLIENT"), utf8Bytes (str "SETINFO"), utf8Bytes (str "LIB-VER"),
      utf8Bytes (str "5.0.8")]]

/-- Redis as the deployment has it, with the worker's user. -/
def target : Target :=
  ⟨str "redis", productionPort, str "security_audit", str "secret", str "security_audit"⟩

/-- A throwaway instance on the developer's machine, and the nonce it holds. -/
def attestation : DisposableAttestation :=
  ⟨str "localhost", 16399, str "nonce", str "1f", by decide, by decide, by decide⟩

/-- The same user on the throwaway instance. -/
def disposableTarget : Target := { target with host := str "localhost", port := 16399 }

def authWords : List (List (Fin 256)) :=
  [utf8Bytes (str "AUTH"), utf8Bytes (str "security_audit"), utf8Bytes (str "secret")]

theorem packCommand_auth :
    packCommand [.str (str "AUTH"), .str target.username, .str target.password] =
      some authWords := by
  decide

theorem packCommand_get : packCommand [.str (str "GET"), .str attestation.nonce_key] =
    some [utf8Bytes (str "GET"), utf8Bytes (str "nonce")] := by
  decide

theorem packCommand_flushall :
    packCommand [.str (str "FLUSHALL")] = some [utf8Bytes (str "FLUSHALL")] := by
  decide

end Sample

end RedisAcl

end SecurityAudit
