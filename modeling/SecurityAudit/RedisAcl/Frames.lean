import SecurityAudit.RedisAcl.Callers

/-!
# What a call touches

Every public call works on one client: a session on its own, the others on one they construct.
`Touches handshake A c r r'` says that from `r` to `r'` only client `c` was used, and that what was
on its wire are commands of the handshake and packed arguments meeting `A`. A successful
`authenticate` is taken apart into its three answers (`authenticate_ret`).
-/

namespace SecurityAudit

namespace RedisAcl

variable {U : Unicode} {handshake : Handshake} {A : List Arg → Prop} {c : ℕ} {r r' r'' : Redis}

/-- From `r` to `r'` only client `c` was used, for arguments meeting `A`. -/
structure Touches (handshake : Handshake) (A : List Arg → Prop) (c : ℕ) (r r' : Redis) :
    Prop where
  length : r'.clients.length = r.clients.length
  others : ∀ c', c' ≠ c → r'.clients[c']? = r.clients[c']?
  endpoint : ∀ cl, r.clients[c]? = some cl →
    ∃ user, r'.clients[c]? = some { cl with user := user }
  wire : ∃ new, r'.wire = r.wire ++ new ∧ ∀ e ∈ new, e.client = c ∧
    (∃ cl, r.clients[c]? = some cl ∧ e.host = cl.host ∧ e.port = cl.port) ∧
    (e.handshake = true ∧ e.words ∈ handshake ∨
      e.handshake = false ∧ ∃ args, A args ∧ packCommand args = some e.words)

namespace Touches

theorem refl (handshake : Handshake) (A : List Arg → Prop) (c : ℕ) (r : Redis) :
    Touches handshake A c r r where
  length := rfl
  others _ _ := rfl
  endpoint cl h := ⟨cl.user, h⟩
  wire := ⟨[], by simp, by simp⟩

theorem trans (h : Touches handshake A c r r') (h' : Touches handshake A c r' r'') :
    Touches handshake A c r r'' where
  length := h'.length.trans h.length
  others c' hc := (h'.others c' hc).trans (h.others c' hc)
  endpoint cl hcl := by
    obtain ⟨user, hcl'⟩ := h.endpoint cl hcl
    obtain ⟨user', hcl''⟩ := h'.endpoint _ hcl'
    exact ⟨user', hcl''⟩
  wire := by
    obtain ⟨new, hwire, hnew⟩ := h.wire
    obtain ⟨new', hwire', hnew'⟩ := h'.wire
    refine ⟨new ++ new', by rw [hwire', hwire, List.append_assoc], fun e he => ?_⟩
    rcases List.mem_append.mp he with he | he
    · exact hnew e he
    · obtain ⟨hc, ⟨cl', hcl', hhost, hport⟩, hcommand⟩ := hnew' e he
      -- the client had the same endpoint before
      refine ⟨hc, ?_, hcommand⟩
      cases hcl : r.clients[c]? with
      | none =>
        have hlt := (List.getElem?_eq_some_iff.mp hcl').1
        rw [h.length] at hlt
        exact absurd (List.getElem?_eq_none_iff.mp hcl) (by omega)
      | some cl =>
        obtain ⟨user, hcl''⟩ := h.endpoint cl hcl
        rw [hcl'] at hcl''
        cases hcl''
        exact ⟨cl, rfl, hhost, hport⟩

theorem setUser (handshake : Handshake) (A : List Arg → Prop) (c : ℕ) (r : Redis)
    (user : Option Str) : Touches handshake A c r (r.setUser c user) where
  length := by simp [Redis.setUser]
  others c' hc := by simp [Redis.setUser, hc.symm]
  endpoint cl h := ⟨user, by simp [Redis.setUser, h]⟩
  wire := ⟨[], by simp [Redis.setUser], by simp⟩

theorem greet (A : List Arg → Prop) {cl : Client} {commands : Handshake}
    (hcl : r.clients[c]? = some cl) (hcommands : commands <+: handshake) :
    Touches handshake A c r (r.greet c cl.host cl.port commands) where
  length := rfl
  others _ _ := rfl
  endpoint cl h := ⟨cl.user, h⟩
  wire := by
    refine ⟨_, rfl, fun e he => ?_⟩
    obtain ⟨ws, hws, rfl⟩ := List.mem_map.mp he
    exact ⟨rfl, ⟨cl, hcl, rfl, rfl⟩, .inl ⟨rfl, hcommands.subset hws⟩⟩

theorem reopen (A : List Arg → Prop) {cl : Client} (hcl : r.clients[c]? = some cl) :
    Touches handshake A c r (r.reopen handshake c cl) := by
  unfold Redis.reopen
  split_ifs with hlost
  · exact .greet A hcl (List.prefix_refl _)
  · exact .refl _ _ _ _

theorem execute {cl : Client} {args : List Arg} {ws : List (List (Fin 256))} (user : Option Str)
    (hcl : r.clients[c]? = some cl) (hargs : A args) (hws : packCommand args = some ws) :
    Touches handshake A c r (r.execute c cl ws user) := by
  have hset := Touches.setUser handshake A c r user
  refine ⟨hset.length, hset.others, hset.endpoint, [_], rfl, fun e he => ?_⟩
  rw [List.mem_singleton.mp he]
  exact ⟨rfl, ⟨cl, hcl, rfl, rfl⟩, .inr ⟨rfl, args, hargs, hws⟩⟩

/-- What the module sent are arguments meeting `A`. -/
theorem sent (h : Touches handshake A c r r') : ∃ new, r'.sent = r.sent ++ new ∧ ∀ e ∈ new,
    e.client = c ∧ (∃ cl, r.clients[c]? = some cl ∧ e.host = cl.host ∧ e.port = cl.port) ∧
      ∃ args, A args ∧ packCommand args = some e.words := by
  obtain ⟨new, hwire, hnew⟩ := h.wire
  refine ⟨new.filter fun e => e.handshake = false, ?_, fun e he => ?_⟩
  · rw [Redis.sent, hwire, List.filter_append, Redis.sent]
  · obtain ⟨hmem, hasked⟩ := List.mem_filter.mp he
    obtain ⟨hc, hcl, hcommand⟩ := hnew e hmem
    refine ⟨hc, hcl, ?_⟩
    rcases hcommand with ⟨hgreeting, -⟩ | ⟨-, hargs⟩
    · simp [hgreeting] at hasked
    · exact hargs

/-- Another client sees nothing of it. -/
theorem wireOn_of_ne (h : Touches handshake A c r r') {c' : ℕ} (hc : c' ≠ c) :
    r'.wireOn c' = r.wireOn c' := by
  obtain ⟨new, hwire, hnew⟩ := h.wire
  unfold Redis.wireOn
  rw [hwire, List.filter_append]
  have hnone : new.filter (fun e => e.client = c') = [] := by
    rw [List.filter_eq_nil_iff]
    intro e he
    simpa [(hnew e he).1] using fun h => hc h.symm
  rw [hnone, List.append_nil]

end Touches

/-- Calls on the client `c` alone, with arguments meeting `A`. -/
def OnClient (A : List Arg → Prop) (c : ℕ) : ClientCall → Prop
  | .connect _ _ => False
  | .execute c' args => c' = c ∧ A args
  | .close c' => c' = c

theorem touches_of_answers {call : ClientCall} {answer : clientSig.Answer call}
    (hcall : OnClient A c call) (h : Answers handshake call r answer r') :
    Touches handshake A c r r' := by
  cases h with
  | connected => exact hcall.elim
  | refused => exact hcall.elim
  | @executed _ c' args cl ws user _ hcl hws _ _ _ =>
    obtain ⟨rfl, hargs⟩ := hcall
    have hreopened : (r.reopen handshake c' cl).clients[c']? = some cl := by
      rwa [Redis.clients_reopen]
    exact (Touches.reopen A hcl).trans (.execute user hreopened hargs hws)
  | unsent _ hr =>
    obtain ⟨rfl, -⟩ := hcall
    rcases hr with rfl | rfl | ⟨cl, commands, hcl, -, hcommands, rfl⟩
    · exact .refl _ _ _ _
    · exact .setUser _ _ _ _ _
    · exact .greet A hcl hcommands
  | closed =>
    obtain rfl := hcall
    exact .setUser _ _ _ _ _

/-- A program that works on one client touches that client only. -/
theorem touches_of_all {α : Type} {p q : Script α} (h : Solo (redisWorld handshake) p r q r')
    (hp : p.All (OnClient A c)) : Touches handshake A c r r' :=
  h.keeps (I := fun s => Touches handshake A c r s)
    (fun _ _ _ _ hcall htouch hanswer => htouch.trans (touches_of_answers hcall hanswer)) hp
    (.refl handshake A c r)

/-- A program that constructs a client and then works on it. -/
def Opens {α : Type} (A : List Arg → Prop) (p : Script α) : Prop :=
  ∃ host port next, p = .call (.connect host port) next ∧
    (∀ e, (next (.error e)).All fun _ => False) ∧ ∀ c, (next (.ok c)).All (OnClient A c)

/-- From `r` to `r'` nothing was used but a new client, if any. -/
def TouchesNew (handshake : Handshake) (A : List Arg → Prop) (r r' : Redis) : Prop :=
  r' = r ∨ ∃ host port user,
    Touches handshake A r.clients.length (r.withClient host port user) r'

/-- The handshake on a new client. -/
theorem touches_greet_new (handshake : Handshake) (A : List Arg → Prop) (r : Redis) (host : Str)
    (port : ℤ) (user : Option Str) {commands : Handshake} (hcommands : commands <+: handshake) :
    Touches handshake A r.clients.length (r.withClient host port user)
      ((r.withClient host port user).greet r.clients.length host port commands) := by
  have hclient : (r.withClient host port user).clients[r.clients.length]? =
      some ⟨host, port, user⟩ := List.getElem?_concat_length
  exact .greet A hclient hcommands

/-- It touches a new client only, if any. -/
theorem Opens.touches {α : Type} {p q : Script α} (hp : Opens A p)
    (h : Solo (redisWorld handshake) p r q r') : TouchesNew handshake A r r' := by
  obtain ⟨host, port, next, rfl, herror, hok⟩ := hp
  cases h with
  | here => exact .inl rfl
  | answer answer answered rest =>
    cases answered with
    | @connected _ _ _ user _ =>
      have hgreet := touches_greet_new handshake A r host port user (List.prefix_refl _)
      exact .inr ⟨host, port, user, hgreet.trans (touches_of_all rest (hok _))⟩
    | @refused _ _ _ _ e he hr =>
      -- nothing follows a refusal, which may come after a part of the handshake
      have hend := rest.keeps (I := fun s => s = _) (fun _ _ _ _ hcall => hcall.elim) (herror e) rfl
      rw [hend]
      rcases hr with hsame | ⟨commands, hcommands, hgreeted⟩
      · exact .inl hsame
      · rw [hgreeted]
        exact .inr ⟨host, port, none, touches_greet_new handshake A r host port none hcommands⟩

/-- What follows the work on the client makes no call. -/
theorem Opens.bind {α β : Type} {p : Script α} {f : α → Script β} (hp : Opens A p)
    (hf : ∀ a, (f a).All fun _ => False) : Opens A (p >>= f) := by
  obtain ⟨host, port, next, rfl, herror, hok⟩ := hp
  exact ⟨host, port, _, rfl, fun e => (herror e).bind hf,
    fun c => (hok c).bind fun a => (hf a).mono fun _ h => h.elim⟩

theorem Opens.attempt {α : Type} {p : Script α} (hp : Opens A p) : Opens A p.attempt := by
  obtain ⟨host, port, next, rfl, herror, hok⟩ := hp
  exact ⟨host, port, _, rfl, fun e => (herror e).attempt, fun c => (hok c).attempt⟩

/-! ## The programs of the module -/

/-- `GET` of some key. -/
def IsProbe (args : List Arg) : Prop := ∃ key, args = [.str (str "GET"), .str key]

/-- `AUTH`, or `ACL WHOAMI`. -/
def IsLogin (args : List Arg) : Prop :=
  (∃ username password, args = [.str (str "AUTH"), .str username, .str password]) ∨
    args = [.str (str "ACL"), .str (str "WHOAMI")]

theorem all_closeClient (A : List Arg → Prop) (c : ℕ) : (closeClient c).All (OnClient A c) :=
  Prog.all_perform rfl

theorem opens_probe (host : Str) (port : ℤ) (attestation : DisposableAttestation) :
    Opens IsProbe (probe host port attestation) := by
  refine ⟨host, port, _, rfl, fun e => trivial, fun c => ?_⟩
  have hget : (executeCommand c [.str (str "GET"), .str attestation.nonce_key]).All
      (OnClient IsProbe c) := Prog.all_perform ⟨rfl, _, rfl⟩
  exact hget.ensuring ((all_closeClient IsProbe c).attempt.bind fun _ => Prog.all_ofExcept (.ok ()))

/-- A call that works on a client of its own, or makes no call at all. -/
def Modest {α : Type} (A : List Arg → Prop) (p : Script α) : Prop :=
  (p.All fun _ => False) ∨ Opens A p

theorem Modest.touches {α : Type} {p q : Script α} (hp : Modest A p)
    (h : Solo (redisWorld handshake) p r q r') : TouchesNew handshake A r r' := by
  rcases hp with hp | hp
  · exact .inl (h.keeps (I := fun s => s = r) (fun _ _ _ _ hcall => hcall.elim) hp rfl)
  · exact hp.touches h

theorem modest_classify (host : Str) (port : ℤ) (attestation : Option DisposableAttestation) :
    Modest IsProbe (classifyEnvironment host port attestation) := by
  unfold classifyEnvironment
  split_ifs with hport
  · exact .inl trivial
  cases attestation with
  | none => exact .inl trivial
  | some attestation =>
    dsimp only
    split_ifs with hmatch
    · exact .inl trivial
    refine .inr ((opens_probe host port attestation).attempt.bind fun outcome => ?_)
    cases outcome with
    | ok got => dsimp only; split_ifs <;> trivial
    | error e => cases e <;> trivial

theorem Modest.bind {α β : Type} {p : Script α} {f : α → Script β} (hp : Modest A p)
    (hf : ∀ a, (f a).All fun _ => False) : Modest A (p >>= f) := by
  rcases hp with hp | hp
  · exact .inl (hp.bind hf)
  · exact .inr (hp.bind hf)

theorem modest_requireDisposable (host : Str) (port : ℤ) (attestation : DisposableAttestation)
    (gate : Gate) (message : Str) :
    Modest IsProbe (requireDisposable host port attestation gate message) :=
  (modest_classify host port (some attestation)).bind fun environment => by
    split_ifs <;> trivial

theorem all_establish (target : Target) (authorize : List Arg → Except Raised Unit) (c : ℕ) :
    (establish U target authorize c).All (OnClient IsLogin c) := by
  have hauth : OnClient IsLogin c (.execute c [.str (str "AUTH"), .str target.username,
      .str target.password]) := ⟨rfl, .inl ⟨_, _, rfl⟩⟩
  refine (Prog.all_perform hauth).attempt.bind fun ok => ?_
  cases ok with
  | error e => trivial
  | ok ok =>
    dsimp only
    split_ifs with hok
    · trivial
    cases authorize [.str (str "ACL"), .str (str "WHOAMI")] with
    | error e => trivial
    | ok _ =>
      have hwhoami : OnClient IsLogin c (.execute c [.str (str "ACL"), .str (str "WHOAMI")]) :=
        ⟨rfl, .inr rfl⟩
      refine (Prog.all_perform hwhoami).attempt.bind fun actual => ?_
      cases actual with
      | error e => cases e <;> trivial
      | ok actual => dsimp only; split_ifs <;> trivial

theorem opens_authenticate (target : Target) (gate : Gate) (environment : RedisEnvironment) :
    Opens IsLogin (authenticate U target gate environment) := by
  refine ⟨target.host, target.port, _, rfl, fun e => trivial, fun c => ?_⟩
  refine (all_establish target (gate.check U) c).attempt.bind fun outcome => ?_
  cases outcome with
  | error e =>
    let outcome : Script AuthenticatedSession := .raise (unexpected U target e)
    exact (all_closeClient IsLogin c).bind (f := fun _ => outcome) fun _ => trivial
  | ok _ => trivial

/-! ## Sessions -/

/-- `run` has its command answered, if it is not refused; otherwise it makes no call. -/
theorem run_cases {session : AuthenticatedSession} {args : List Arg} {q : Script Reply}
    (h : Solo (redisWorld handshake) (session.run U args) r q r') :
    r' = r ∨ session.closed = false ∧ session.gate.authorize U args = .ok () ∧
      ∃ answer, Answers handshake (.execute session.client args) r answer r' := by
  unfold AuthenticatedSession.run at h
  split_ifs at h with hclosed
  · cases h
    exact .inl rfl
  · split at h
    · cases h
      exact .inl rfl
    · next hok =>
      rw [Bool.not_eq_true] at hclosed
      exact h.perform_cases.imp_right fun hanswer => ⟨hclosed, hok, hanswer⟩

/-- `close` closes the client, if the session is open. -/
theorem close_cases {session : AuthenticatedSession} {q : Script AuthenticatedSession}
    (h : Solo (redisWorld handshake) session.close r q r') :
    r' = r ∨ r' = r.setUser session.client none := by
  unfold AuthenticatedSession.close at h
  split_ifs at h with hclosed
  · cases h
    exact .inl rfl
  · cases h with
    | here => exact .inl rfl
    | answer answer answered rest =>
      cases answered with
      | closed => cases answer <;> cases rest <;> exact .inr rfl

/-! ## What a classification or a login that returned has done -/

/-- The endpoint of a disposable environment does not have the production port. -/
theorem classify_ret {host : Str} {port : ℤ} {attestation : Option DisposableAttestation}
    (h : Solo (redisWorld handshake) (classifyEnvironment host port attestation) r
      (.ret .disposable) r') :
    port ≠ productionPort := by
  unfold classifyEnvironment at h
  split_ifs at h with hport
  · cases h
  · exact hport

theorem requireDisposable_ret {host : Str} {port : ℤ} {attestation : DisposableAttestation}
    {gate gate' : Gate} {message : Str}
    (h : Solo (redisWorld handshake) (requireDisposable host port attestation gate message) r
      (.ret gate') r') : gate' = gate ∧ port ≠ productionPort := by
  obtain ⟨environment, u, hclassify, h⟩ := h.of_bind
  split_ifs at h with henv
  · cases h
  · cases h
    rw [not_not.mp henv] at hclassify
    exact ⟨rfl, classify_ret hclassify⟩

/-- A command that was answered was executed. -/
theorem executed_of_ok {args : List Arg} {reply : Reply}
    (h : Answers handshake (.execute c args) r (.ok reply) r') :
    ∃ cl ws user, r.clients[c]? = some cl ∧ packCommand args = some ws ∧
      (user = none ∨ user = some (cl.user.getD defaultUser) ∨ ChangesUser ws) ∧
      (Begins ws [str "ACL", str "WHOAMI"] → reply = .text (cl.user.getD defaultUser)) ∧
      r' = (r.reopen handshake c cl).execute c cl ws user := by
  cases h with
  | executed hcl hws huser hwhoami hraised =>
    exact ⟨_, _, _, hcl, hws, huser, fun hb => hwhoami _ hb rfl, rfl⟩

/-- The user of the newest client. -/
theorem modify_last (cs : List Client) (cl : Client) (user : Option Str) :
    (cs ++ [cl]).modify cs.length (fun cl => { cl with user := user }) =
      cs ++ [{ cl with user := user }] := by
  induction cs with
  | nil => rfl
  | cons x cs ih => simpa using ih

/-- A command on the newest client. -/
theorem clients_execute_last (handshake : Handshake) (cl' : Client) (ws : List (List (Fin 256)))
    (user : Option Str) {cs : List Client} {cl : Client} (hr : r.clients = cs ++ [cl]) :
    ((r.reopen handshake cs.length cl').execute cs.length cl' ws user).clients =
      cs ++ [{ cl with user := user }] := by
  show ((r.reopen handshake cs.length cl').setUser cs.length user).clients = _
  rw [Redis.setUser, Redis.clients_reopen, hr, modify_last]

/-- `ACL WHOAMI` on the wire. -/
def whoamiWords : List (List (Fin 256)) := [utf8Bytes (str "ACL"), utf8Bytes (str "WHOAMI")]

theorem packCommand_whoami :
    packCommand [.str (str "ACL"), .str (str "WHOAMI")] = some whoamiWords := by
  decide

/-- A name that is one word is sent as that word. -/
theorem begins_name {name : Str} {w : List (Fin 256)} {args : List Arg}
    {ws : List (List (Fin 256))} (hwire : (Arg.str name).wire = some w)
    (hwords : words (fun b => isAsciiSpace b.val) w = [w]) (hspells : Spells w name)
    (h : packCommand (.str name :: args) = some ws) : Begins ws [name] := by
  obtain ⟨_, _, first, others, hargs, hfirst, -, rfl⟩ := packCommand_eq_some.mp h
  cases hargs
  rw [hwire] at hfirst
  cases hfirst
  rw [hwords]
  exact .cons hspells .nil

theorem begins_auth {args : List Arg} {ws : List (List (Fin 256))}
    (h : packCommand (.str (str "AUTH") :: args) = some ws) : Begins ws [str "AUTH"] :=
  begins_name (w := utf8Bytes (str "AUTH")) (by decide) (by decide +kernel)
    (by decide) h

theorem begins_get {args : List Arg} {ws : List (List (Fin 256))}
    (h : packCommand (.str (str "GET") :: args) = some ws) : Begins ws [str "GET"] :=
  begins_name (w := utf8Bytes (str "GET")) (by decide) (by decide +kernel)
    (by decide) h

/-- `establish` returns after `AUTH` and `ACL WHOAMI` were answered, the latter with the identity
expected. -/
theorem establish_ret {target : Target} {authorize : List Arg → Except Raised Unit}
    (h : Solo (redisWorld handshake) (establish U target authorize c) r (.ret ()) r') :
    ∃ ok u, Answers handshake
        (.execute c [.str (str "AUTH"), .str target.username, .str target.password]) r (.ok ok) u ∧
      authorize [.str (str "ACL"), .str (str "WHOAMI")] = .ok () ∧
      Answers handshake (.execute c [.str (str "ACL"), .str (str "WHOAMI")]) u
        (.ok (.text target.expected_identity)) r' := by
  obtain ⟨ok, u, hauth, h⟩ := h.of_bind
  cases ok with
  | error e => cases h
  | ok ok =>
    dsimp only at h
    split_ifs at h with hok
    · cases h
    cases hgate : authorize [.str (str "ACL"), .str (str "WHOAMI")] with
    | error e =>
      rw [hgate] at h
      cases h
    | ok _ =>
      rw [hgate] at h
      obtain ⟨actual, v, hwhoami, h⟩ := h.of_bind
      cases actual with
      | error e => cases e <;> cases h
      | ok actual =>
        dsimp only at h
        split_ifs at h with hactual
        · cases h
        · cases h
          obtain rfl := not_not.mp hactual
          exact ⟨ok, u, hauth.of_attempt.of_perform, rfl, hwhoami.of_attempt.of_perform⟩

/-- A login that returned left a new client, on which `AUTH` and `ACL WHOAMI` were sent, the latter
executed as the identity expected, which is still the user if the connection was not lost. The
handshake came before both. -/
structure LoggedIn (handshake : Handshake) (target : Target) (r r' : Redis) : Prop where
  clients : ∃ user, (user = none ∨ user = some target.expected_identity) ∧
    r'.clients = r.clients ++ [⟨target.host, target.port, user⟩]
  sent : ∃ ws, packCommand [.str (str "AUTH"), .str target.username, .str target.password] =
      some ws ∧
    r'.sent = r.sent ++ [.asked r.clients.length target.host target.port ws defaultUser,
      .asked r.clients.length target.host target.port whoamiWords target.expected_identity]
  wire : ∃ more, r'.wire = r.wire ++
      (handshake.map (Sent.greeting r.clients.length target.host target.port) ++ more) ∧
    ∀ e ∈ more, e.client = r.clients.length ∧ (e.handshake = true → e.words ∈ handshake)

/-- `ACL WHOAMI` was answered with the identity expected, after an `AUTH` that was answered on a new
client. -/
theorem loggedIn_of_answers {target : Target} {user : Option Str} {ok : Reply} {u v w : Redis}
    (huser : user = none ∨ user = some defaultUser)
    (hu : u.clients = r.clients ++ [⟨target.host, target.port, user⟩])
    (hauth : Answers handshake (.execute r.clients.length [.str (str "AUTH"),
      .str target.username, .str target.password]) u (.ok ok) v)
    (hwhoami : Answers handshake (.execute r.clients.length [.str (str "ACL"),
      .str (str "WHOAMI")]) v (.ok (.text target.expected_identity)) w) :
    ∃ ws user, packCommand [.str (str "AUTH"), .str target.username, .str target.password] =
        some ws ∧
      (user = none ∨ user = some target.expected_identity) ∧
      w.clients = r.clients ++ [⟨target.host, target.port, user⟩] ∧
      w.sent = u.sent ++ [.asked r.clients.length target.host target.port ws defaultUser,
        .asked r.clients.length target.host target.port whoamiWords target.expected_identity] := by
  obtain ⟨cl, ws, user₁, hcl, hws, -, -, rfl⟩ := executed_of_ok hauth
  obtain ⟨cl', ws', user', hcl', hws', huser', hreply, rfl⟩ := executed_of_ok hwhoami
  rw [packCommand_whoami] at hws'
  cases hws'
  have hbegins : Begins whoamiWords [str "ACL", str "WHOAMI"] := by decide
  have hkeeps : ¬ChangesUser whoamiWords := by
    unfold ChangesUser
    decide
  have hidentity : cl'.user.getD defaultUser = target.expected_identity :=
    (Reply.text.inj (hreply hbegins)).symm
  rw [hidentity] at huser'
  -- both commands found the new client
  rw [hu] at hcl
  obtain rfl : _ = cl := Option.some.inj (List.getElem?_concat_length.symm.trans hcl)
  have hclients := clients_execute_last handshake ⟨target.host, target.port, user⟩ ws user₁ hu
  rw [hclients] at hcl'
  obtain rfl : _ = cl' := Option.some.inj (List.getElem?_concat_length.symm.trans hcl')
  have hdefault : user.getD defaultUser = defaultUser := by
    rcases huser with rfl | rfl <;> rfl
  refine ⟨ws, user', hws, by tauto, clients_execute_last handshake _ _ _ hclients, ?_⟩
  rw [Redis.sent_execute, Redis.sent_reopen, Redis.sent_execute, Redis.sent_reopen, hidentity,
    hdefault, List.append_assoc]
  rfl

/-- **A login that returned.** -/
theorem authenticate_ret {target : Target} {gate : Gate} {environment : RedisEnvironment}
    {session : AuthenticatedSession}
    (h : Solo (redisWorld handshake) (authenticate U target gate environment) r (.ret session) r') :
    session = ⟨environment, gate, r.clients.length, false⟩ ∧ LoggedIn handshake target r r' := by
  obtain ⟨outcome, u, hconnect, h⟩ := h.of_bind
  cases outcome with
  | error e => cases h
  | ok client =>
    obtain ⟨outcome, v, hestablish, h⟩ := h.of_bind
    cases outcome with
    | error e =>
      obtain ⟨_, _, -, h⟩ := h.of_bind
      cases h
    | ok _ =>
      cases h
      obtain ⟨ok, w, hauth, -, hwhoami⟩ := establish_ret hestablish.of_attempt
      cases hconnect.of_attempt.of_perform with
      | @connected _ _ _ user huser =>
        refine ⟨rfl, ?_⟩
        obtain ⟨ws, user', hws, huser', hclients, hsent⟩ :=
          loggedIn_of_answers (r := r) huser rfl hauth hwhoami
        have hauthArgs : OnClient (fun _ => True) r.clients.length (.execute r.clients.length
          [.str (str "AUTH"), .str target.username, .str target.password]) := ⟨rfl, trivial⟩
        have hwhoamiArgs : OnClient (fun _ => True) r.clients.length (.execute r.clients.length
          [.str (str "ACL"), .str (str "WHOAMI")]) := ⟨rfl, trivial⟩
        -- `more` is what the two commands put on the wire, after the handshake of the connection
        obtain ⟨more, hwire, hmore⟩ :=
          ((touches_of_answers hauthArgs hauth).trans (touches_of_answers hwhoamiArgs hwhoami)).wire
        refine ⟨⟨user', huser', hclients⟩, ⟨ws, hws, ?_⟩, more, ?_, fun e he => ?_⟩
        · rw [hsent, Redis.sent_greet, Redis.sent_withClient]
        · rw [hwire, ← List.append_assoc]
          rfl
        · obtain ⟨hc, -, hcommand⟩ := hmore e he
          refine ⟨hc, fun hgreeting => ?_⟩
          rcases hcommand with ⟨-, hmem⟩ | ⟨hasked, -⟩
          · exact hmem
          · rw [hasked] at hgreeting
            cases hgreeting

end RedisAcl

end SecurityAudit
