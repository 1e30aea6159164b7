import SecurityAudit.RedisAcl.Sessions

/-!
# The server and the callers

`Redis` is what a statement about the wire needs: every client with its endpoint and the user the
server takes its connection for, and every command ever sent, with the client, the endpoint and
the user it was executed under. A fresh connection is `default`. Any command may be answered with
anything, may raise, and may lose the connection; a lost connection is opened again by the next
command, as `default`, for the clients are built without credentials. Only `AUTH`, `HELLO` and
`RESET` change the user of a connection, and `ACL WHOAMI` answers with it.

What redis-py sends of its own on a connection it opens is a parameter, `handshake`: with version 5
and later it is `CLIENT SETINFO`, twice. The log marks these commands; `sent` are the others, those
the module asked for. A command is sent once: redis-py's retries are left out.

`ApiStep` is one call of the module's public functions, with any arguments, by callers who hold
the gates and sessions that earlier calls returned. A call may end in any way, and may be
abandoned in the middle.
-/

namespace SecurityAudit

namespace RedisAcl

/-- The user of a connection before any `AUTH`. -/
def defaultUser : Str := str "default"

/-- What redis-py sends of its own on a connection it opens: commands, as words. -/
abbrev Handshake : Type := List (List (List (Fin 256)))

/-- A client: its endpoint, and the user of its connection if it has one. -/
structure Client where
  host : Str
  port : ℤ
  user : Option Str

/-- A command on the wire. -/
structure Sent where
  client : ℕ
  host : Str
  port : ℤ
  words : List (List (Fin 256))
  user : Str
  /-- redis-py sent it of its own -/
  handshake : Bool

/-- A command the module asked for. -/
abbrev Sent.asked (client : ℕ) (host : Str) (port : ℤ) (words : List (List (Fin 256))) (user : Str) :
    Sent :=
  ⟨client, host, port, words, user, false⟩

/-- A command of the handshake, on a connection that is still of `default`. -/
def Sent.greeting (client : ℕ) (host : Str) (port : ℤ) (words : List (List (Fin 256))) : Sent :=
  ⟨client, host, port, words, defaultUser, true⟩

/-- The clients by number, and the commands in order. -/
structure Redis where
  clients : List Client
  wire : List Sent

namespace Redis

/-- What the module asked for. -/
def sent (r : Redis) : List Sent := r.wire.filter fun e => e.handshake = false

/-- What was on the wire on a client. -/
def wireOn (r : Redis) (c : ℕ) : List Sent := r.wire.filter fun e => e.client = c

/-- What was sent on a client. -/
def sentOn (r : Redis) (c : ℕ) : List Sent := r.sent.filter fun e => e.client = c

/-- The state after a client was constructed. -/
def withClient (r : Redis) (host : Str) (port : ℤ) (user : Option Str) : Redis :=
  { r with clients := r.clients ++ [⟨host, port, user⟩] }

/-- Change the user of a connection. -/
def setUser (r : Redis) (c : ℕ) (user : Option Str) : Redis :=
  { r with clients := r.clients.modify c fun cl => { cl with user := user } }

/-- Commands of the handshake are sent on the client `c`. -/
def greet (r : Redis) (c : ℕ) (host : Str) (port : ℤ) (commands : Handshake) : Redis :=
  { r with wire := r.wire ++ commands.map (Sent.greeting c host port) }

/-- A lost connection is opened again. -/
def reopen (handshake : Handshake) (r : Redis) (c : ℕ) (cl : Client) : Redis :=
  if cl.user = none then r.greet c cl.host cl.port handshake else r

/-- The state after the client `cl`, number `c`, executed a command that left its connection with
`user`. -/
def execute (r : Redis) (c : ℕ) (cl : Client) (ws : List (List (Fin 256))) (user : Option Str) :
    Redis where
  clients := (r.setUser c user).clients
  wire := r.wire ++ [.asked c cl.host cl.port ws (cl.user.getD defaultUser)]

@[simp] theorem sent_withClient (r : Redis) (host : Str) (port : ℤ) (user : Option Str) :
    (r.withClient host port user).sent = r.sent := rfl

@[simp] theorem sent_setUser (r : Redis) (c : ℕ) (user : Option Str) :
    (r.setUser c user).sent = r.sent := rfl

@[simp] theorem sent_greet (r : Redis) (c : ℕ) (host : Str) (port : ℤ)
    (commands : Handshake) : (r.greet c host port commands).sent = r.sent := by
  have hnone : (commands.map (Sent.greeting c host port)).filter (fun e => e.handshake = false) =
      [] := by
    simp [Sent.greeting]
  rw [sent, greet, List.filter_append, hnone, List.append_nil, sent]

@[simp] theorem sent_execute (r : Redis) (c : ℕ) (cl : Client) (ws : List (List (Fin 256)))
    (user : Option Str) : (r.execute c cl ws user).sent =
      r.sent ++ [.asked c cl.host cl.port ws (cl.user.getD defaultUser)] := by
  simp [sent, execute]

@[simp] theorem clients_greet (r : Redis) (c : ℕ) (host : Str) (port : ℤ)
    (commands : Handshake) : (r.greet c host port commands).clients = r.clients := rfl

@[simp] theorem clients_reopen (handshake : Handshake) (r : Redis) (c : ℕ) (cl : Client) :
    (r.reopen handshake c cl).clients = r.clients := by
  unfold reopen
  split_ifs <;> rfl

@[simp] theorem sent_reopen (handshake : Handshake) (r : Redis) (c : ℕ) (cl : Client) :
    (r.reopen handshake c cl).sent = r.sent := by
  unfold reopen
  split_ifs
  · exact sent_greet _ _ _ _ _
  · rfl

end Redis

/-- The commands that change the user of a connection. -/
def ChangesUser (ws : List (List (Fin 256))) : Prop :=
  Begins ws [str "AUTH"] ∨ Begins ws [str "HELLO"] ∨ Begins ws [str "RESET"]

/-- What redis-py raises is not an error of this module. -/
def FromRedis (e : Raised) : Prop := ∀ err, e ≠ .safety err

variable (U : Unicode) (handshake : Handshake)

/-- How the calls may be answered. A client connects when it is constructed. -/
inductive Answers : (c : ClientCall) → Redis → clientSig.Answer c → Redis → Prop where
  | connected {r : Redis} {host : Str} {port : ℤ} {user : Option Str}
      (huser : user = none ∨ user = some defaultUser) :
      Answers (.connect host port) r (.ok r.clients.length)
        ((r.withClient host port user).greet r.clients.length host port handshake)
  | refused {r r' : Redis} {host : Str} {port : ℤ} {e : Raised} (he : FromRedis e)
      (hr : r' = r ∨ ∃ commands, commands <+: handshake ∧
        r' = (r.withClient host port none).greet r.clients.length host port commands) :
      Answers (.connect host port) r (.error e) r'
  | executed {r : Redis} {c : ℕ} {args : List Arg} {cl : Client}
      {ws : List (List (Fin 256))} {user : Option Str} {answer : Except Raised Reply}
      (hcl : r.clients[c]? = some cl) (hws : packCommand args = some ws)
      (huser : user = none ∨ user = some (cl.user.getD defaultUser) ∨ ChangesUser ws)
      (hwhoami : ∀ reply, Begins ws [str "ACL", str "WHOAMI"] → answer = .ok reply →
        reply = .text (cl.user.getD defaultUser))
      (hraised : ∀ e, answer = .error e → FromRedis e) :
      Answers (.execute c args) r answer ((r.reopen handshake c cl).execute c cl ws user)
  | unsent {r r' : Redis} {c : ℕ} {args : List Arg} {e : Raised} (he : FromRedis e)
      (hr : r' = r ∨ r' = r.setUser c none ∨ ∃ cl commands, r.clients[c]? = some cl ∧
        cl.user = none ∧ commands <+: handshake ∧ r' = r.greet c cl.host cl.port commands) :
      Answers (.execute c args) r (.error e) r'
  | closed {r : Redis} {c : ℕ} {answer : Except Raised Unit}
      (hraised : ∀ e, answer = .error e → FromRedis e) :
      Answers (.close c) r answer (r.setUser c none)

/-- The world of the module. Connections may be lost at any time. -/
def redisWorld : World clientSig Redis where
  answers := Answers handshake
  drift r r' := ∃ c, r' = r.setUser c none

/-! ## Callers -/

/-- A session that `authenticate` returned, with what it was asked for, whether it was asked by
`authenticate_production`, and how many commands had been sent when it was returned. -/
structure Opened where
  session : AuthenticatedSession
  target : Target
  production : Bool
  since : ℕ

/-- What has happened so far: the endpoints classified `DISPOSABLE`, the gates built and the
sessions opened. -/
structure Callers where
  redis : Redis
  disposable : List (Str × ℤ)
  gates : List Gate
  sessions : List Opened

/-- Nothing has been called. -/
def Callers.initial : Callers := ⟨⟨[], []⟩, [], [], []⟩

namespace Callers

variable (st : Callers)

/-- The endpoint was classified. -/
def classified (host : Str) (port : ℤ) (environment : RedisEnvironment) (r : Redis) : Callers :=
  { st with
    redis := r
    disposable := if environment = .disposable then (host, port) :: st.disposable
      else st.disposable }

/-- A gate was built for the endpoint, which was classified `DISPOSABLE` then. -/
def built (host : Str) (port : ℤ) (gate : Gate) (r : Redis) : Callers :=
  { st with redis := r, disposable := (host, port) :: st.disposable, gates := gate :: st.gates }

/-- A session was opened. -/
def opened (session : AuthenticatedSession) (target : Target) (production : Bool) (r : Redis) :
    Callers :=
  { st with redis := r, sessions := st.sessions ++ [⟨session, target, production, r.sent.length⟩] }

/-- A session was closed. It is marked first, so it is closed however the call ends. -/
def closed (i : ℕ) (r : Redis) : Callers :=
  { st with
    redis := r
    sessions := st.sessions.modify i fun o =>
      { o with session := { o.session with closed := true } } }

end Callers

/-- The calls a caller can make. -/
inductive ApiCall where
  | classify (host : Str) (port : ℤ) (attestation : Option DisposableAttestation)
  | productionValidator
  | disposableValidator (host : Str) (port : ℤ) (attestation : DisposableAttestation)
  | disposableNegativeTestGate (host : Str) (port : ℤ) (attestation : DisposableAttestation)
  | authenticate (target : Target) (gate : Gate) (environment : RedisEnvironment)
  | authenticateProduction (target : Target)
  | run (i : ℕ) (args : List Arg)
  | close (i : ℕ)

/-- The programs that public calls run for a caller in the state `st`, but for `close`. -/
inductive Runs (st : Callers) : ApiCall → (α : Type) → Script α → Prop where
  | classify {host port attestation} :
      Runs st (.classify host port attestation) _ (classifyEnvironment host port attestation)
  | disposableValidator {host port attestation} :
      Runs st (.disposableValidator host port attestation) _
        (disposableValidator host port attestation)
  | disposableNegativeTestGate {host port attestation} :
      Runs st (.disposableNegativeTestGate host port attestation) _
        (disposableNegativeTestGate host port attestation)
  | authenticate {target gate environment} (hgate : gate ∈ st.gates) :
      Runs st (.authenticate target gate environment) _ (authenticate U target gate environment)
  | authenticateProduction {target} :
      Runs st (.authenticateProduction target) _ (authenticateProduction U target)
  | run {i args o} (ho : st.sessions[i]? = some o) :
      Runs st (.run i args) _ (o.session.run U args)

/-- One public call, or a lost connection. -/
inductive ApiStep : Callers → Option ApiCall → Callers → Prop where
  | classify {st : Callers} {host port attestation environment} {r : Redis}
      (h : Solo (redisWorld handshake) (classifyEnvironment host port attestation) st.redis
        (.ret environment) r) :
      ApiStep st (some (.classify host port attestation)) (st.classified host port environment r)
  | productionValidator {st : Callers} :
      ApiStep st (some .productionValidator)
        { st with gates := .productionValidator :: st.gates }
  | disposableValidator {st : Callers} {host port attestation gate} {r : Redis}
      (h : Solo (redisWorld handshake) (disposableValidator host port attestation) st.redis
        (.ret gate) r) :
      ApiStep st (some (.disposableValidator host port attestation)) (st.built host port gate r)
  | disposableNegativeTestGate {st : Callers} {host port attestation gate} {r : Redis}
      (h : Solo (redisWorld handshake) (disposableNegativeTestGate host port attestation) st.redis
        (.ret gate) r) :
      ApiStep st (some (.disposableNegativeTestGate host port attestation))
        (st.built host port gate r)
  | authenticate {st : Callers} {target gate environment session} {r : Redis}
      (hgate : gate ∈ st.gates)
      (h : Solo (redisWorld handshake) (authenticate U target gate environment) st.redis
        (.ret session) r) :
      ApiStep st (some (.authenticate target gate environment)) (st.opened session target false r)
  | authenticateProduction {st : Callers} {target session} {r : Redis}
      (h : Solo (redisWorld handshake) (authenticateProduction U target) st.redis (.ret session) r) :
      ApiStep st (some (.authenticateProduction target)) (st.opened session target true r)
  | close {st : Callers} {i o q} {r : Redis} (ho : st.sessions[i]? = some o)
      (h : Solo (redisWorld handshake) o.session.close st.redis q r) :
      ApiStep st (some (.close i)) (st.closed i r)
  | other {st : Callers} {call : ApiCall} {α : Type} {p q : Script α} {r : Redis}
      (hp : Runs U st call α p) (h : Solo (redisWorld handshake) p st.redis q r) :
      ApiStep st (some call) { st with redis := r }
  | lost {st : Callers} {r : Redis} (h : (redisWorld handshake).drift st.redis r) :
      ApiStep st none { st with redis := r }

/-- Some sequence of public calls and lost connections leads from `st` to `st'`, and each call
was made in a state where `C` allows it. -/
abbrev ReachedUnder (C : Callers → Option ApiCall → Prop) : Callers → Callers → Prop :=
  Relation.ReflTransGen fun st st' => ∃ call, ApiStep U handshake st call st' ∧ C st call

/-- Some sequence of public calls and lost connections leads from `st` to `st'`. -/
abbrev Reached : Callers → Callers → Prop := ReachedUnder U handshake fun _ _ => True

theorem ReachedUnder.mono {U : Unicode} {handshake : Handshake}
    {C D : Callers → Option ApiCall → Prop} {st st' : Callers}
    (h : ReachedUnder U handshake C st st') (hCD : ∀ s call, C s call → D s call) :
    ReachedUnder U handshake D st st' := by
  induction h with
  | refl => exact .refl
  | tail _ hstep ih =>
    obtain ⟨call, hstep, hC⟩ := hstep
    exact ih.tail ⟨call, hstep, hCD _ _ hC⟩

end RedisAcl

end SecurityAudit
