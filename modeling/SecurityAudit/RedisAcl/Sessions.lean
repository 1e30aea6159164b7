import SecurityAudit.Prog.Calls
import SecurityAudit.RedisAcl.Wire

/-!
# Sessions: `scripts/redis_acl_safety.py`

`classify_environment`, the gates' constructors, `authenticate`, `authenticate_production` and
`AuthenticatedSession`, as programs over the three things the module asks of redis-py: construct a
client, execute a command, close. What a call raises is a `redis.RedisError` or something else;
the module tells them apart, and converts most of them to errors of its own.
-/

namespace SecurityAudit

namespace RedisAcl

/-- `PRODUCTION_PORT`. -/
def productionPort : ℤ := 6380

/-- What a call raises, and what the module raises. -/
inductive Raised where
  | safety (e : SafetyError)
  /-- `redis.AuthenticationError` -/
  | authenticationError
  /-- any other `redis.RedisError`, by the name of its class -/
  | redisError (name : Str)
  /-- any other `Exception`, by the name of its class -/
  | other (name : Str)
deriving DecidableEq

/-- `type(exc).__name__`. -/
def Raised.className : Raised → Str
  | .safety _ => str "RedisSafetyError"
  | .authenticationError => str "AuthenticationError"
  | .redisError name => name
  | .other name => name

/-- A reply, as far as it is looked at. -/
inductive Reply where
  | true
  | text (s : Str)
  /-- any other value, by its `repr` -/
  | other (shown : Str)
deriving DecidableEq

/-- The calls on redis-py. -/
inductive ClientCall where
  /-- `redis.Redis(host=host, port=port, ..., single_connection_client=True)` -/
  | connect (host : Str) (port : ℤ)
  /-- `client.execute_command(*args)` -/
  | execute (client : ℕ) (args : List Arg)
  /-- `client.close()` -/
  | close (client : ℕ)

/-- A new client is known by a number. -/
def ClientCall.Reply : ClientCall → Type
  | .connect _ _ => ℕ
  | .execute _ _ => RedisAcl.Reply
  | .close _ => Unit

abbrev clientSig : Sig := ⟨ClientCall, ClientCall.Reply, Raised⟩

/-- A program of the module. -/
abbrev Script (α : Type) : Type := Prog clientSig α

abbrev ask (c : ClientCall) : Script c.Reply := @Prog.perform clientSig c

/-- `redis.Redis(...)`. -/
def connect (host : Str) (port : ℤ) : Script ℕ := ask (.connect host port)

/-- `client.execute_command(*args)`. -/
def executeCommand (client : ℕ) (args : List Arg) : Script Reply := ask (.execute client args)

/-- `client.close()`. -/
def closeClient (client : ℕ) : Script Unit := ask (.close client)

/-- `raise` of an error of the module. -/
def fail {α : Type} (cls : ErrorClass) (message : Str) : Script α := .raise (.safety ⟨cls, message⟩)

/-! ## Classification -/

inductive RedisEnvironment where
  | disposable
  | production
  | unknown
deriving DecidableEq

/-- `DisposableAttestation`: it cannot be built for the production port, or without a host and a
nonce. -/
structure DisposableAttestation where
  host : Str
  port : ℤ
  nonce_key : Str
  nonce_value : Str
  port_ne : port ≠ productionPort
  host_ne : host ≠ []
  nonce_ne : nonce_key ≠ [] ∧ nonce_value ≠ []

/-- `DisposableAttestation(...)` with `__post_init__`. -/
def DisposableAttestation.new (host : Str) (port : ℤ) (nonce_key nonce_value : Str) :
    Except SafetyError DisposableAttestation :=
  if hport : port = productionPort then
    .error ⟨.environmentClassificationError, str "port " ++ intText port ++
      str (" is this architecture's shared, production-adjacent Redis port -- refusing to attest " ++
        "any endpoint on it as disposable, regardless of other evidence")⟩
  else if hhost : host = [] then
    .error ⟨.environmentClassificationError, str "attestation requires a non-empty host"⟩
  else if hnonce : nonce_key = [] ∨ nonce_value = [] then
    .error ⟨.environmentClassificationError,
      str ("attestation requires a non-empty nonce_key/nonce_value pair -- an empty nonce " ++
        "proves nothing")⟩
  else .ok ⟨host, port, nonce_key, nonce_value, hport, hhost, not_or.mp hnonce⟩

/-- The probe of `classify_environment`: what the instance stores under the nonce key. -/
def probe (host : Str) (port : ℤ) (attestation : DisposableAttestation) : Script Reply := do
  let client ← connect host port
  Prog.ensuring (executeCommand client [.str (str "GET"), .str attestation.nonce_key]) (do
    let _ ← (closeClient client).attempt
    return ())

/-- `classify_environment`. -/
def classifyEnvironment (host : Str) (port : ℤ) (attestation : Option DisposableAttestation) :
    Script RedisEnvironment :=
  if port = productionPort then return .production
  else match attestation with
    | none => return .unknown
    | some attestation =>
      if attestation.host ≠ host ∨ attestation.port ≠ port then
        fail .environmentClassificationError
          (str ("attestation host/port do not match the target host/port -- refusing to trust " ++
            "an attestation for a different endpoint than the one being classified"))
      else do
        match ← (probe host port attestation).attempt with
        | .ok got =>
          if got ≠ .text attestation.nonce_value then
            fail .environmentClassificationError
              (str ("disposable attestation nonce did not match the value actually stored on " ++
                "the live instance -- refusing to classify as DISPOSABLE"))
          else return .disposable
        | .error (.other name) => .raise (.other name)
        | .error (.safety e) => .raise (.safety e)
        | .error e =>
          fail .environmentClassificationError
            (str ("could not independently verify disposable attestation: probe " ++
              "connection/command failed (") ++ e.className ++ str ")")

/-! ## Constructors of the gates -/

/-- A constructor that insists on a disposable environment. -/
def requireDisposable (host : Str) (port : ℤ) (attestation : DisposableAttestation)
    (gate : Gate) (message : Str) : Script Gate := do
  let environment ← classifyEnvironment host port (some attestation)
  if environment ≠ .disposable then fail .environmentClassificationError message
  else return gate

/-- `DisposableValidator(...)`. -/
def disposableValidator (host : Str) (port : ℤ) (attestation : DisposableAttestation) :
    Script Gate :=
  requireDisposable host port attestation .disposableValidator
    (str "DisposableValidator requires a live-verified DISPOSABLE environment; construction refused")

/-- `DisposableNegativeTestGate(...)`. -/
def disposableNegativeTestGate (host : Str) (port : ℤ) (attestation : DisposableAttestation) :
    Script Gate :=
  requireDisposable host port attestation .disposableNegativeTestGate
    (str ("DisposableNegativeTestGate requires a live-verified DISPOSABLE environment; " ++
      "construction refused"))

/-! ## Sessions -/

/-- `AuthenticatedSession`. -/
structure AuthenticatedSession where
  environment : RedisEnvironment
  gate : Gate
  client : ℕ
  closed : Bool

/-- Whom to authenticate as, and where. -/
structure Target where
  host : Str
  port : ℤ
  username : Str
  password : Str
  expected_identity : Str

variable (U : Unicode)

/-- `AuthenticatedSession.run`. -/
def AuthenticatedSession.run (session : AuthenticatedSession) (args : List Arg) : Script Reply :=
  if session.closed then fail .redisSafetyError (str "cannot run a command on a closed session")
  else match session.gate.authorize U args with
    | .error e => .raise (.safety e)
    | .ok () => executeCommand session.client args

/-- `AuthenticatedSession.close`. -/
def AuthenticatedSession.close (session : AuthenticatedSession) : Script AuthenticatedSession :=
  if session.closed then return session
  else do
    let _ ← (closeClient session.client).attempt
    return { session with closed := true }

/-- `except redis.AuthenticationError` and `except redis.RedisError` around `AUTH`. -/
def authenticationFailed (target : Target) : Raised → Raised
  | .authenticationError => .safety ⟨.authenticationFailedError,
      str "AUTH failed for expected identity " ++ U.repr target.expected_identity⟩
  | .redisError name => .safety ⟨.authenticationFailedError,
      str "AUTH did not succeed for expected identity " ++ U.repr target.expected_identity ++
        str ": " ++ name⟩
  | e => e

/-- The outer handlers of `authenticate`: anything that is not an error of the module becomes
one. -/
def unexpected (target : Target) : Raised → Raised
  | .safety e => .safety e
  | e => .safety ⟨.authenticationFailedError, str "unexpected error establishing identity for " ++
      U.repr target.expected_identity ++ str ": " ++ e.className⟩

/-- `AUTH` on a new client, and the confirmation of the identity, where `authorize` is what the
gate does. -/
def establish (target : Target) (authorize : List Arg → Except Raised Unit) (client : ℕ) :
    Script Unit := do
  let ok ← (executeCommand client [.str (str "AUTH"), .str target.username,
    .str target.password]).attempt
  match ok with
  | .error e => .raise (authenticationFailed U target e)
  | .ok ok =>
    if ok ≠ .true ∧ ok ≠ .text (str "OK") then
      fail .authenticationFailedError
        (str "AUTH returned an unexpected result for expected identity " ++
          U.repr target.expected_identity)
    else match authorize [.str (str "ACL"), .str (str "WHOAMI")] with
      | .error e => .raise e
      | .ok () => do
        match ← (executeCommand client [.str (str "ACL"), .str (str "WHOAMI")]).attempt with
        | .error (.other name) => .raise (.other name)
        | .error (.safety e) => .raise (.safety e)
        | .error e =>
          fail .identityMismatchError (str "could not confirm identity for expected " ++
            U.repr target.expected_identity ++ str ": " ++ e.className)
        | .ok actual =>
          if actual ≠ .text target.expected_identity then
            fail .identityMismatchError (str "expected identity " ++
              U.repr target.expected_identity ++ str ", ACL WHOAMI reported " ++ whoamiRepr actual)
          else return ()
where
  /-- `actual!r`. -/
  whoamiRepr : Reply → Str
    | .true => str "True"
    | .text s => U.repr s
    | .other shown => shown

/-- `authenticate` with a gate that does `authorize`, and with what is made of the client at the
end. A client that was constructed is closed on every failure after that. -/
def authenticateBehind {α : Type} (target : Target) (authorize : List Arg → Except Raised Unit)
    (session : ℕ → α) : Script α := do
  match ← (connect target.host target.port).attempt with
  | .error e => .raise (unexpected U target (authenticationFailed U target e))
  | .ok client =>
    match ← (establish U target authorize client).attempt with
    | .error e => do
      closeClient client
      .raise (unexpected U target e)
    | .ok () => return session client

/-- `gate.authorize` of one of the gates of the module. -/
def Gate.check (gate : Gate) (args : List Arg) : Except Raised Unit :=
  (gate.authorize U args).mapError .safety

/-- `authenticate`. -/
def authenticate (target : Target) (gate : Gate) (environment : RedisEnvironment) :
    Script AuthenticatedSession :=
  authenticateBehind U target (gate.check U) fun client => ⟨environment, gate, client, false⟩

/-- `authenticate_production`. -/
def authenticateProduction (target : Target) : Script AuthenticatedSession :=
  if target.port ≠ productionPort then
    fail .environmentClassificationError (str "authenticate_production requires port " ++
      intText productionPort ++ str "; got " ++ intText target.port ++
      str ". Use authenticate() directly with an explicit gate for any other target.")
  else authenticate U target .productionValidator .production

end RedisAcl

end SecurityAudit
