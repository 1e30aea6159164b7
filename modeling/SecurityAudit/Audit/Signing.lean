import SecurityAudit.Prog.Except
import SecurityAudit.Text.Str

/-!
# Producer signatures: `audit/signing.py`

A signed event travels as two stream fields, `data` and `sig`; the signature is
`v1:<hex-hmac>` over the version, the producer's service name and the exact `data` string.
The two hash functions of the standard library are parameters (`Crypto`): what the code
relies on is that a hex digest is non-empty ASCII text, and, where a result says so, that
HMAC-SHA256 is injective in its message.
-/

namespace SecurityAudit

/-- The exceptions the modelled code raises, catches or tells apart. -/
inductive Exc where
  | typeError
  | valueError
  | jsonDecodeError
  | validationError
  | unicodeEncodeError
  | overflowError
  | runtimeError
  | integrityError
  | sqlAlchemyError
  | busyGroup
  | noGroup
  | redisTimeoutError
  | redisError
deriving DecidableEq

/-- Raw bytes. -/
abbrev Bytes : Type := List (Fin 256)

/-- `hashlib.sha256(message).digest()` and `hmac.new(key, message, sha256).hexdigest()`. -/
structure Crypto where
  sha256 : Utf8 → Bytes
  hmacSha256 : Bytes → Utf8 → Str
  hexdigest_ne_nil : ∀ key message, hmacSha256 key message ≠ []
  hexdigest_ascii : ∀ key message, isAscii (hmacSha256 key message) = true

/-- `hmac.compare_digest(a, b)` on two `str`: only ASCII text is comparable. -/
def compareDigest (a b : Str) : Except Exc Bool :=
  if isAscii a = true ∧ isAscii b = true then .ok (decide (a = b)) else .error .typeError

/-- A missing result raises `e`. -/
def orRaise {α : Type} (e : Exc) : Option α → Except Exc α
  | some a => .ok a
  | none => .error e

@[simp] theorem orRaise_eq_ok {α : Type} {e : Exc} {o : Option α} {a : α} :
    orRaise e o = .ok a ↔ o = some a := by
  cases o <;> simp [orRaise]

@[simp] theorem orRaise_some {α : Type} (e : Exc) (a : α) : orRaise e (some a) = .ok a := rfl

/-- `s.encode()`. -/
def encode (s : Str) : Except Exc Utf8 := orRaise .unicodeEncodeError (encode? s)

theorem encode_text {s : Str} {u : Utf8} (h : encode s = .ok u) : u.text = s :=
  encode?_text (orRaise_eq_ok.mp h)

theorem encode_inj {s t : Str} {u : Utf8} (hs : encode s = .ok u) (ht : encode t = .ok u) :
    s = t := by
  rw [← encode_text hs, encode_text ht]

theorem compareDigest_self {a : Str} (h : isAscii a = true) : compareDigest a a = .ok true := by
  simp [compareDigest, h]

theorem compareDigest_ok {a b : Str} {same : Bool} (h : compareDigest a b = .ok same) :
    (isAscii a = true ∧ isAscii b = true) ∧ same = decide (a = b) := by
  unfold compareDigest at h
  split_ifs at h with hascii
  exact ⟨hascii, (Except.ok.inj h).symm⟩

theorem compareDigest_eq_true {a b : Str} (h : compareDigest a b = .ok true) : a = b :=
  of_decide_eq_true (compareDigest_ok h).2.symm

namespace Signing

/-- `_DOMAIN_LABEL`. -/
@[irreducible] def domainLabel : Str := str "omnibioai-audit-events"

/-- `SUPPORTED_VERSION`. -/
@[irreducible] def supportedVersion : Str := str "v1"

variable (C : Crypto)

/-- `_signing_key`. -/
def signingKey (secret : Str) : Except Exc Bytes :=
  (encode (domainLabel ++ cp ':' :: secret)).map C.sha256

/-- `_signing_message`. -/
def signingMessage (version service data : Str) : Except Exc Utf8 :=
  encode (version ++ cp '\n' :: (service ++ cp '\n' :: data))

/-- The hex MAC both functions below compute. -/
def mac (version service data secret : Str) : Except Exc Str := do
  let key ← signingKey C secret
  let message ← signingMessage version service data
  return C.hmacSha256 key message

/-- `sign_audit_event`. -/
def signAuditEvent (service : Str) (data : Option Str) (secret : Str) : Except Exc Str :=
  if service = [] then .error .valueError
  else do
    let data ← orRaise .valueError data
    let m ← mac C supportedVersion service data secret
    return supportedVersion ++ cp ':' :: m

/-- `s.partition(":")`; `none` where there is no colon. -/
def partitionColon : Str → Option (Str × Str)
  | [] => none
  | c :: s =>
    if c = cp ':' then some ([], s) else (partitionColon s).map fun p => (c :: p.1, p.2)

/-- The comparison inside `verify_audit_event`'s `try`. -/
def macMatches (service data version macHex secret : Str) : Except Exc Bool := do
  let expected ← mac C version service data secret
  compareDigest macHex expected

/-- `verify_audit_event`. Every exception inside it is `False`. -/
def verifyAuditEvent (service : Str) (data : Option Str) (signature secret : Str) : Bool :=
  if signature = [] ∨ service = [] then false
  else
    match data, partitionColon signature with
    | some data, some (version, macHex) =>
      decide (version = supportedVersion ∧
        macMatches C service data version macHex secret = .ok true)
    | _, _ => false

theorem partitionColon_eq {s a b : Str} (h : partitionColon s = some (a, b)) :
    s = a ++ cp ':' :: b := by
  induction s generalizing a with
  | nil => cases h
  | cons c s ih =>
    rw [partitionColon] at h
    split_ifs at h with hc
    · cases h
      rw [hc, List.nil_append]
    · obtain ⟨⟨a', b'⟩, hp, heq⟩ := Option.map_eq_some_iff.mp h
      cases heq
      rw [ih hp, List.cons_append]

theorem partitionColon_append {a : Str} (ha : cp ':' ∉ a) (b : Str) :
    partitionColon (a ++ cp ':' :: b) = some (a, b) := by
  induction a with
  | nil => simp [partitionColon]
  | cons c a ih =>
    simp only [List.mem_cons, not_or] at ha
    rw [List.cons_append, partitionColon, if_neg (Ne.symm ha.1), ih ha.2]
    rfl

theorem mac_ascii {version service data secret m : Str}
    (h : mac C version service data secret = .ok m) : isAscii m = true := by
  obtain ⟨key, -, h⟩ := bind_eq_ok.mp h
  obtain ⟨message, -, h⟩ := bind_eq_ok.mp h
  rw [← Except.ok.inj h]
  exact C.hexdigest_ascii key message

/-- **What a verified signature is**: the one `sign_audit_event` makes for the same service,
data and secret. -/
theorem verifyAuditEvent_iff (service : Str) (data : Option Str) (signature secret : Str) :
    verifyAuditEvent C service data signature secret = true ↔
      signAuditEvent C service data secret = .ok signature := by
  have hversion : supportedVersion ≠ [] ∧ cp ':' ∉ supportedVersion := by decide +kernel
  constructor
  · intro h
    unfold verifyAuditEvent at h
    split_ifs at h with hne
    rw [not_or] at hne
    split at h
    · next _ _ data version macHex hpart =>
      obtain ⟨rfl, hmatch⟩ := of_decide_eq_true h
      obtain ⟨expected, hmac, hcmp⟩ := bind_eq_ok.mp hmatch
      obtain rfl := compareDigest_eq_true hcmp
      rw [signAuditEvent, if_neg hne.2, partitionColon_eq hpart]
      exact bind_eq_ok.mpr ⟨data, rfl, bind_eq_ok.mpr ⟨macHex, hmac, rfl⟩⟩
    · cases h
  · intro h
    unfold signAuditEvent at h
    split_ifs at h with hs
    obtain ⟨data, hdata, h⟩ := bind_eq_ok.mp h
    obtain ⟨m, hmac, h⟩ := bind_eq_ok.mp h
    rw [orRaise_eq_ok.mp hdata, ← Except.ok.inj h]
    have hmatch : macMatches C service data supportedVersion m secret = .ok true :=
      bind_eq_ok.mpr ⟨m, hmac, compareDigest_self (mac_ascii C hmac)⟩
    unfold verifyAuditEvent
    simp [hs, partitionColon_append hversion.2, hmatch]

end Signing

end SecurityAudit
