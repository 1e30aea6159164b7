import SecurityAudit.Json.Operators
import SecurityAudit.Prog.Eval

/-!
# Verifying a token: `audit/jwt_verify.py`

`verify_token` as a program over what it asks of the world: PyJWT's reading of a header and its
`decode`, the JWKS client, and the revocation store. `Outside` is a world: which signatures
verify under which key and algorithm, which claims are in date, what the JWKS endpoint serves and
which token ids are revoked. In it `jwt.decode` returns a payload exactly if the signature
verifies and PyJWT's checks of the registered claims pass.
-/

namespace SecurityAudit

namespace JwtVerify

/-- The items of a decoded JSON object. -/
abbrev Claims : Type := List (Str × JVal)

/-- The exceptions, with what `str(e)` says. -/
inductive Raised where
  /-- `TokenInvalid` -/
  | tokenInvalid (message : Str)
  /-- `fastapi.HTTPException` -/
  | http (status : ℕ) (detail : Str)
  /-- `jwt.ExpiredSignatureError` -/
  | expiredSignature (message : Str)
  /-- any other `jwt.InvalidTokenError` -/
  | invalidToken (message : Str)
  /-- `PyJWKClientError` -/
  | jwksClient (message : Str)
  /-- any other `Exception` -/
  | other (message : Str)

/-- `str(e)`. -/
def Raised.message : Raised → Str
  | .tokenInvalid m | .http _ m | .expiredSignature m | .invalidToken m | .jwksClient m
  | .other m => m

/-- The algorithms `jwt.decode` is called with. -/
inductive Alg where
  | hs256
  | rs256
deriving DecidableEq

def Alg.text : Alg → Str
  | .hs256 => str "HS256"
  | .rs256 => str "RS256"

/-- A key: the shared secret, or one the JWKS client handed out. -/
inductive Key where
  | secret (s : Str)
  | jwk (n : ℕ)
deriving DecidableEq

/-- The calls. -/
inductive JwtCall where
  /-- `jwt.get_unverified_header(token)` -/
  | header (token : Str)
  /-- `_get_jwks_client().get_signing_key(kid).key` -/
  | signingKey (kid : JVal)
  /-- `jwt.decode(token, key, algorithms=[alg], options={"verify_aud": False})` -/
  | decode (token : Str) (key : Key) (alg : Alg)
  /-- `bool(_blacklist.exists(key))` -/
  | revoked (key : Str)

def JwtCall.Reply : JwtCall → Type
  | .header _ => Claims
  | .signingKey _ => ℕ
  | .decode _ _ _ => Claims
  | .revoked _ => Bool

abbrev jwtSig : Sig := ⟨JwtCall, JwtCall.Reply, Raised⟩

abbrev ask (c : JwtCall) : Prog jwtSig c.Reply := @Prog.perform jwtSig c

/-- `raise TokenInvalid(message)`. -/
def invalid {α : Type} (message : Str) : Prog jwtSig α := .raise (.tokenInvalid message)

/-- `JWT_SECRET`, `JWT_ISSUER`, `JWT_AUDIENCE`, and how `repr` prints a value. -/
structure Settings where
  secret : Str
  issuer : Str
  audience : Str
  repr : JVal → Str

/-- `d.get(name)`; a missing key reads as `None`. -/
def Claims.get (claims : Claims) (name : String) : JVal :=
  (JVal.lookup (str name) claims).getD .null

variable (S : Settings)

/-- `values` in `_validate_platform_claims`. -/
def audienceValues : JVal → List JVal
  | .arr vs => vs
  | v => [v]

/-- `_validate_platform_claims`. -/
def validatePlatformClaims (payload : Claims) : Prog jwtSig Claims :=
  if (payload.get "iss").isNull = false ∧ (payload.get "iss").isText S.issuer = false then
    invalid (str "invalid issuer")
  else if (payload.get "aud").isNull = false ∧
      (audienceValues (payload.get "aud")).any (JVal.isText S.audience) = false then
    invalid (str "invalid audience")
  else return payload

/-- The `try` around `jwt.decode` and `_validate_platform_claims`, once for each algorithm. -/
def decodeWith (token : Str) (key : Key) (alg : Alg) : Prog jwtSig Claims := do
  let payload ← (do
    let payload ← ask (.decode token key alg)
    validatePlatformClaims S payload).attempt
  match payload with
  | .ok payload => return payload
  | .error (.expiredSignature _) => invalid (str "expired")
  | .error (.invalidToken m) => invalid (str "invalid token: " ++ m)
  | .error e => .raise e

/-- `_decode`. -/
def decode (token : Str) : Prog jwtSig Claims := do
  match ← (ask (.header token)).attempt with
  | .error (.expiredSignature m) => invalid (str "invalid token: " ++ m)
  | .error (.invalidToken m) => invalid (str "invalid token: " ++ m)
  | .error e => .raise e
  | .ok header =>
    if (Claims.get header "alg").isText Alg.rs256.text = true then
      if (Claims.get header "kid").truthy = false then
        invalid (str "RS256 token missing kid header")
      else
        match ← (ask (.signingKey (Claims.get header "kid"))).attempt with
        | .error (.jwksClient m) => invalid (str "unable to resolve signing key: " ++ m)
        | .error e => invalid (str "jwks fetch failed: " ++ e.message)
        | .ok key => decodeWith S token (.jwk key) .rs256
    else if (Claims.get header "alg").isText Alg.hs256.text = true then
      decodeWith S token (.secret S.secret) .hs256
    else invalid (str "unsupported alg: " ++ S.repr (Claims.get header "alg"))

/-- The key of a revoked token id in Redis. -/
def blacklistKey (jti : JVal) : Str := str "blacklist:jti:" ++ jti.shown S.repr

/-- `verify_token`. -/
def verifyToken (token : Option Str) : Prog jwtSig Claims :=
  if token.getD [] = [] then invalid (str "missing token")
  else do
    let payload ← decode S (token.getD [])
    if (Claims.get payload "type").isNull = false ∧
        (Claims.get payload "type").isText (str "access") = false then
      invalid (str "wrong token type: " ++ S.repr (Claims.get payload "type"))
    else if (Claims.get payload "sub").truthy = false then
      invalid (str "missing required claim: sub")
    else if (Claims.get payload "jti").truthy = false then return payload
    else
      match ← (ask (.revoked (blacklistKey S (Claims.get payload "jti")))).attempt with
      | .error _ => invalid (str "revocation state unavailable")
      | .ok true => invalid (str "revoked")
      | .ok false => return payload

/-! ## A world -/

/-- What the program meets: headers, the JWKS endpoint, which signatures verify, the claims of
each token, which claims are in date by the clock, what `jwt.decode` raises where it does not
return, and the revocation store. -/
structure Outside where
  header : Str → Except Raised Claims
  jwks : JVal → Except Raised ℕ
  verifies : Str → Key → Alg → Bool
  claims : Str → Claims
  registered : Claims → Bool
  failure : Str → Key → Alg → Raised
  revoked : Str → Except Raised Bool

variable (O : Outside)

/-- `jwt.decode`. -/
def Outside.jwtDecode (token : Str) (key : Key) (alg : Alg) : Except Raised Claims :=
  if O.verifies token key alg = true ∧ O.registered (O.claims token) = true then .ok (O.claims token)
  else .error (O.failure token key alg)

/-- The answers of the world. -/
def Outside.answer : (c : JwtCall) → jwtSig.Answer c
  | .header token => O.header token
  | .signingKey kid => O.jwks kid
  | .decode token key alg => O.jwtDecode token key alg
  | .revoked key => O.revoked key

theorem Outside.answer_header (token : Str) : O.answer (.header token) = O.header token := rfl

theorem Outside.answer_signingKey (kid : JVal) : O.answer (.signingKey kid) = O.jwks kid := rfl

theorem Outside.answer_revoked (key : Str) : O.answer (.revoked key) = O.revoked key := rfl

/-! ## Valid tokens -/

/-- The algorithm a token declares, and the key for it: the shared secret, or the one the JWKS
endpoint serves for the token's `kid`. -/
def OwnKey (token : Str) (key : Key) (alg : Alg) : Prop :=
  ∃ header, O.header token = .ok header ∧ header.get "alg" = .str alg.text ∧
    match alg with
    | .hs256 => key = .secret S.secret
    | .rs256 => (header.get "kid").truthy = true ∧
        ∃ n, O.jwks (header.get "kid") = .ok n ∧ key = .jwk n

/-- The issuer and the audience, where they are claimed, are the platform's. -/
structure PlatformClaims (payload : Claims) : Prop where
  issuer : payload.get "iss" = .null ∨ payload.get "iss" = .str S.issuer
  audience : payload.get "aud" = .null ∨ payload.get "aud" = .str S.audience ∨
    ∃ vs, payload.get "aud" = .arr vs ∧ .str S.audience ∈ vs

/-- A valid access token, with its payload. -/
structure Valid (token : Str) (payload : Claims) : Prop where
  nonempty : token ≠ []
  signed : ∃ key alg, OwnKey S O token key alg ∧ O.verifies token key alg = true
  claims : payload = O.claims token
  registered : O.registered payload = true
  platform : PlatformClaims S payload
  access : payload.get "type" = .null ∨ payload.get "type" = .str (str "access")
  sub : (payload.get "sub").truthy = true
  jti : (payload.get "jti").truthy = false ∨
    O.revoked (blacklistKey S (payload.get "jti")) = .ok false

variable {S O} {env : (c : JwtCall) → jwtSig.Answer c} {token : Str} {key : Key} {alg : Alg}
  {payload payload' : Claims}

theorem any_audienceValues {v : JVal} {s : Str} :
    (audienceValues v).any (JVal.isText s) = true ↔
      v = .str s ∨ ∃ vs, v = .arr vs ∧ .str s ∈ vs := by
  cases v with
  | arr vs =>
    rw [audienceValues, JVal.any_isText_iff]
    simp
  | _ => simp [audienceValues, JVal.isText_iff]

theorem eval_validatePlatformClaims :
    (validatePlatformClaims S payload).eval env = .ok payload' ↔
      PlatformClaims S payload ∧ payload' = payload := by
  unfold validatePlatformClaims
  split_ifs with hiss haud
  · refine iff_of_false (by simp [invalid]) fun h => ?_
    rcases h.1.issuer with hnull | htext
    · simp [hnull, JVal.isNull] at hiss
    · simp [htext, JVal.isText] at hiss
  · refine iff_of_false (by simp [invalid]) fun h => ?_
    rcases h.1.audience with hnull | hany
    · simp [hnull, JVal.isNull] at haud
    · rw [any_audienceValues.mpr hany] at haud
      simp at haud
  · have hclaims : PlatformClaims S payload := by
      constructor
      · by_cases hnull : (payload.get "iss").isNull = true
        · exact .inl (JVal.isNull_iff.mp hnull)
        · right
          rw [← JVal.isText_iff]
          simpa [Bool.not_eq_true, hnull] using hiss
      · by_cases hnull : (payload.get "aud").isNull = true
        · exact .inl (JVal.isNull_iff.mp hnull)
        · right
          rw [← any_audienceValues]
          by_contra hany
          exact haud ⟨by simpa using hnull, by simpa using hany⟩
    simp [hclaims, eq_comm]

theorem eval_decodeWith :
    (decodeWith S token key alg).eval env = .ok payload ↔
      env (.decode token key alg) = .ok payload ∧ PlatformClaims S payload := by
  unfold decodeWith
  rw [Prog.eval_attempt_bind, Prog.eval_bind, Prog.eval_perform]
  have hinner : (env (.decode token key alg) >>= fun p =>
      (validatePlatformClaims S p).eval env) = .ok payload ↔
        env (.decode token key alg) = .ok payload ∧ PlatformClaims S payload := by
    rw [bind_eq_ok]
    constructor
    · rintro ⟨p, hp, hclaims⟩
      obtain ⟨hclaims, rfl⟩ := eval_validatePlatformClaims.mp hclaims
      exact ⟨hp, hclaims⟩
    · rintro ⟨hp, hclaims⟩
      exact ⟨payload, hp, eval_validatePlatformClaims.mpr ⟨hclaims, rfl⟩⟩
  rw [← hinner]
  -- the handlers only turn one exception into another
  generalize (env (.decode token key alg) >>= fun p =>
    (validatePlatformClaims S p).eval env) = outcome
  cases outcome with
  | ok p => simp
  | error e => cases e <;> simp [invalid]

theorem rs256_ne_hs256 : Alg.rs256.text ≠ Alg.hs256.text := by decide

/-- A token whose header was read has the keys its header says. -/
theorem ownKey_rs256 {header : Claims} (hheader : O.header token = .ok header)
    (halg : header.get "alg" = .str Alg.rs256.text) :
    OwnKey S O token key alg ↔ alg = .rs256 ∧ (header.get "kid").truthy = true ∧
      ∃ n, O.jwks (header.get "kid") = .ok n ∧ key = .jwk n := by
  constructor
  · rintro ⟨header', hheader', halg', hkey⟩
    obtain rfl : header = header' := Except.ok.inj (hheader.symm.trans hheader')
    cases alg with
    | hs256 => exact absurd (JVal.str.inj (halg.symm.trans halg')) rs256_ne_hs256
    | rs256 => exact ⟨rfl, hkey⟩
  · rintro ⟨rfl, hkey⟩
    exact ⟨header, hheader, halg, hkey⟩

theorem ownKey_hs256 {header : Claims} (hheader : O.header token = .ok header)
    (halg : header.get "alg" = .str Alg.hs256.text) :
    OwnKey S O token key alg ↔ alg = .hs256 ∧ key = .secret S.secret := by
  constructor
  · rintro ⟨header', hheader', halg', hkey⟩
    obtain rfl : header = header' := Except.ok.inj (hheader.symm.trans hheader')
    cases alg with
    | hs256 => exact ⟨rfl, hkey⟩
    | rs256 => exact absurd (JVal.str.inj (halg'.symm.trans halg)) rs256_ne_hs256
  · rintro ⟨rfl, hkey⟩
    exact ⟨header, hheader, halg, hkey⟩

theorem eval_decode :
    (decode S token).eval O.answer = .ok payload ↔
      ∃ key alg, OwnKey S O token key alg ∧ O.jwtDecode token key alg = .ok payload ∧
        PlatformClaims S payload := by
  unfold decode
  rw [Prog.eval_attempt_bind, Prog.eval_perform, O.answer_header]
  cases hheader : O.header token with
  | error e =>
    have hnone : ¬∃ key alg, OwnKey S O token key alg ∧ O.jwtDecode token key alg = .ok payload ∧
        PlatformClaims S payload := by
      rintro ⟨key, alg, ⟨header, hok, -⟩, -⟩
      rw [hheader] at hok
      cases hok
    cases e <;> simp [invalid, hnone]
  | ok header =>
    dsimp only
    split_ifs with hrs hkid hhs
    · -- RS256 without a key id
      have halg := JVal.isText_iff.mp hrs
      simp [invalid, ownKey_rs256 hheader halg, hkid]
    · have halg := JVal.isText_iff.mp hrs
      rw [Prog.eval_attempt_bind, Prog.eval_perform, O.answer_signingKey]
      cases hkey : O.jwks (header.get "kid") with
      | error e =>
        have hnone : ¬∃ key alg, OwnKey S O token key alg ∧
            O.jwtDecode token key alg = .ok payload ∧ PlatformClaims S payload := by
          rintro ⟨key, alg, hown, -⟩
          obtain ⟨-, -, n, hn, -⟩ := (ownKey_rs256 hheader halg).mp hown
          rw [hkey] at hn
          cases hn
        cases e <;> simp [invalid, hnone]
      | ok n =>
        have hkid : (header.get "kid").truthy = true := by simpa using hkid
        refine eval_decodeWith.trans ?_
        constructor
        · rintro ⟨hdecode, hclaims⟩
          exact ⟨_, _, (ownKey_rs256 hheader halg).mpr ⟨rfl, hkid, n, hkey, rfl⟩, hdecode, hclaims⟩
        · rintro ⟨key, alg, hown, hdecode, hclaims⟩
          obtain ⟨rfl, -, n', hn', rfl⟩ := (ownKey_rs256 hheader halg).mp hown
          obtain rfl : n = n' := Except.ok.inj (hkey.symm.trans hn')
          exact ⟨hdecode, hclaims⟩
    · have halg := JVal.isText_iff.mp hhs
      refine eval_decodeWith.trans ?_
      constructor
      · rintro ⟨hdecode, hclaims⟩
        exact ⟨_, _, (ownKey_hs256 hheader halg).mpr ⟨rfl, rfl⟩, hdecode, hclaims⟩
      · rintro ⟨key, alg, hown, hdecode, hclaims⟩
        obtain ⟨rfl, rfl⟩ := (ownKey_hs256 hheader halg).mp hown
        exact ⟨hdecode, hclaims⟩
    · -- any other algorithm
      have hnone : ¬∃ key alg, OwnKey S O token key alg ∧
          O.jwtDecode token key alg = .ok payload ∧ PlatformClaims S payload := by
        rintro ⟨key, alg, ⟨header', hheader', halg, -⟩, -⟩
        obtain rfl : header = header' := Except.ok.inj (hheader.symm.trans hheader')
        cases alg
        · exact hhs (JVal.isText_iff.mpr halg)
        · exact hrs (JVal.isText_iff.mpr halg)
      simp [invalid, hnone]

theorem jwtDecode_eq_ok :
    O.jwtDecode token key alg = .ok payload ↔
      O.verifies token key alg = true ∧ O.registered payload = true ∧ payload = O.claims token := by
  unfold Outside.jwtDecode
  constructor
  · intro h
    split_ifs at h with hok
    obtain rfl := Except.ok.inj h
    exact ⟨hok.1, hok.2, rfl⟩
  · rintro ⟨hverifies, hregistered, rfl⟩
    rw [if_pos ⟨hverifies, hregistered⟩]

theorem type_of_not {v : JVal} {s : Str} (h : ¬(v.isNull = false ∧ v.isText s = false)) :
    v = .null ∨ v = .str s := by
  rw [← JVal.isNull_iff, ← JVal.isText_iff]
  cases hnull : v.isNull
  · right
    simpa [hnull] using h
  · exact .inl rfl

/-- What `verify_token` checks once the payload is decoded. -/
theorem eval_verifyToken :
    (verifyToken S (some token)).eval O.answer = .ok payload ↔
      token ≠ [] ∧ (decode S token).eval O.answer = .ok payload ∧
        (payload.get "type" = .null ∨ payload.get "type" = .str (str "access")) ∧
        (payload.get "sub").truthy = true ∧
        ((payload.get "jti").truthy = false ∨
          O.revoked (blacklistKey S (payload.get "jti")) = .ok false) := by
  unfold verifyToken
  rw [Option.getD_some]
  split_ifs with hempty
  · simp [invalid, hempty]
  rw [Prog.eval_bind, bind_eq_ok]
  constructor
  · rintro ⟨p, hp, hrest⟩
    split_ifs at hrest with htype hsub hjti
    · simp [invalid] at hrest
    · simp [invalid] at hrest
    · obtain rfl := Except.ok.inj hrest
      exact ⟨hempty, hp, type_of_not htype, by simpa using hsub, .inl hjti⟩
    · rw [Prog.eval_attempt_bind, Prog.eval_perform, O.answer_revoked] at hrest
      cases hrevoked : O.revoked (blacklistKey S (p.get "jti")) with
      | error e =>
        rw [hrevoked] at hrest
        simp [invalid] at hrest
      | ok revoked =>
        rw [hrevoked] at hrest
        cases revoked with
        | true => simp [invalid] at hrest
        | false =>
          obtain rfl := Except.ok.inj hrest
          exact ⟨hempty, hp, type_of_not htype, by simpa using hsub, .inr hrevoked⟩
  · rintro ⟨-, hp, htype, hsub, hjti⟩
    refine ⟨payload, hp, ?_⟩
    have htype : ¬((payload.get "type").isNull = false ∧
        (payload.get "type").isText (str "access") = false) := by
      rcases htype with hnull | htext
      · simp [hnull, JVal.isNull]
      · simp [htext, JVal.isText]
    rw [if_neg htype, if_neg (by simp [hsub])]
    split_ifs with hfalsy
    · rfl
    · rw [Prog.eval_attempt_bind, Prog.eval_perform, O.answer_revoked,
        hjti.resolve_left hfalsy]
      rfl

/-- `verify_token` returns the payload of a valid token. -/
theorem eval_verifyToken_iff :
    (verifyToken S (some token)).eval O.answer = .ok payload ↔ Valid S O token payload := by
  rw [eval_verifyToken, eval_decode]
  constructor
  · rintro ⟨hne, ⟨key, alg, hown, hdecode, hplatform⟩, htype, hsub, hjti⟩
    obtain ⟨hverifies, hregistered, hclaims⟩ := jwtDecode_eq_ok.mp hdecode
    exact ⟨hne, ⟨key, alg, hown, hverifies⟩, hclaims, hregistered, hplatform, htype, hsub, hjti⟩
  · intro h
    obtain ⟨key, alg, hown, hverifies⟩ := h.signed
    have hdecode : O.jwtDecode token key alg = .ok payload :=
      jwtDecode_eq_ok.mpr ⟨hverifies, h.registered, h.claims⟩
    exact ⟨h.nonempty, ⟨key, alg, hown, hdecode, h.platform⟩, h.access, h.sub, h.jti⟩

end JwtVerify

end SecurityAudit
