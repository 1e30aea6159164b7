import SecurityAudit.Api.AuditEvents
import SecurityAudit.Audit.JwtVerify
import SecurityAudit.RedisAcl.Commands

/-!
# Who may read: `api/deps_audit.py`, `api/deps.py`

Both dependencies take the bearer token off the `Authorization` header, have it verified, and
look for one string in one claim of its payload. They look with Python's `in`, on a claim of any
JSON type: in a list it finds elements, in a string substrings, in an object keys, and in
anything else that is not falsy it raises. `exact_membership_iff` says for which payloads that
makes no difference.
-/

namespace SecurityAudit

open JwtVerify

/-- `PLATFORM_WIDE_PERMISSION`. -/
def platformWidePermission : Str := str "manage_all_orgs"

/-- `ORGANIZATION_READ_ROLE`. -/
def organizationReadRole : Str := str "org_admin"

/-- `PLATFORM_ADMIN_ROLE`. -/
def platformAdminRole : Str := str "platform_admin"

/-- `raise HTTPException(status, detail)`. -/
def httpException {α : Type} (status : ℕ) (detail : String) : Except Raised α :=
  .error (.http status (str detail))

/-- `needle in (payload.get(name) or [])`. -/
def claimContains (payload : Claims) (name : String) (needle : Str) : Except Raised Bool :=
  if (payload.get name).truthy = false then .ok false
  else match (payload.get name).contains needle with
    | some found => .ok found
    | none => .error (.other (str "argument is not iterable"))

/-- `isinstance(org_id, (dict, list, tuple, set)) or org_id in (None, "")`. -/
def noOrganization : JVal → Bool
  | .obj _ | .arr _ | .null => true
  | v => v.isText []

variable (S : Settings)

/-- `require_audit_read_access`, from the verified payload on. -/
def auditReadAccess (payload : Claims) : Except Raised AuditAccess := do
  if ← claimContains payload "permissions" platformWidePermission then return ⟨true, none⟩
  else if !(← claimContains payload "org_role" organizationReadRole) then
    httpException 403 "Audit read permission required"
  else if noOrganization (payload.get "org_id") then
    httpException 403 "Verified organization scope required"
  else return ⟨false, some ((payload.get "org_id").shown S.repr)⟩

/-- `require_platform_admin`, from the verified payload on. -/
def platformAdmin (payload : Claims) : Except Raised Claims := do
  if !(← claimContains payload "roles" platformAdminRole) then
    httpException 403 "Platform admin role required"
  else return payload

/-- `authorization.lower().startswith("bearer ")`: no other letter has one of these as its lower
case. -/
def isBearer (authorization : Str) : Bool :=
  decide ((authorization.take 7).map (fun c => (RedisAcl.asciiUpper c).val) =
    (str "BEARER ").map Fin.val)

/-- `authorization.split(" ", 1)[1].strip()`. -/
def bearerToken (authorization : Str) : Str := strip RedisAcl.isSpace (authorization.drop 7)

/-- The part both dependencies share: the payload of the token in the header. -/
def verifiedPayload (authorization : Option Str) : Prog jwtSig Claims :=
  match authorization.filter isBearer with
  | none => .ofExcept (httpException 401 "Missing or malformed Authorization header")
  | some authorization => do
    match ← (verifyToken S (some (bearerToken authorization))).attempt with
    | .ok payload => return payload
    | .error (.tokenInvalid message) => .raise (.http 401 message)
    | .error e => .raise e

/-- `require_audit_read_access`. -/
def requireAuditReadAccess (authorization : Option Str) : Prog jwtSig AuditAccess := do
  .ofExcept (auditReadAccess S (← verifiedPayload S authorization))

/-- `require_platform_admin`. -/
def requirePlatformAdmin (authorization : Option Str) : Prog jwtSig Claims := do
  .ofExcept (platformAdmin (← verifiedPayload S authorization))

/-! ## Membership -/

/-- The claim is a list with the string as an element. -/
def HasElement (payload : Claims) (name : String) (needle : Str) : Prop :=
  ∃ vs, payload.get name = .arr vs ∧ .str needle ∈ vs

/-- A claim in which `in` finds nothing but elements: it is falsy or a list, or a string or an
object in which it finds nothing. -/
def Plain (payload : Claims) (name : String) (needle : Str) : Prop :=
  (payload.get name).truthy = false ∨ (∃ vs, payload.get name = .arr vs) ∨
    (payload.get name).contains needle = some false

/-- A scalar that is not empty. -/
def NonemptyScalar : JVal → Prop
  | .bool _ | .int _ | .float _ => True
  | .str s => s ≠ []
  | _ => False

theorem noOrganization_iff {v : JVal} : noOrganization v = false ↔ NonemptyScalar v := by
  cases v <;> simp [noOrganization, NonemptyScalar, JVal.isText]

/-- A refusal. -/
def Refusal (e : Raised) : Prop :=
  ∃ status detail, e = .http status detail ∧ (status = 401 ∨ status = 403)

/-- What `require_audit_read_access` is to do with a payload. -/
structure AccessExact (payload : Claims) (o : Except Raised AuditAccess) : Prop where
  platform : ∀ a, o = .ok a → a.platform_wide = true →
    HasElement payload "permissions" platformWidePermission
  organization : ∀ a org, o = .ok a → a.organization_id = some org →
    HasElement payload "org_role" organizationReadRole ∧ NonemptyScalar (payload.get "org_id") ∧
      org = (payload.get "org_id").shown S.repr
  refused : ∀ e, o = .error e → Refusal e

/-- What `require_platform_admin` is to do with a payload. -/
structure AdminExact (payload : Claims) (o : Except Raised Claims) : Prop where
  admin : ∀ p, o = .ok p → HasElement payload "roles" platformAdminRole
  refused : ∀ e, o = .error e → Refusal e

/-- The claims are such that `in` finds nothing but elements of lists, where it is asked and where
it matters. -/
structure PlainClaims (payload : Claims) : Prop where
  permissions : Plain payload "permissions" platformWidePermission
  org_role : HasElement payload "permissions" platformWidePermission ∨
    Plain payload "org_role" organizationReadRole ∨
      ((payload.get "org_role").contains organizationReadRole = some true ∧
        noOrganization (payload.get "org_id") = true)
  roles : Plain payload "roles" platformAdminRole

variable {S} {payload : Claims} {name : String} {needle : Str}

theorem HasElement.plain (h : HasElement payload name needle) : Plain payload name needle :=
  have ⟨vs, hvs, _⟩ := h
  .inr (.inl ⟨vs, hvs⟩)

/-- An element is found. -/
theorem claimContains_of_hasElement (h : HasElement payload name needle) :
    claimContains payload name needle = .ok true := by
  obtain ⟨vs, hvs, hmem⟩ := h
  have hne : vs ≠ [] := List.ne_nil_of_mem hmem
  unfold claimContains
  simp [hvs, JVal.truthy, JVal.contains, hne, JVal.any_isText_iff.mpr hmem]

/-- In a plain claim nothing else is. -/
theorem claimContains_of_plain (h : Plain payload name needle)
    (hnot : ¬HasElement payload name needle) : claimContains payload name needle = .ok false := by
  unfold claimContains
  split_ifs with htruthy
  · rfl
  obtain hfalsy | ⟨vs, hvs⟩ | hcontains := h
  · exact absurd hfalsy htruthy
  · have hany : vs.any (JVal.isText needle) = false := by
      rw [Bool.eq_false_iff]
      exact fun hany => hnot ⟨vs, hvs, JVal.any_isText_iff.mp hany⟩
    rw [hvs, JVal.contains, hany]
  · rw [hcontains]

/-- In any other claim something else is found, or the question raises. -/
theorem claimContains_of_not_plain (h : ¬Plain payload name needle) :
    (claimContains payload name needle = .ok true ∧
        (payload.get name).contains needle = some true) ∨
      ∃ m, claimContains payload name needle = .error (.other m) := by
  have htruthy : ¬(payload.get name).truthy = false := fun hfalsy => h (.inl hfalsy)
  unfold claimContains
  rw [if_neg htruthy]
  cases hcontains : (payload.get name).contains needle with
  | none => exact .inr ⟨_, rfl⟩
  | some found =>
    cases found with
    | false => exact absurd (.inr (.inr hcontains)) h
    | true => exact .inl ⟨rfl, rfl⟩

theorem refusal_403 (detail : Str) : Refusal (.http 403 detail) := ⟨_, _, rfl, .inr rfl⟩

/-- What is left once the platform-wide permission was not found. -/
theorem auditReadAccess_of_false
    (h : claimContains payload "permissions" platformWidePermission = .ok false) :
    auditReadAccess S payload = do
      if !(← claimContains payload "org_role" organizationReadRole) then
        httpException 403 "Audit read permission required"
      else if noOrganization (payload.get "org_id") then
        httpException 403 "Verified organization scope required"
      else return ⟨false, some ((payload.get "org_id").shown S.repr)⟩ := by
  rw [auditReadAccess, h, ok_bind]
  rfl

/-- The second question, where the first one was answered with no. -/
theorem access_exact_of_false
    (h : claimContains payload "permissions" platformWidePermission = .ok false) :
    AccessExact S payload (auditReadAccess S payload) ↔
      Plain payload "org_role" organizationReadRole ∨
        ((payload.get "org_role").contains organizationReadRole = some true ∧
          noOrganization (payload.get "org_id") = true) := by
  rw [auditReadAccess_of_false h]
  by_cases hplain : Plain payload "org_role" organizationReadRole
  · refine iff_of_true ?_ (.inl hplain)
    by_cases helement : HasElement payload "org_role" organizationReadRole
    · rw [claimContains_of_hasElement helement, ok_bind]
      cases hnone : noOrganization (payload.get "org_id") with
      | true => exact ⟨fun a h => (by cases h), fun a org h => (by cases h),
          fun e h => (by cases h; exact refusal_403 _)⟩
      | false =>
        refine ⟨fun a h hwide => ?_, fun a org h horg => ?_, fun e h => (by cases h)⟩
        · cases h
          cases hwide
        · cases h
          cases horg
          exact ⟨helement, noOrganization_iff.mp hnone, rfl⟩
    · rw [claimContains_of_plain hplain helement, ok_bind]
      exact ⟨fun a h => (by cases h), fun a org h => (by cases h),
        fun e h => (by cases h; exact refusal_403 _)⟩
  · obtain ⟨hok, hcontains⟩ | ⟨m, herr⟩ := claimContains_of_not_plain hplain
    · rw [hok, ok_bind]
      cases hnone : noOrganization (payload.get "org_id") with
      | true => exact iff_of_true ⟨fun a h => (by cases h), fun a org h => (by cases h),
          fun e h => (by cases h; exact refusal_403 _)⟩ (.inr ⟨hcontains, rfl⟩)
      | false =>
        refine iff_of_false (fun hexact => ?_) (by simp [hplain])
        exact hplain (hexact.organization _ _ rfl rfl).1.plain
    · rw [herr]
      refine iff_of_false (fun hexact => ?_) ?_
      · obtain ⟨_, _, hhttp, -⟩ := hexact.refused (.other m) rfl
        cases hhttp
      · rintro (h | ⟨hcontains, -⟩)
        · exact hplain h
        · unfold claimContains at herr
          rw [hcontains] at herr
          split_ifs at herr

theorem access_exact_iff :
    AccessExact S payload (auditReadAccess S payload) ↔
      Plain payload "permissions" platformWidePermission ∧
        (HasElement payload "permissions" platformWidePermission ∨
          Plain payload "org_role" organizationReadRole ∨
            ((payload.get "org_role").contains organizationReadRole = some true ∧
              noOrganization (payload.get "org_id") = true)) := by
  by_cases helement : HasElement payload "permissions" platformWidePermission
  · refine iff_of_true ?_ ⟨helement.plain, .inl helement⟩
    rw [auditReadAccess, claimContains_of_hasElement helement, ok_bind]
    exact ⟨fun _ _ _ => helement, fun a org h horg => (by cases h; cases horg),
      fun e h => (by cases h)⟩
  by_cases hplain : Plain payload "permissions" platformWidePermission
  · rw [access_exact_of_false (claimContains_of_plain hplain helement)]
    simp [hplain, helement]
  · refine iff_of_false (fun hexact => ?_) (by simp [hplain])
    obtain ⟨hok, -⟩ | ⟨m, herr⟩ := claimContains_of_not_plain hplain
    · rw [auditReadAccess, hok, ok_bind] at hexact
      exact helement (hexact.platform _ rfl rfl)
    · rw [auditReadAccess, herr] at hexact
      obtain ⟨_, _, hhttp, -⟩ := hexact.refused (.other m) rfl
      cases hhttp

theorem admin_exact_iff :
    AdminExact payload (platformAdmin payload) ↔ Plain payload "roles" platformAdminRole := by
  unfold platformAdmin
  constructor
  · intro h
    by_contra hplain
    obtain ⟨hok, -⟩ | ⟨m, herr⟩ := claimContains_of_not_plain hplain
    · rw [hok, ok_bind] at h
      exact hplain (h.admin payload rfl).plain
    · rw [herr] at h
      obtain ⟨_, _, hhttp, -⟩ := h.refused (.other m) rfl
      cases hhttp
  · intro hplain
    by_cases helement : HasElement payload "roles" platformAdminRole
    · rw [claimContains_of_hasElement helement, ok_bind]
      exact ⟨fun _ _ => helement, fun e h => (by cases h)⟩
    · rw [claimContains_of_plain hplain helement, ok_bind]
      refine ⟨fun p h => (by cases h), fun e h => ?_⟩
      cases h
      exact refusal_403 _

/-- **Privilege comes from exact list membership exactly for the payloads with plain claims.** For
any other verified payload it comes from a substring or a key, or the question raises a
`TypeError` that nothing catches. -/
theorem exact_membership_iff (S : Settings) (env : (c : JwtCall) → jwtSig.Answer c)
    (authorization : Option Str) (payload : Claims)
    (hverified : (verifiedPayload S authorization).eval env = .ok payload) :
    (AccessExact S payload ((requireAuditReadAccess S authorization).eval env) ∧
      AdminExact payload ((requirePlatformAdmin S authorization).eval env)) ↔
        PlainClaims payload := by
  have haccess : (requireAuditReadAccess S authorization).eval env = auditReadAccess S payload := by
    rw [requireAuditReadAccess, Prog.eval_bind, hverified, ok_bind, Prog.eval_ofExcept]
  have hadmin : (requirePlatformAdmin S authorization).eval env = platformAdmin payload := by
    rw [requirePlatformAdmin, Prog.eval_bind, hverified, ok_bind, Prog.eval_ofExcept]
  rw [haccess, hadmin, access_exact_iff, admin_exact_iff]
  constructor
  · rintro ⟨⟨hpermissions, horg⟩, hroles⟩
    exact ⟨hpermissions, horg, hroles⟩
  · intro h
    exact ⟨⟨h.permissions, h.org_role⟩, h.roles⟩

namespace Sample

/-- The platform's settings; nothing below prints a list or an object. -/
def jwtSettings : Settings where
  secret := str "secret"
  issuer := str "omnibioai-auth"
  audience := str "omnibioai-platform"
  repr _ := []

/-- Every token is signed with the shared secret and has this payload, and none is revoked. -/
def signed (payload : Claims) : Outside where
  header _ := .ok [(str "alg", .str (str "HS256"))]
  jwks _ := .error (.jwksClient [])
  verifies _ key alg := decide (key = .secret (str "secret") ∧ alg = .hs256)
  claims _ := payload
  registered _ := true
  failure _ _ _ := .invalidToken []
  revoked _ := .ok false

/-- A platform administrator's claims. -/
def adminClaims : Claims :=
  [(str "sub", .str (str "u1")), (str "permissions", .arr [.str (str "manage_all_orgs")]),
    (str "roles", .arr [.str (str "platform_admin")])]

/-- Claims with one string that contains the permission's name. -/
def textClaims : Claims :=
  [(str "sub", .str (str "u1")), (str "permissions", .str (str "not_manage_all_orgs"))]

end Sample

/-- A platform administrator's token. -/
theorem exact_membership_iff_admin :
    let env := (Sample.signed Sample.adminClaims).answer
    AccessExact Sample.jwtSettings Sample.adminClaims
        ((requireAuditReadAccess Sample.jwtSettings (some (str "Bearer t"))).eval env) ∧
      AdminExact Sample.adminClaims
        ((requirePlatformAdmin Sample.jwtSettings (some (str "Bearer t"))).eval env) := by
  have hpermissions : HasElement Sample.adminClaims "permissions" platformWidePermission :=
    ⟨_, rfl, List.mem_singleton_self _⟩
  have hroles : HasElement Sample.adminClaims "roles" platformAdminRole :=
    ⟨_, rfl, List.mem_singleton_self _⟩
  exact (exact_membership_iff Sample.jwtSettings (Sample.signed Sample.adminClaims).answer
    (some (str "Bearer t")) Sample.adminClaims rfl).mpr
      ⟨hpermissions.plain, .inl hpermissions, hroles.plain⟩

/-- `permissions` is a string that contains the permission's name. -/
theorem substring_grants_platform : ¬∀ (S : Settings) (env : (c : JwtCall) → jwtSig.Answer c)
    (authorization : Option Str) (payload : Claims),
    (verifiedPayload S authorization).eval env = .ok payload →
      AccessExact S payload ((requireAuditReadAccess S authorization).eval env) ∧
        AdminExact payload ((requirePlatformAdmin S authorization).eval env) := by
  intro hclaim
  obtain ⟨haccess, -⟩ := hclaim Sample.jwtSettings (Sample.signed Sample.textClaims).answer
    (some (str "Bearer t")) Sample.textClaims rfl
  obtain ⟨vs, hvs, -⟩ := haccess.platform ⟨true, none⟩ rfl rfl
  cases hvs

end SecurityAudit
