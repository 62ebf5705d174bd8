import Mathlib.Data.List.Basic
/-!
# The JWT verifier

`DefaultJwtVerifier`: how a token is taken apart, which key it is checked with
and which of its claims are checked.

What the platform does is a parameter: the signature checks, `JSON.parse` of a
decoded segment and the arithmetic of numbers, which are doubles.
-/

namespace Fluo.Jwt.Verifier

/-- What `JSON.parse` returns; the numbers are of type `N`. -/
inductive Json (N : Type)
  | null
  | bool (b : Bool)
  | num (n : N)
  | str (s : String)
  | arr (items : List (Json N))
  | obj (fields : List (String × Json N))

/-- A key as it is configured: a string, or a `KeyObject`. -/
inductive Key
  | text (s : String)
  | keyObject (id : Nat)

inductive VerifyError
  | invalidToken (message : String)
  | expiredToken (message : String)
  | configuration (message : String)
  /-- A property of `null` is read. -/
  | typeError
  /-- Thrown by a key provider, the JWKS client or the signature check. -/
  | thrown (message : String)

def invalid : VerifyError := .invalidToken "Invalid JWT."

/-- The platform. `hmac` compares the MAC with the decoded signature; `verify`
throws on a key it cannot use. -/
structure Platform (N : Type) where
  parse : String → Option (Json N)
  hmac : (hash secret signingInput signature : String) → Bool
  verify : (hash : String) → (isEc : Bool) → Key → (signingInput signature : String) → Except VerifyError Bool
  add : N → N → N
  sub : N → N → N
  le : N → N → Bool
  isFinite : N → Bool
  zero : N

/-- `a < b` of numbers that are not `NaN` -/
def Platform.lt {N : Type} (pf : Platform N) (a b : N) : Bool := pf.le a b && !pf.le b a

structure JwtKeyEntry where
  kid : String
  secret : Option String := none
  publicKey : Option Key := none

inductive Audience
  | one (audience : String)
  | many (audiences : List String)

structure RefreshTokenOptions (N : Type) where
  secret : String
  expiresInSeconds : N
  verifyMaxAgeSeconds : Option N := none
  rotation : Bool := false
  /-- The store has `rotate` or `consume`. -/
  atomicStore : Bool := true

/-- `JwtVerifierOptions`. `jwks` is `getSigningKey` of the client for `jwksUri`. -/
structure JwtVerifierOptions (N : Type) where
  algorithms : List String
  audience : Option Audience := none
  clockSkewSeconds : Option N := none
  issuer : Option String := none
  jwks : Option (String → Except VerifyError Key) := none
  keys : List JwtKeyEntry := []
  maxAge : Option N := none
  requireExp : Option Bool := none
  secretOrKeyProvider : Option (Json N → Except VerifyError (Option Key)) := none
  secret : Option String := none
  publicKey : Option Key := none
  refreshToken : Option (RefreshTokenOptions N) := none

/-! ## Algorithms -/

def HMAC_HASH : List (String × String) := [("HS256", "sha256"), ("HS384", "sha384"), ("HS512", "sha512")]

def ASYMMETRIC_HASH : List (String × String) :=
  [("RS256", "sha256"), ("RS384", "sha384"), ("RS512", "sha512"), ("ES256", "sha256"), ("ES384", "sha384"), ("ES512", "sha512")]

def isSupportedAlgorithm (alg : String) : Bool := (HMAC_HASH.lookup alg).isSome || (ASYMMETRIC_HASH.lookup alg).isSome

def assertJwtAlgorithms (algorithms : List String) (context : String) : Except VerifyError Unit :=
  if algorithms.isEmpty then .error (.configuration s!"{context} requires at least one allowed JWT algorithm.")
  else match algorithms.find? (fun alg => !isSupportedAlgorithm alg) with
    | some alg => .error (.configuration s!"{context} received unsupported JWT algorithm \"{alg}\".")
    | none => .ok ()

/-! ## Keys -/

structure KeyResolutionState where
  defaultHmacSecret : Option String := none
  defaultPublicKey : Option Key := none
  hmacKeyCount : Nat := 0
  keyByKid : List (String × JwtKeyEntry) := []
  publicKeyCount : Nat := 0

/-- One round of the loop of `createKeyResolutionState` -/
def KeyResolutionState.add (state : KeyResolutionState) (entry : JwtKeyEntry) : KeyResolutionState :=
  let state := { state with keyByKid := (entry.kid, entry) :: state.keyByKid }
  let state := match entry.secret with
    | some secret =>
      if secret = "" then state
      else { state with
        hmacKeyCount := state.hmacKeyCount + 1
        defaultHmacSecret := if state.hmacKeyCount + 1 = 1 then some secret else none }
    | none => state
  match entry.publicKey with
  | some publicKey => { state with
      publicKeyCount := state.publicKeyCount + 1
      defaultPublicKey := if state.publicKeyCount + 1 = 1 then some publicKey else none }
  | none => state

def createKeyResolutionState (keys : List JwtKeyEntry) : KeyResolutionState := keys.foldl .add {}

variable {N : Type}

/-- `header.kid`, if it is a string and not empty. -/
def kidOf : Option (Json N) → Option String
  | some (.str kid) => if kid = "" then none else some kid
  | _ => none

def resolveHmacSecret (options : JwtVerifierOptions N) (keyState : KeyResolutionState) (kid : Option String) :
    Except VerifyError (Option String) :=
  match kid with
  | some kid => match keyState.keyByKid.lookup kid with
    | none => .error (.invalidToken "JWT key id (kid) is not recognized.")
    | some matchingKey => match matchingKey.secret with
      | some secret => if secret = "" then .error (.configuration s!"JWT key \"{kid}\" does not provide an HMAC secret.") else .ok (some secret)
      | none => .error (.configuration s!"JWT key \"{kid}\" does not provide an HMAC secret.")
  | none =>
    if keyState.hmacKeyCount > 1 then .error (.invalidToken "JWT is missing key id (kid) for multi-key HMAC verification.")
    else .ok (keyState.defaultHmacSecret <|> options.secret)

def resolveStaticPublicKey (options : JwtVerifierOptions N) (keyState : KeyResolutionState) (kid : Option String) :
    Except VerifyError (Option Key) :=
  let unnamed : Except VerifyError (Option Key) :=
    if keyState.publicKeyCount > 1 then
      .error (.invalidToken "JWT is missing key id (kid) for multi-key public key verification.")
    else .ok (keyState.defaultPublicKey <|> options.publicKey)
  match kid with
  | some kid =>
    if keyState.keyByKid.isEmpty then unnamed
    else match keyState.keyByKid.lookup kid with
      | none => .error (.invalidToken "JWT key id (kid) is not recognized.")
      | some matchingKey => match matchingKey.publicKey with
        | none => .error (.configuration s!"JWT key \"{kid}\" does not provide a public key.")
        | some publicKey => .ok (some publicKey)
  | none => unnamed

def resolveJwksPublicKey (kid : Option String) (getSigningKey : String → Except VerifyError Key) : Except VerifyError Key :=
  match kid with
  | none => .error (.invalidToken "JWT is missing key id (kid) for JWKS resolution.")
  | some kid => getSigningKey kid

def resolveProviderKey (options : JwtVerifierOptions N) (header : Json N) : Except VerifyError (Option Key) :=
  match options.secretOrKeyProvider with
  | none => .ok none
  | some provider => provider header

/-! ## Signatures -/

variable (pf : Platform N)

/-- `value[name]`; only `null` throws. -/
def Json.get (value : Json N) (name : String) : Except VerifyError (Option (Json N)) :=
  match value with
  | .null => .error .typeError
  | .obj fields => .ok (fields.lookup name)
  | _ => .ok none

def verifyHmacSignature (algorithm secret signingInput signatureSegment : String) : Except VerifyError Unit :=
  match HMAC_HASH.lookup algorithm with
  | none => .error invalid
  | some hash => if pf.hmac hash secret signingInput signatureSegment then .ok () else .error invalid

def verifyAsymmetricSignature (algorithm : String) (publicKey : Key) (signingInput signatureSegment : String) : Except VerifyError Unit :=
  match ASYMMETRIC_HASH.lookup algorithm with
  | none => .error invalid
  | some hash => do
    let valid ← pf.verify hash ("ES".toList.isPrefixOf algorithm.toList) publicKey signingInput signatureSegment
    if valid then .ok () else .error invalid

/-- `providerKey ?? resolveHmacSecret(..)` -/
def hmacTokenSecret (kid : Option String) (options : JwtVerifierOptions N) (keyState : KeyResolutionState) :
    Option Key → Except VerifyError (Option String)
  | some (.keyObject _) => .error (.configuration "secretOrKeyProvider must return a string for HMAC algorithms.")
  | some (.text secret) => .ok (some secret)
  | none => resolveHmacSecret options keyState kid

def verifyHmacTokenSignature (header : Json N) (alg : String) (kid : Option String) (signingInput signatureSegment : String)
    (options : JwtVerifierOptions N) (keyState : KeyResolutionState) : Except VerifyError Unit := do
  let providerKey ← resolveProviderKey options header
  match ← hmacTokenSecret kid options keyState providerKey with
  | none | some "" => .error (.configuration "JWT secret is not configured.")
  | some secret => verifyHmacSignature pf alg secret signingInput signatureSegment

/-- `providerKey ?? (jwksClient ? .. : ..)` -/
def asymmetricTokenKey (kid : Option String) (options : JwtVerifierOptions N) (keyState : KeyResolutionState) :
    Option Key → Except VerifyError (Option Key)
  | some key => .ok (some key)
  | none => match options.jwks with
    | some getSigningKey => (resolveJwksPublicKey kid getSigningKey).map some
    | none => resolveStaticPublicKey options keyState kid

def verifyAsymmetricTokenSignature (header : Json N) (alg : String) (kid : Option String) (signingInput signatureSegment : String)
    (options : JwtVerifierOptions N) (keyState : KeyResolutionState) : Except VerifyError Unit := do
  let providerKey ← resolveProviderKey options header
  match ← asymmetricTokenKey kid options keyState providerKey with
  | none | some (.text "") => .error (.configuration "JWT public key is not configured.")
  | some publicKey => verifyAsymmetricSignature pf alg publicKey signingInput signatureSegment

/-! ## Claims -/

def resolveClockSkewSeconds (clockSkewSeconds : Option N) : Except VerifyError N :=
  let clockSkew := clockSkewSeconds.getD pf.zero
  if pf.isFinite clockSkew && !pf.lt clockSkew pf.zero then .ok clockSkew
  else .error (.configuration "JWT clockSkewSeconds must be a non-negative finite number.")

def assertFiniteNumericDateClaim (claim : String) : Option (Json N) → Except VerifyError Unit
  | none => .ok ()
  | some (.num n) => if pf.isFinite n then .ok () else .error (.invalidToken s!"JWT {claim} claim must be a finite numeric date.")
  | _ => .error (.invalidToken s!"JWT {claim} claim must be a finite numeric date.")

def validateMaxAgeClaims (iat : Option (Json N)) (maxAge : Option N) (clockSkew now : N) : Except VerifyError Unit :=
  match maxAge with
  | none => .ok ()
  | some maxAge =>
    if !(pf.isFinite maxAge) || pf.lt maxAge pf.zero then .error (.configuration "JWT maxAge must be a non-negative finite number.")
    else match iat with
      | some (.num iat) =>
        if !pf.isFinite iat then .error (.invalidToken "JWT iat claim must be a finite numeric date when maxAge is configured.")
        else if pf.lt now (pf.sub iat clockSkew) then .error (.invalidToken "JWT iat claim cannot be in the future.")
        else if pf.lt (pf.add maxAge clockSkew) (pf.sub now iat) then .error (.expiredToken "JWT exceeds maxAge.")
        else .ok ()
      | _ => .error (.invalidToken "JWT iat claim must be a finite numeric date when maxAge is configured.")

/-- The value is the string. -/
def Json.isString (value : Option (Json N)) (s : String) : Bool :=
  match value with
  | some (.str t) => t = s
  | _ => false

/-- `actualAudience.includes(audience)` -/
def hasAudience (aud : Option (Json N)) (audience : String) : Bool :=
  match aud with
  | some (.arr items) => items.any fun item => Json.isString (some item) audience
  | some (.str s) => s = audience && s ≠ ""
  | _ => false

def audienceMatches (aud : Option (Json N)) : Option Audience → Bool
  | none | some (.one "") => true
  | some (.one audience) => hasAudience aud audience
  | some (.many audiences) => audiences.any (hasAudience aud)

def validateIssuerAndAudience (iss aud : Option (Json N)) (options : JwtVerifierOptions N) : Except VerifyError Unit :=
  if options.issuer.any fun issuer => issuer ≠ "" && !Json.isString iss issuer then
    .error (.invalidToken "JWT issuer does not match.")
  else if audienceMatches aud options.audience then .ok ()
  else .error (.invalidToken "JWT audience does not match.")

def requireExpClaim (requireExp : Option Bool) (exp : Option (Json N)) : Except VerifyError Unit :=
  match requireExp, exp with
  | some false, _ => .ok ()
  | _, some (.num _) => .ok ()
  | _, _ => .error (.invalidToken "JWT is missing a required expiration claim.")

def checkExpired (exp : Option (Json N)) (clockSkew now : N) : Except VerifyError Unit :=
  match exp with
  | some (.num exp) => if pf.le (pf.add exp clockSkew) now then .error (.expiredToken "JWT has expired.") else .ok ()
  | _ => .ok ()

def checkActive (nbf : Option (Json N)) (clockSkew now : N) : Except VerifyError Unit :=
  match nbf with
  | some (.num nbf) => if pf.lt now (pf.sub nbf clockSkew) then .error (.invalidToken "JWT is not active yet.") else .ok ()
  | _ => .ok ()

def validateTokenClaims (payload : Json N) (options : JwtVerifierOptions N) (now : N) : Except VerifyError Unit := do
  let clockSkew ← resolveClockSkewSeconds pf options.clockSkewSeconds
  let exp ← payload.get "exp"
  requireExpClaim options.requireExp exp
  assertFiniteNumericDateClaim pf "exp" exp
  let nbf ← payload.get "nbf"
  assertFiniteNumericDateClaim pf "nbf" nbf
  let iat ← payload.get "iat"
  validateMaxAgeClaims pf iat options.maxAge clockSkew now
  checkExpired pf exp clockSkew now
  checkActive pf nbf clockSkew now
  let iss ← payload.get "iss"
  let aud ← payload.get "aud"
  validateIssuerAndAudience iss aud options

structure JwtPrincipal (N : Type) where
  subject : String
  issuer : Option (Json N)
  audience : Option (Json N)
  roles : Option (List String)
  scopes : Option (List String)
  claims : Json N

def strings (items : List (Json N)) : List String := items.filterMap fun
  | .str s => some s
  | _ => none

def scopesOf (scopes scope : Option (Json N)) : Option (List String) :=
  match scopes, scope with
  | some (.arr items), _ => some ((strings items).filter (· ≠ ""))
  | _, some (.str s) => some (((s.toList.splitOn ' ').map String.ofList).filter (· ≠ ""))
  | _, _ => none

def rolesOf : Option (Json N) → Option (List String)
  | some (.arr items) => some (strings items)
  | _ => none

def normalizePrincipal (claims : Json N) : Except VerifyError (JwtPrincipal N) := do
  let missing := VerifyError.invalidToken "JWT is missing a valid subject claim."
  match ← claims.get "sub" with
  | some (.str "") => .error missing
  | some (.str subject) => .ok {
      subject
      issuer := ← claims.get "iss"
      audience := ← claims.get "aud"
      roles := rolesOf (← claims.get "roles")
      scopes := scopesOf (← claims.get "scopes") (← claims.get "scope")
      claims }
  | _ => .error missing

/-! ## Tokens -/

/-- `token.split('.')`, which must have three parts -/
def parseTokenSegments (token : String) : Except VerifyError (String × String × String) :=
  match (token.toList.splitOn '.').map String.ofList with
  | [header, payload, signature] => .ok (header, payload, signature)
  | _ => .error invalid

def parseJwtPart (value : String) : Except VerifyError (Json N) :=
  match pf.parse value with
  | some json => .ok json
  | none => .error invalid

def verifyTokenSignature (header : Json N) (alg : String) (kid : Option String) (signingInput signatureSegment : String)
    (options : JwtVerifierOptions N) (keyState : KeyResolutionState) : Except VerifyError Unit :=
  if (HMAC_HASH.lookup alg).isSome then verifyHmacTokenSignature pf header alg kid signingInput signatureSegment options keyState
  else verifyAsymmetricTokenSignature pf header alg kid signingInput signatureSegment options keyState

/-- `header.alg`, if `isAllowedAlgorithm` -/
def allowedAlgorithm (alg : Option (Json N)) (allowed : List String) : Except VerifyError String :=
  match alg with
  | some (.str alg) => if isSupportedAlgorithm alg && allowed.contains alg then .ok alg
    else .error (.invalidToken "JWT algorithm is not allowed.")
  | _ => .error (.invalidToken "JWT algorithm is not allowed.")

def verifyToken (now : N) (token : String) (options : JwtVerifierOptions N) (keyState : KeyResolutionState) :
    Except VerifyError (JwtPrincipal N) := do
  let (headerSegment, payloadSegment, signatureSegment) ← parseTokenSegments token
  let header ← parseJwtPart pf headerSegment
  let alg ← allowedAlgorithm (← header.get "alg") options.algorithms
  let kid ← header.get "kid"
  verifyTokenSignature pf header alg (kidOf kid) (headerSegment ++ "." ++ payloadSegment) signatureSegment options keyState
  let payload ← parseJwtPart pf payloadSegment
  validateTokenClaims pf payload options now
  normalizePrincipal payload

/-! ## The verifier -/

def normalizeRefreshTokenOptions (options : RefreshTokenOptions N) : Except VerifyError (RefreshTokenOptions N) :=
  if options.secret = "" then .error (.configuration "JWT refresh token secret must be a non-empty string.")
  else if !(pf.isFinite options.expiresInSeconds) || pf.le options.expiresInSeconds pf.zero then
    .error (.configuration "JWT refresh token expiresInSeconds must be a positive finite number.")
  else if options.verifyMaxAgeSeconds.any fun age => !(pf.isFinite age) || pf.lt age pf.zero then
    .error (.configuration "JWT refresh token verifyMaxAgeSeconds must be a non-negative finite number.")
  else if options.rotation && !options.atomicStore then
    .error (.configuration "Refresh token rotation requires an atomic store.rotate() or store.consume() implementation.")
  else .ok options

def createRefreshVerificationOptions (options : JwtVerifierOptions N) (refreshToken : RefreshTokenOptions N) :
    Except VerifyError (JwtVerifierOptions N) :=
  let algorithms := options.algorithms.filter fun alg => (HMAC_HASH.lookup alg).isSome
  if algorithms.isEmpty then
    .error (.configuration "JWT refresh token verifier requires at least one HMAC algorithm (HS256/HS384/HS512) in the allowed algorithms list.")
  else .ok {
    algorithms
    audience := options.audience
    clockSkewSeconds := options.clockSkewSeconds
    issuer := options.issuer
    maxAge := refreshToken.verifyMaxAgeSeconds
    requireExp := some true
    secret := some refreshToken.secret }

structure DefaultJwtVerifier (N : Type) where
  options : JwtVerifierOptions N
  keyResolutionState : KeyResolutionState
  refreshVerificationOptions : Option (JwtVerifierOptions N)
  refreshKeyResolutionState : KeyResolutionState

/-- The constructor -/
def DefaultJwtVerifier.create (options : JwtVerifierOptions N) : Except VerifyError (DefaultJwtVerifier N) := do
  assertJwtAlgorithms options.algorithms "JWT verifier"
  let refresh ← match options.refreshToken with
    | none => .ok none
    | some refreshToken => do
      let refreshToken ← normalizeRefreshTokenOptions pf refreshToken
      (createRefreshVerificationOptions options refreshToken).map some
  return {
    options
    keyResolutionState := createKeyResolutionState options.keys
    refreshVerificationOptions := refresh
    refreshKeyResolutionState := createKeyResolutionState ((refresh.map (·.keys)).getD []) }

structure AccessTokenVerificationOverrides (N : Type) where
  algorithms : Option (List String) := none
  audience : Option Audience := none
  clockSkewSeconds : Option N := none
  issuer : Option String := none
  maxAge : Option N := none
  requireExp : Option Bool := none

namespace DefaultJwtVerifier
variable (v : DefaultJwtVerifier N) (now : N) (token : String)

def verifyAccessToken : Except VerifyError (JwtPrincipal N) := verifyToken pf now token v.options v.keyResolutionState

def overridden (options : JwtVerifierOptions N) (overrides : AccessTokenVerificationOverrides N) : JwtVerifierOptions N :=
  { options with
    algorithms := overrides.algorithms.getD options.algorithms
    audience := overrides.audience <|> options.audience
    clockSkewSeconds := overrides.clockSkewSeconds <|> options.clockSkewSeconds
    issuer := overrides.issuer <|> options.issuer
    maxAge := overrides.maxAge <|> options.maxAge
    requireExp := overrides.requireExp <|> options.requireExp }

def verifyAccessTokenWithOverrides (overrides : AccessTokenVerificationOverrides N) : Except VerifyError (JwtPrincipal N) := do
  assertJwtAlgorithms (overrides.algorithms.getD v.options.algorithms) "JWT verifier"
  verifyToken pf now token (overridden v.options overrides) v.keyResolutionState

def verifyRefreshToken : Except VerifyError (JwtPrincipal N) :=
  match v.refreshVerificationOptions with
  | none => .error (.configuration "JWT refresh token options are not configured.")
  | some options => verifyToken pf now token options v.refreshKeyResolutionState

end DefaultJwtVerifier

end Fluo.Jwt.Verifier
