import Fluo.Jwt.JsonText
import Fluo.Jwt.Acceptance
import Fluo.Lib.Base64
/-!
# Signing and verifying

`DefaultJwtSigner`, and what the verifier makes of the tokens that it signs. The signer and
the verifier choose their keys on their own: the signer takes the first key of the ring that it
can sign with, the verifier the key that the token names, or else the only one there is.

What Node does is a parameter: numbers, the MACs and the signatures. Of the signatures only
this is assumed, that the matching key verifies them.
-/

namespace Fluo.Jwt.Signer

open Lib (Text OrderedMap Base64.decode_congr bind_eq_ok seq_eq_ok)
open Verifier
open JsonText (Numerals Value)

variable {N : Type}

/-! ## Segments -/

def urlChar (c : Char) : Char := if c = '+' then '-' else if c = '/' then '_' else c

def standardChar (c : Char) : Char := if c = '-' then '+' else if c = '_' then '/' else c

/-- `Buffer.from(value).toString('base64')` in the other alphabet, without padding -/
def encodeBase64Url (octets : List Nat) : Text := ((Lib.Base64.encode octets).filter (· ≠ '=')).map urlChar

def decodeBase64Url (value : Text) : List Nat :=
  let normalized := value.map standardChar
  let padding := if normalized.length % 4 = 0 then [] else List.replicate (4 - normalized.length % 4) '='
  Lib.Base64.decode (normalized ++ padding)

/-! ## The platform -/

structure Host (N : Type) where
  numerals : Numerals N
  ofNat : Nat → N
  add : N → N → N
  sub : N → N → N
  le : N → N → Bool
  isFinite : N → Bool
  mac : (hash secret signingInput : String) → List UInt8
  createSign : (hash : String) → (isEc : Bool) → Key → (signingInput : String) → Except VerifyError (List UInt8)
  createVerify : (hash : String) → (isEc : Bool) → Key → (signingInput : String) → (signature : List Nat) → Except VerifyError Bool

namespace Host
variable (host : Host N)

/-- What the verifier is given. -/
def platform : Platform N where
  parse segment := JsonText.parse host.numerals (Lib.Utf8.decode (decodeBase64Url segment.toList))
  hmac hash secret signingInput signature :=
    let expected := encodeBase64Url ((host.mac hash secret signingInput).map UInt8.toNat)
    Lib.Base64.decode expected = Lib.Base64.decode signature.toList
  verify hash isEc key signingInput signature := host.createVerify hash isEc key signingInput (Lib.Base64.decode signature.toList)
  add := host.add
  sub := host.sub
  le := host.le
  isFinite := host.isFinite
  zero := host.ofNat 0

/-- A number in JSON: `-0` is written as `0`, and what is not finite as `null`. -/
def number (n : N) : Json N := if host.isFinite n then .num (host.add n (host.ofNat 0)) else .null

/-- `encodeBase64Url(JSON.stringify(value))` -/
def segment (value : Json N) : Text := encodeBase64Url (Lib.Utf8.encode (JsonText.stringify host.numerals value))

end Host

/-! ## Options -/

/-- An entry of `keys` with the key that it signs with. -/
structure SigningKeyEntry extends JwtKeyEntry where
  privateKey : Option Key := none

/-- `JwtVerifierOptions` with what only the signer reads. -/
structure JwtOptions (N : Type) extends JwtVerifierOptions N where
  accessTokenTtlSeconds : Option N := none
  privateKey : Option Key := none
  /-- The `keys` -/
  entries : List SigningKeyEntry := []
  keys := entries.map (·.toJwtKeyEntry)
  keys_eq : keys = entries.map (·.toJwtKeyEntry) := by rfl

/-- The claims of a payload: an object, in which no name stands twice. -/
structure JwtClaims (N : Type) where
  fields : OrderedMap String (Value N)
  proper : Value.Proper (.obj fields)

/-! ## Signing -/

def hasSecret (entry : SigningKeyEntry) : Bool := entry.secret.any (· ≠ "")

def resolveSigningKeyEntry (options : JwtOptions N) (algorithm : String) : Option SigningKeyEntry :=
  if (HMAC_HASH.lookup algorithm).isSome then options.entries.find? hasSecret
  else options.entries.find? fun entry => entry.privateKey.isSome

def resolveAccessTokenTtlSeconds (host : Host N) (options : JwtOptions N) : Except VerifyError N :=
  let ttl := options.accessTokenTtlSeconds.getD (host.ofNat 3600)
  if !host.isFinite ttl || host.le ttl (host.ofNat 0) then
    .error (.configuration "JWT accessTokenTtlSeconds must be a positive finite number.")
  else .ok ttl

/-- `value ?? other` -/
def orElse (value : Option (Value N)) (other : Value N) : Value N :=
  match value with
  | none | some .undefined | some .null => other
  | some value => value

def audienceValue : Option Audience → Value N
  | none => .undefined
  | some (.one audience) => .str audience
  | some (.many audiences) => .arr (audiences.map .str)

def issuerValue : Option String → Value N
  | none => .undefined
  | some issuer => .str issuer

/-- The payload, as the object literal builds it. -/
def payloadOf (host : Host N) (now ttl : N) (claims : OrderedMap String (Value N)) (options : JwtOptions N) : OrderedMap String (Value N) :=
  (((claims.set "aud" (orElse (claims.get "aud") (audienceValue options.audience))).set
    "exp" (orElse (claims.get "exp") (.num (host.add now ttl)))).set
    "iat" (orElse (claims.get "iat") (.num now))).set
    "iss" (orElse (claims.get "iss") (issuerValue options.issuer))

def headerOf (algorithm : String) (activeKey : Option SigningKeyEntry) : List (String × Json N) :=
  [("alg", .str algorithm), ("typ", .str "JWT")] ++ (activeKey.map fun entry => ("kid", .str entry.kid)).toList

def findAlgorithm (algorithms : List String) (hmacOnly : Bool) : Except VerifyError String :=
  match algorithms.find? fun alg => if hmacOnly then (HMAC_HASH.lookup alg).isSome else isSupportedAlgorithm alg with
  | some algorithm => .ok algorithm
  | none =>
    if hmacOnly then
      .error (.configuration "JWT refresh token signer requires at least one HMAC algorithm (HS256/HS384/HS512) in the allowed algorithms list.")
    else
      .error (.configuration "JWT signer requires at least one supported algorithm (HS256/HS384/HS512/RS256/RS384/RS512/ES256/ES384/ES512) in the allowed algorithms list.")

def signAsymmetric (host : Host N) (algorithm : String) (privateKey : Option Key) (signingInput : String) : Except VerifyError Text :=
  match privateKey with
  | none | some (.text "") => .error (.configuration "JWT private key is not configured.")
  | some privateKey =>
    match ASYMMETRIC_HASH.lookup algorithm with
    | none => .error (.configuration s!"No hash mapping for asymmetric algorithm \"{algorithm}\".")
    | some hash => do
      let signature ← host.createSign hash ("ES".toList.isPrefixOf algorithm.toList) privateKey signingInput
      return encodeBase64Url (signature.map UInt8.toNat)

def signHmac (host : Host N) (algorithm : String) (secret : Option String) (signingInput : String) : Except VerifyError Text :=
  match secret with
  | none | some "" => .error (.configuration "JWT secret is not configured.")
  | some secret =>
    match HMAC_HASH.lookup algorithm with
    | none => .error (.configuration s!"No hash mapping for HMAC algorithm \"{algorithm}\".")
    | some hash => .ok (encodeBase64Url ((host.mac hash secret signingInput).map UInt8.toNat))

/-- `activeKey?.privateKey ?? options.privateKey` -/
def signingKey (options : JwtOptions N) (algorithm : String) : Option Key :=
  ((resolveSigningKeyEntry options algorithm).bind (·.privateKey)) <|> options.privateKey

/-- `activeKey?.secret ?? options.secret` -/
def signingSecret (options : JwtOptions N) (algorithm : String) : Option String :=
  ((resolveSigningKeyEntry options algorithm).bind (·.secret)) <|> options.secret

def sign (host : Host N) (options : JwtOptions N) (algorithm signingInput : String) : Except VerifyError Text :=
  if (ASYMMETRIC_HASH.lookup algorithm).isSome then signAsymmetric host algorithm (signingKey options algorithm) signingInput
  else signHmac host algorithm (signingSecret options algorithm) signingInput

def signToken (host : Host N) (now : N) (claims : JwtClaims N) (options : JwtOptions N) (hmacOnly : Bool) : Except VerifyError String := do
  let algorithm ← findAlgorithm options.algorithms hmacOnly
  let ttl ← resolveAccessTokenTtlSeconds host options
  let payload := JsonText.toFields host.number (payloadOf host now ttl claims.fields options)
  let header := headerOf algorithm (resolveSigningKeyEntry options algorithm)
  let headerSegment := host.segment (.obj header)
  let payloadSegment := host.segment (.obj payload)
  let signatureSegment ← sign host options algorithm (String.ofList headerSegment ++ "." ++ String.ofList payloadSegment)
  return String.ofList (headerSegment ++ '.' :: (payloadSegment ++ '.' :: signatureSegment))

/-! ## The signer -/

structure DefaultJwtSigner (N : Type) where
  options : JwtOptions N
  refreshAlgorithms : List String

namespace DefaultJwtSigner

/-- The constructor -/
def create (options : JwtOptions N) : Except VerifyError (DefaultJwtSigner N) := do
  assertJwtAlgorithms options.algorithms "JWT signer"
  return { options, refreshAlgorithms := options.algorithms.filter fun alg => (HMAC_HASH.lookup alg).isSome }

def resolveRefreshSigningOptions (host : Host N) (signer : DefaultJwtSigner N) : Except VerifyError (JwtOptions N) :=
  match signer.options.refreshToken with
  | none => .error (.configuration "JWT refresh token options are not configured.")
  | some refreshToken => do
    let refreshToken ← normalizeRefreshTokenOptions host.platform refreshToken
    return {
      audience := signer.options.audience
      accessTokenTtlSeconds := some refreshToken.expiresInSeconds
      algorithms := signer.refreshAlgorithms
      issuer := signer.options.issuer
      secret := some refreshToken.secret }

def signAccessToken (host : Host N) (signer : DefaultJwtSigner N) (now : N) (claims : JwtClaims N) : Except VerifyError String :=
  signToken host now claims signer.options false

def signRefreshToken (host : Host N) (signer : DefaultJwtSigner N) (now : N) (claims : JwtClaims N) : Except VerifyError String := do
  let refreshOptions ← signer.resolveRefreshSigningOptions host
  signToken host now claims refreshOptions true

end DefaultJwtSigner

end Fluo.Jwt.Signer
