import Fluo.Jwt.Signer
import Mathlib.Data.List.Nodup
/-!
# Verifying signed tokens

A signed token has the header and the payload that were signed, and the verifier accepts its
signature where its choice of the key agrees with the signer's. What is left is then the
verifier's policy for the claims.
-/

namespace Fluo.Jwt.Signer

open Lib (Text OrderedMap bind_eq_ok seq_eq_ok guard_eq_ok)
open Verifier
open JsonText (Numerals Value)

variable {N : Type}

/-! ## Segments -/

theorem sextet_urlChar (c : Char) : Lib.Base64.sextet (urlChar c) = Lib.Base64.sextet c := by
  unfold urlChar
  split
  next h => rw [h]; rfl
  next =>
    split
    next h => rw [h]; rfl
    next => rfl

theorem sextet_standardChar (c : Char) : Lib.Base64.sextet (standardChar c) = Lib.Base64.sextet c := by
  unfold standardChar
  split
  next h => rw [h]; rfl
  next =>
    split
    next h => rw [h]; rfl
    next => rfl

theorem decode_encodeBase64Url {octets : List Nat} (h : ∀ o ∈ octets, o < 0x100) : Lib.Base64.decode (encodeBase64Url octets) = octets := by
  have hpadding : ∀ c, decide (c ≠ '=') = false → Lib.Base64.sextet c = none := by
    intro c hc
    have : c = '=' := by simpa using hc
    rw [this, Lib.Base64.sextet_padding]
  have hsextets : (encodeBase64Url octets).filterMap Lib.Base64.sextet = (Lib.Base64.encode octets).filterMap Lib.Base64.sextet := by
    rw [encodeBase64Url, Lib.Base64.filterMap_map sextet_urlChar, Lib.Base64.filterMap_filter hpadding]
  rw [Lib.Base64.decode_congr hsextets, Lib.Base64.decode_encode h]

theorem decodeBase64Url_eq (value : Text) : decodeBase64Url value = Lib.Base64.decode value := by
  refine Lib.Base64.decode_congr ?_
  rw [List.filterMap_append, Lib.Base64.filterMap_map sextet_standardChar]
  split
  · simp
  · simp [List.filterMap_replicate]

theorem notMem_encodeBase64Url {octets : List Nat} (h : ∀ o ∈ octets, o < 0x100) : '.' ∉ encodeBase64Url octets := by
  intro hmem
  obtain ⟨c, hc, heq⟩ := List.mem_map.1 hmem
  obtain ⟨hc, hpad⟩ := List.mem_filter.1 hc
  have hdot : c = '.' := by
    unfold urlChar at heq
    split at heq
    · cases heq
    · split at heq
      · cases heq
      · exact heq
  subst hdot
  rcases Lib.Base64.mem_encode h hc with hsome | hpad
  · cases hsome
  · cases hpad

theorem encode_lt (text : Text) : ∀ o ∈ Lib.Utf8.encode text, o < 0x100 := by
  intro o ho
  obtain ⟨c, -, ho⟩ := List.mem_flatMap.1 ho
  have hbounds := Lib.Utf8.toNat_bounds c
  exact Lib.utf8_lt (by omega) o ho

theorem toNat_lt (octets : List UInt8) : ∀ o ∈ octets.map UInt8.toNat, o < 0x100 := by
  intro o ho
  obtain ⟨b, -, rfl⟩ := List.mem_map.1 ho
  exact b.toNat_lt

/-! ## The platform -/

/-- A finite number is read back, and the matching public key verifies what a private key signed. -/
structure Host.Lawful (host : Host N) (Matches : Key → Key → Prop) : Prop where
  exact : ∀ n, host.isFinite n = true → host.numerals.Exact (host.add n (host.ofNat 0))
  verifies : ∀ {hash isEc privateKey publicKey signingInput signature}, Matches privateKey publicKey →
    host.createSign hash isEc privateKey signingInput = .ok signature →
    host.createVerify hash isEc publicKey signingInput (signature.map UInt8.toNat) = .ok true

variable {host : Host N} {Matches : Key → Key → Prop}

theorem Host.Lawful.proper_number (h : host.Lawful Matches) (n : N) : JsonText.Proper host.numerals (host.number n) := by
  unfold Host.number
  split
  next hfinite => exact .num (h.exact n hfinite)
  next => exact .null

theorem notMem_segment (value : Json N) : '.' ∉ host.segment value := notMem_encodeBase64Url (encode_lt _)

theorem parse_segment {value : Json N} (h : JsonText.Proper host.numerals value) :
    host.platform.parse (String.ofList (host.segment value)) = some value := by
  show JsonText.parse host.numerals (Lib.Utf8.decode (decodeBase64Url (String.ofList (host.segment value)).toList)) = some value
  rw [String.toList_ofList, decodeBase64Url_eq, Host.segment, decode_encodeBase64Url (encode_lt _), Lib.Utf8.decode_encode,
    JsonText.parse_stringify h]

/-! ## What is signed -/

theorem proper_headerOf (algorithm : String) (activeKey : Option SigningKeyEntry) :
    JsonText.Proper host.numerals (.obj (headerOf algorithm activeKey)) := by
  cases activeKey with
  | none => exact .obj (by simp [headerOf, OrderedMap.Keyed]) (by simp [headerOf, JsonText.Proper.str])
  | some entry => exact .obj (by simp [headerOf, OrderedMap.Keyed]) (by simp [headerOf, JsonText.Proper.str])

theorem proper_orElse {value : Option (Value N)} {other : Value N} (hvalue : ∀ v, value = some v → v.Proper) (hother : other.Proper) :
    (orElse value other).Proper := by
  unfold orElse
  split
  · exact hother
  · exact hother
  · exact hother
  · exact hvalue _ rfl

variable {fields : OrderedMap String (Value N)} {algorithm signingInput token : String} {options : JwtOptions N} {signature : Text}
    {hmacOnly : Bool} {claims : JwtClaims N} {signer : DefaultJwtSigner N}

theorem proper_set (h : Value.Proper (.obj fields)) (name : String) {value : Value N} (hvalue : value.Proper) :
    Value.Proper (.obj (fields.set name value)) := by
  cases h with
  | obj hkeyed hfields =>
    refine .obj (OrderedMap.Keyed.set hkeyed name value) fun field hfield => ?_
    rcases OrderedMap.eq_or_mem_of_mem_set hfield with ⟨-, heq⟩ | hmem
    · exact heq ▸ hvalue
    · exact hfields _ hmem

theorem proper_get (h : Value.Proper (.obj fields)) {name : String} {value : Value N}
    (hget : fields.get name = some value) : value.Proper := by
  cases h with
  | obj _ hfields => exact hfields _ (OrderedMap.mem_of_get hget)

theorem proper_audienceValue (audience : Option Audience) : (audienceValue (N := N) audience).Proper := by
  match audience with
  | none => exact .undefined
  | some (.one audience) => exact .str audience
  | some (.many audiences) =>
    refine .arr fun item hitem => ?_
    obtain ⟨audience, -, rfl⟩ := List.mem_map.1 hitem
    exact .str audience

theorem proper_issuerValue (issuer : Option String) : (issuerValue (N := N) issuer).Proper := by
  cases issuer with
  | none => exact .undefined
  | some issuer => exact .str issuer

theorem proper_payloadOf (host : Host N) (now ttl : N) (claims : JwtClaims N) (options : JwtOptions N) :
    Value.Proper (.obj (payloadOf host now ttl claims.fields options)) := by
  have hget (name value) : claims.fields.get name = some value → value.Proper := proper_get claims.proper
  have haudience := proper_orElse (hget "aud") (proper_audienceValue options.audience)
  have hexp := proper_orElse (hget "exp") (Value.Proper.num (host.add now ttl))
  have hiat := proper_orElse (hget "iat") (Value.Proper.num now)
  have hiss := proper_orElse (hget "iss") (proper_issuerValue options.issuer)
  exact proper_set (proper_set (proper_set (proper_set claims.proper "aud" haudience) "exp" hexp) "iat" hiat) "iss" hiss

/-- The payload of the token: the claims as JSON says them, with the defaults of the options. -/
def signedPayload (host : Host N) (now ttl : N) (claims : JwtClaims N) (options : JwtOptions N) : List (String × Json N) :=
  JsonText.toFields host.number (payloadOf host now ttl claims.fields options)

theorem proper_signedPayload (h : host.Lawful Matches) (now ttl : N) (claims : JwtClaims N) (options : JwtOptions N) :
    JsonText.Proper host.numerals (.obj (signedPayload host now ttl claims options)) :=
  JsonText.proper_toJson h.proper_number (proper_payloadOf host now ttl claims options) _ (by rw [Value.toJson]; rfl)

/-! ## Which key verifies -/

/-- The id that the verifier looks a key up by. -/
def headerKid (activeKey : Option SigningKeyEntry) : Option String := (activeKey.map (·.kid)).filter (· ≠ "")

theorem kidOf_headerOf (algorithm : String) (activeKey : Option SigningKeyEntry) :
    kidOf ((headerOf (N := N) algorithm activeKey).lookup "kid") = headerKid activeKey := by
  cases activeKey with
  | none => rfl
  | some entry => by_cases h : entry.kid = "" <;> simp [headerOf, headerKid, kidOf, h, List.lookup_cons, Option.filter_some]

theorem lookup_alg (algorithm : String) (activeKey : Option SigningKeyEntry) :
    (headerOf (N := N) algorithm activeKey).lookup "alg" = some (.str algorithm) := rfl

/-- Every entry of the key id holds the key; without an id it is the only key there is. -/
def Found {α : Type} (keys : List JwtKeyEntry) (held : JwtKeyEntry → Option α) (configured : Option α) (kid : Option String) (key : α) : Prop :=
  match kid with
  | some kid => ∀ entry ∈ keys, entry.kid = kid → held entry = some key
  | none => keys.filterMap held = [key] ∨ keys.filterMap held = [] ∧ configured = some key

/-- The secret that the options have for the header: the provider's, or a configured one. -/
inductive SecretGiven (options : JwtOptions N) (algorithm secret : String) : Prop
  | provided : resolveProviderKey options.toJwtVerifierOptions (.obj (headerOf algorithm (resolveSigningKeyEntry options algorithm))) =
      .ok (some (.text secret)) → SecretGiven options algorithm secret
  | configured : resolveProviderKey options.toJwtVerifierOptions (.obj (headerOf algorithm (resolveSigningKeyEntry options algorithm))) = .ok none →
      Found options.keys (fun entry => entry.secret.filter (· ≠ "")) options.secret (headerKid (resolveSigningKeyEntry options algorithm)) secret →
      SecretGiven options algorithm secret

/-- The public key that the options have for the header: the provider's, the JWKS endpoint's, or a configured one. -/
inductive PublicKeyGiven (options : JwtOptions N) (algorithm : String) (key : Key) : Prop
  | provided : resolveProviderKey options.toJwtVerifierOptions (.obj (headerOf algorithm (resolveSigningKeyEntry options algorithm))) =
      .ok (some key) → PublicKeyGiven options algorithm key
  | jwks {getSigningKey kid} : resolveProviderKey options.toJwtVerifierOptions (.obj (headerOf algorithm (resolveSigningKeyEntry options algorithm))) = .ok none →
      options.jwks = some getSigningKey → headerKid (resolveSigningKeyEntry options algorithm) = some kid → getSigningKey kid = .ok key →
      PublicKeyGiven options algorithm key
  | configured : resolveProviderKey options.toJwtVerifierOptions (.obj (headerOf algorithm (resolveSigningKeyEntry options algorithm))) = .ok none →
      options.jwks = none →
      Found options.keys (·.publicKey) options.publicKey (headerKid (resolveSigningKeyEntry options algorithm)) key →
      PublicKeyGiven options algorithm key

/-- The options have the key that belongs to the one they sign with. -/
structure KeysAgree (Matches : Key → Key → Prop) (options : JwtOptions N) (algorithm : String) : Prop where
  secret : (HMAC_HASH.lookup algorithm).isSome → ∀ secret, signingSecret options algorithm = some secret → SecretGiven options algorithm secret
  publicKey : (ASYMMETRIC_HASH.lookup algorithm).isSome → ∀ privateKey, signingKey options algorithm = some privateKey →
    ∃ key, Matches privateKey key ∧ key ≠ .text "" ∧ PublicKeyGiven options algorithm key

/-! ## The choice of the verifier -/

theorem mem_of_resolveSigningKeyEntry {entry : SigningKeyEntry}
    (h : resolveSigningKeyEntry options algorithm = some entry) : entry ∈ options.entries := by
  unfold resolveSigningKeyEntry at h
  split at h
  · exact List.mem_of_find?_eq_some h
  · exact List.mem_of_find?_eq_some h

theorem exists_entryOf {kid : String}
    (h : headerKid (resolveSigningKeyEntry options algorithm) = some kid) :
    ∃ entry ∈ options.keys, entryOf options.keys kid = some entry ∧ entry.kid = kid := by
  obtain ⟨hkid, -⟩ := Option.filter_eq_some_iff.1 h
  obtain ⟨signing, hsigning, rfl⟩ := Option.map_eq_some_iff.1 hkid
  have hmem : signing.toJwtKeyEntry ∈ options.keys := by
    rw [options.keys_eq]
    exact List.mem_map.2 ⟨signing, mem_of_resolveSigningKeyEntry hsigning, rfl⟩
  have hsome : (entryOf options.keys signing.kid).isSome := by
    rw [entryOf, List.find?_isSome]
    exact ⟨signing.toJwtKeyEntry, List.mem_reverse.2 hmem, by simp⟩
  obtain ⟨entry, hentry⟩ := Option.isSome_iff_exists.1 hsome
  have hkid : entry.kid = signing.kid := by simpa using List.find?_some hentry
  exact ⟨entry, List.mem_reverse.1 (List.mem_of_find?_eq_some hentry), hentry, hkid⟩

theorem hmacSecret_of_given {secret : String} (h : SecretGiven options algorithm secret) (hne : secret ≠ "") :
    HmacSecret options.toJwtVerifierOptions (headerOf algorithm (resolveSigningKeyEntry options algorithm)) secret := by
  have hkidOf := kidOf_headerOf (N := N) algorithm (resolveSigningKeyEntry options algorithm)
  cases h with
  | provided hprovider => exact .provided hprovider hne
  | configured hprovider hfound =>
    cases hkid : headerKid (resolveSigningKeyEntry options algorithm) with
    | some kid =>
      rw [hkid] at hfound hkidOf
      obtain ⟨entry, hmem, hentry, hname⟩ := exists_entryOf hkid
      obtain ⟨hsecret, -⟩ := Option.filter_eq_some_iff.1 (hfound entry hmem hname)
      exact .named hprovider hkidOf hentry hsecret hne
    | none =>
      rw [hkid] at hfound hkidOf
      rcases hfound with honly | ⟨hnone, hconfigured⟩
      · exact .only hprovider hkidOf honly
      · exact .shared hprovider hkidOf hnone hconfigured hne

theorem verificationKey_of_given {key : Key} (h : PublicKeyGiven options algorithm key) :
    VerificationKey options.toJwtVerifierOptions (headerOf algorithm (resolveSigningKeyEntry options algorithm)) key := by
  have hkidOf := kidOf_headerOf (N := N) algorithm (resolveSigningKeyEntry options algorithm)
  cases h with
  | provided hprovider => exact .provided hprovider
  | jwks hprovider hjwks hkid hkey => exact .jwks hprovider hjwks (hkidOf.trans hkid) hkey
  | configured hprovider hjwks hfound =>
    cases hkid : headerKid (resolveSigningKeyEntry options algorithm) with
    | some kid =>
      rw [hkid] at hfound hkidOf
      obtain ⟨entry, hmem, hentry, hname⟩ := exists_entryOf hkid
      exact .named hprovider hjwks hkidOf hentry (hfound entry hmem hname)
    | none =>
      rw [hkid] at hfound hkidOf
      rcases hfound with honly | ⟨hnone, hconfigured⟩
      · exact .only hprovider hjwks hkidOf honly
      · exact .configured hprovider hjwks (.inl hkidOf) hnone hconfigured

/-! ## Signatures -/

theorem signHmac_ok {secret : Option String}
    (h : signHmac host algorithm secret signingInput = .ok signature) : ∃ hash key, HMAC_HASH.lookup algorithm = some hash ∧
      secret = some key ∧ key ≠ "" ∧ signature = encodeBase64Url ((host.mac hash key signingInput).map UInt8.toNat) := by
  unfold signHmac at h
  split at h
  next => cases h
  next => cases h
  next key hne =>
    have hne : key ≠ "" := fun heq => hne (by rw [heq])
    split at h
    next => cases h
    next hash hhash =>
      cases h
      exact ⟨hash, key, hhash, rfl, hne, rfl⟩

theorem signAsymmetric_ok {privateKey : Option Key}
    (h : signAsymmetric host algorithm privateKey signingInput = .ok signature) : ∃ hash key octets, ASYMMETRIC_HASH.lookup algorithm = some hash ∧
      privateKey = some key ∧ host.createSign hash ("ES".toList.isPrefixOf algorithm.toList) key signingInput = .ok octets ∧
      signature = encodeBase64Url (octets.map UInt8.toNat) := by
  unfold signAsymmetric at h
  split at h
  next => cases h
  next => cases h
  next key _ =>
    split at h
    next => cases h
    next hash hhash =>
      obtain ⟨octets, hsign, h⟩ := bind_eq_ok.1 h
      cases h
      exact ⟨hash, key, octets, hhash, rfl, hsign, rfl⟩

theorem notMem_signature
    (h : sign host options algorithm signingInput = .ok signature) : '.' ∉ signature := by
  unfold sign at h
  split at h
  next =>
    obtain ⟨_, _, octets, -, -, -, rfl⟩ := signAsymmetric_ok h
    exact notMem_encodeBase64Url (toNat_lt octets)
  next =>
    obtain ⟨_, _, -, -, -, rfl⟩ := signHmac_ok h
    exact notMem_encodeBase64Url (toNat_lt _)

theorem signed_of_sign (hlawful : host.Lawful Matches)
    (hagree : KeysAgree Matches options algorithm) (h : sign host options algorithm signingInput = .ok signature) :
    Signed host.platform options.toJwtVerifierOptions (headerOf algorithm (resolveSigningKeyEntry options algorithm)) algorithm
      signingInput (String.ofList signature) := by
  unfold sign at h
  split at h
  next hasymmetric =>
    obtain ⟨hash, privateKey, octets, hhash, hkey, hsign, rfl⟩ := signAsymmetric_ok h
    obtain ⟨publicKey, hmatches, hne, hgiven⟩ := hagree.publicKey hasymmetric privateKey hkey
    have hdecoded : Lib.Base64.decode (String.ofList (encodeBase64Url (octets.map UInt8.toNat))).toList = octets.map UInt8.toNat := by
      rw [String.toList_ofList, decode_encodeBase64Url (toNat_lt octets)]
    have hverifies := hlawful.verifies hmatches hsign
    rw [← hdecoded] at hverifies
    exact .asymmetric hhash (verificationKey_of_given hgiven) hne hverifies
  next =>
    obtain ⟨hash, secret, hhash, hsecret, hne, rfl⟩ := signHmac_ok h
    have hgiven := hagree.secret (by rw [hhash]; rfl) secret hsecret
    refine .hmac hhash (hmacSecret_of_given hgiven hne) ?_
    show decide (Lib.Base64.decode _ = Lib.Base64.decode (String.ofList _).toList) = true
    rw [String.toList_ofList]
    exact decide_eq_true rfl

/-! ## Tokens -/

theorem findAlgorithm_ok {algorithms : List String} (h : findAlgorithm algorithms hmacOnly = .ok algorithm) :
    algorithm ∈ algorithms := by
  unfold findAlgorithm at h
  split at h
  next hfind =>
    cases h
    exact List.mem_of_find?_eq_some hfind
  next =>
    split at h
    · cases h
    · cases h

theorem signToken_ok {now : N}
    (h : signToken host now claims options hmacOnly = .ok token) :
    ∃ algorithm ttl signature, findAlgorithm options.algorithms hmacOnly = .ok algorithm ∧ resolveAccessTokenTtlSeconds host options = .ok ttl ∧
      let headerSegment := host.segment (.obj (headerOf algorithm (resolveSigningKeyEntry options algorithm)))
      let payloadSegment := host.segment (.obj (signedPayload host now ttl claims options))
      sign host options algorithm (String.ofList headerSegment ++ "." ++ String.ofList payloadSegment) = .ok signature ∧
        token = String.ofList (headerSegment ++ '.' :: (payloadSegment ++ '.' :: signature)) := by
  obtain ⟨algorithm, halgorithm, h⟩ := bind_eq_ok.1 h
  obtain ⟨ttl, httl, h⟩ := bind_eq_ok.1 h
  obtain ⟨signature, hsign, h⟩ := bind_eq_ok.1 h
  exact ⟨algorithm, ttl, signature, halgorithm, httl, hsign, (Except.ok.inj h).symm⟩

theorem splits_token {header payload : Text} (hheader : '.' ∉ header) (hpayload : '.' ∉ payload) (hsignature : '.' ∉ signature) :
    Splits (String.ofList (header ++ '.' :: (payload ++ '.' :: signature))) (String.ofList header) (String.ofList payload) (String.ofList signature) := by
  constructor <;> simp [hheader, hpayload, hsignature]

theorem splits_unique {h h' p p' s s' : String} (hs : Splits token h p s) (hs' : Splits token h' p' s') : h = h' ∧ p = p' ∧ s = s' := by
  have heq := (parseTokenSegments_ok.2 hs).symm.trans (parseTokenSegments_ok.2 hs')
  simpa using heq

/-- What the verifier makes of a payload. -/
def Admits (pf : Platform N) (options : JwtVerifierOptions N) (now : N) (payload : List (String × Json N)) (principal : JwtPrincipal N) : Prop :=
  InTime pf options now payload ∧ Addressed options payload ∧
    ∃ subject, payload.lookup "sub" = some (.str subject) ∧ subject ≠ "" ∧ principal = principalOf payload subject

theorem verifyToken_signed (hlawful : host.Lawful Matches) {now : N}
    (h : signToken host now claims options hmacOnly = .ok token) {ttl : N}
    (halgorithm : findAlgorithm options.algorithms hmacOnly = .ok algorithm) (httl : resolveAccessTokenTtlSeconds host options = .ok ttl)
    {verification : JwtVerifierOptions N} (hallowed : algorithm ∈ verification.algorithms)
    (hsigned : ∀ signingInput signature, sign host options algorithm signingInput = .ok signature →
      Signed host.platform verification (headerOf algorithm (resolveSigningKeyEntry options algorithm)) algorithm signingInput (String.ofList signature))
    (later : N) (principal : JwtPrincipal N) :
    verifyToken host.platform later token verification (createKeyResolutionState verification.keys) = .ok principal ↔
      Admits host.platform verification later (signedPayload host now ttl claims options) principal := by
  obtain ⟨algorithm', ttl', signature, halgorithm', httl', hsign, rfl⟩ := signToken_ok h
  cases halgorithm.symm.trans halgorithm'
  cases httl.symm.trans httl'
  have hnone : '.' ∉ host.segment (.obj (headerOf algorithm (resolveSigningKeyEntry options algorithm))) := notMem_segment _
  have hnone' : '.' ∉ host.segment (.obj (signedPayload host now ttl claims options)) := notMem_segment _
  have hsplits := splits_token hnone hnone' (notMem_signature hsign)
  have hproper : JsonText.Proper host.numerals (.obj (headerOf algorithm (resolveSigningKeyEntry options algorithm))) := proper_headerOf _ _
  have hheader := parse_segment hproper
  have hpayload := parse_segment (proper_signedPayload hlawful now ttl claims options)
  rw [verifyToken_ok]
  constructor
  · intro haccepts
    cases haccepts with
    | intro hsplits' _ hparse _ _ _ htime haddressed hsub hne =>
      obtain ⟨-, rfl, -⟩ := splits_unique hsplits hsplits'
      cases Option.some.inj (hpayload.symm.trans hparse)
      exact ⟨htime, haddressed, _, hsub, hne, rfl⟩
  · rintro ⟨htime, haddressed, subject, hsub, hne, rfl⟩
    exact .intro hsplits hheader hpayload (lookup_alg ..) hallowed (hsigned _ _ hsign) htime haddressed hsub hne

/-! ## The signer and the verifier -/

theorem resolveAccessTokenTtlSeconds_ok {ttl : N} (h : resolveAccessTokenTtlSeconds host options = .ok ttl) :
    ttl = options.accessTokenTtlSeconds.getD (host.ofNat 3600) := by
  simp only [resolveAccessTokenTtlSeconds, guard_eq_ok, Except.ok.injEq] at h
  exact h.2.symm

theorem signer_create_ok (h : DefaultJwtSigner.create options = .ok signer) :
    signer.options = options ∧ signer.refreshAlgorithms = options.algorithms.filter fun alg => (HMAC_HASH.lookup alg).isSome := by
  obtain ⟨-, h⟩ := seq_eq_ok.1 h
  cases h
  exact ⟨rfl, rfl⟩

private theorem noEntries_keys : ([] : List SigningKeyEntry).map SigningKeyEntry.toJwtKeyEntry = ([] : List SigningKeyEntry).map SigningKeyEntry.toJwtKeyEntry := rfl

def refreshSigningOptions (options : JwtOptions N) (refreshToken : RefreshTokenOptions N) : JwtOptions N where
  audience := options.audience
  accessTokenTtlSeconds := some refreshToken.expiresInSeconds
  algorithms := options.algorithms.filter fun alg => (HMAC_HASH.lookup alg).isSome
  issuer := options.issuer
  secret := some refreshToken.secret
  keys_eq := noEntries_keys

theorem signRefreshToken_ok (hsigner : DefaultJwtSigner.create options = .ok signer)
    {now : N} (h : signer.signRefreshToken host now claims = .ok token) :
    ∃ refreshToken, options.refreshToken = some refreshToken ∧
      signToken host now claims (refreshSigningOptions options refreshToken) true = .ok token := by
  obtain ⟨rfl, halgorithms⟩ := signer_create_ok hsigner
  obtain ⟨refresh, hrefresh, h⟩ := bind_eq_ok.1 h
  unfold DefaultJwtSigner.resolveRefreshSigningOptions at hrefresh
  split at hrefresh
  next => cases hrefresh
  next refreshToken hconfigured =>
    obtain ⟨normalized, hnormalized, hrefresh⟩ := bind_eq_ok.1 hrefresh
    cases normalizeRefreshTokenOptions_ok hnormalized
    cases hrefresh
    rw [halgorithms] at h
    exact ⟨refreshToken, hconfigured, h⟩

theorem signed_refresh {refreshToken : RefreshTokenOptions N}
    (h : sign host (refreshSigningOptions options refreshToken) algorithm signingInput = .ok signature)
    (halgorithm : (HMAC_HASH.lookup algorithm).isSome) :
    Signed host.platform (refreshOptions options.toJwtVerifierOptions refreshToken)
      (headerOf algorithm (resolveSigningKeyEntry (refreshSigningOptions options refreshToken) algorithm)) algorithm signingInput
      (String.ofList signature) := by
  have hnone : resolveSigningKeyEntry (refreshSigningOptions options refreshToken) algorithm = none := by
    unfold resolveSigningKeyEntry
    split <;> rfl
  unfold sign at h
  split at h
  next hasymmetric =>
    obtain ⟨hash, hhash⟩ := Option.isSome_iff_exists.1 hasymmetric
    rw [lookup_hmac_asymmetric hhash] at halgorithm
    cases halgorithm
  next =>
    obtain ⟨hash, secret, hhash, hsecret, hne, rfl⟩ := signHmac_ok h
    rw [signingSecret, hnone] at hsecret
    rw [hnone]
    refine .hmac hhash (.shared rfl rfl rfl hsecret hne) ?_
    show decide (Lib.Base64.decode _ = Lib.Base64.decode (String.ofList _).toList) = true
    rw [String.toList_ofList]
    exact decide_eq_true rfl

/-- The keys of a ring have ids of their own, and each that signs comes with the public key. -/
structure Orderly (Matches : Key → Key → Prop) (options : JwtOptions N) : Prop where
  provider : options.secretOrKeyProvider = none
  jwks : options.jwks = none
  named : ∀ entry ∈ options.entries, entry.kid ≠ ""
  distinct : (options.entries.map (·.kid)).Nodup
  paired : ∀ entry ∈ options.entries, ∀ privateKey, entry.privateKey = some privateKey →
    ∃ key, entry.publicKey = some key ∧ key ≠ .text "" ∧ Matches privateKey key
  /-- The separate pair is for a ring without keys. -/
  pair : (∀ entry ∈ options.entries, entry.privateKey = none) → ∀ privateKey, options.privateKey = some privateKey →
    publicKeys options.keys = [] ∧ ∃ key, options.publicKey = some key ∧ key ≠ .text "" ∧ Matches privateKey key

theorem eq_of_kid {entries : List SigningKeyEntry} (h : (entries.map (·.kid)).Nodup) {e e' : SigningKeyEntry} (he : e ∈ entries) (he' : e' ∈ entries)
    (hkid : e.kid = e'.kid) : e = e' := List.inj_on_of_nodup_map h he he' hkid

theorem found_of_signing {α : Type} {held : JwtKeyEntry → Option α} {configured : Option α} {key : α}
    {signing : SigningKeyEntry} (horderly : Orderly Matches options) (hsigning : resolveSigningKeyEntry options algorithm = some signing)
    (hheld : held signing.toJwtKeyEntry = some key) :
    Found options.keys held configured (headerKid (resolveSigningKeyEntry options algorithm)) key := by
  have hmem := mem_of_resolveSigningKeyEntry hsigning
  have hkid : headerKid (resolveSigningKeyEntry options algorithm) = some signing.kid := by
    simp [hsigning, headerKid, Option.filter_some, horderly.named signing hmem]
  rw [hkid]
  intro entry hentry hname
  rw [options.keys_eq] at hentry
  obtain ⟨e, he, rfl⟩ := List.mem_map.1 hentry
  rw [eq_of_kid horderly.distinct he hmem hname, hheld]

theorem resolveProviderKey_none (h : options.secretOrKeyProvider = none) (header : Json N) :
    resolveProviderKey options.toJwtVerifierOptions header = .ok none := by rw [resolveProviderKey, h]

theorem Orderly.keysAgree (h : Orderly Matches options) (algorithm : String) : KeysAgree Matches options algorithm := by
  have hprovider := resolveProviderKey_none h.provider (.obj (headerOf algorithm (resolveSigningKeyEntry options algorithm)))
  constructor
  · intro hhmac secret hsecret
    refine .configured hprovider ?_
    have hfind : resolveSigningKeyEntry options algorithm = options.entries.find? hasSecret := if_pos hhmac
    cases hsigning : resolveSigningKeyEntry options algorithm with
    | some signing =>
      rw [hfind] at hsigning
      have hhas := List.find?_some hsigning
      obtain ⟨held, hheld, hne⟩ := (Option.any_eq_true _ _).1 hhas
      rw [← hfind] at hsigning
      rw [signingSecret, hsigning, Option.bind_some, hheld] at hsecret
      cases hsecret
      rw [← hsigning]
      exact found_of_signing h hsigning (Option.filter_eq_some_iff.2 ⟨hheld, hne⟩)
    | none =>
      rw [signingSecret, hsigning] at hsecret
      rw [hfind] at hsigning
      refine .inr ⟨List.filterMap_eq_nil_iff.2 fun entry hentry => ?_, hsecret⟩
      rw [options.keys_eq] at hentry
      obtain ⟨e, he, rfl⟩ := List.mem_map.1 hentry
      have hno := List.find?_eq_none.1 hsigning e he
      cases hs : e.secret with
      | none => rfl
      | some secret => simpa [hasSecret, hs, Option.filter_some] using hno
  · intro hasymmetric privateKey hkey
    obtain ⟨hash, hhash⟩ := Option.isSome_iff_exists.1 hasymmetric
    have hfind : resolveSigningKeyEntry options algorithm = options.entries.find? fun entry => entry.privateKey.isSome :=
      if_neg (by simp [lookup_hmac_asymmetric hhash])
    cases hsigning : resolveSigningKeyEntry options algorithm with
    | some signing =>
      have hhas : signing.privateKey.isSome = true := List.find?_some (p := fun (entry : SigningKeyEntry) => entry.privateKey.isSome) (hfind.symm.trans hsigning)
      obtain ⟨held, hheld⟩ := Option.isSome_iff_exists.1 hhas
      rw [signingKey, hsigning, Option.bind_some, hheld] at hkey
      cases hkey
      obtain ⟨key, hpublic, hne, hmatches⟩ := h.paired signing (mem_of_resolveSigningKeyEntry hsigning) privateKey hheld
      exact ⟨key, hmatches, hne, .configured hprovider h.jwks (found_of_signing h hsigning hpublic)⟩
    | none =>
      rw [signingKey, hsigning] at hkey
      have hno := List.find?_eq_none.1 (hfind.symm.trans hsigning)
      obtain ⟨hempty, key, hpublic, hne, hmatches⟩ := h.pair (fun entry hentry => by simpa using hno entry hentry) privateKey hkey
      refine ⟨key, hmatches, hne, .configured hprovider h.jwks ?_⟩
      rw [hsigning]
      exact .inr ⟨hempty, hpublic⟩

/-! ## Two tokens -/

private def decimals : Numerals Int where
  print n := if n < 0 then '-' :: Nat.toDigits 10 n.natAbs else Nat.toDigits 10 n.natAbs
  read
    | [] => none
    | '-' :: digits => some (-(Nat.ofDigitChars 10 digits 0 : Int))
    | digits => some (Nat.ofDigitChars 10 digits 0)

/-- Node's answers for the tokens below. -/
private def node : Host Int where
  numerals := decimals
  ofNat n := n
  add := (· + ·)
  sub := (· - ·)
  le a b := a ≤ b
  isFinite _ := true
  mac hash secret signingInput :=
    if (hash, secret, signingInput) = ("sha256", "n3w",
        "eyJhbGciOiJIUzI1NiIsInR5cCI6IkpXVCIsImtpZCI6Im5ldyJ9.eyJzdWIiOiJhbm4iLCJleHAiOjM2NTAsImlhdCI6NTB9") then
      [161, 68, 3, 234, 96, 245, 144, 23, 101, 43, 197, 205, 195, 215, 221, 194, 149, 97, 61, 225, 187, 238, 240, 35, 113, 201, 136, 82, 107, 144, 102, 61]
    else if (hash, secret, signingInput) = ("sha256", "n3w",
        "eyJhbGciOiJIUzI1NiIsInR5cCI6IkpXVCIsImtpZCI6Im5ldyJ9.eyJyb2xlIjoiYWRtaW4iLCJleHAiOjM2NTAsImlhdCI6NTB9") then
      [234, 165, 58, 236, 134, 254, 229, 176, 164, 15, 18, 185, 161, 9, 11, 100, 34, 47, 40, 73, 230, 39, 208, 24, 23, 17, 8, 181, 144, 50, 130, 188]
    else []
  createSign _ _ _ _ := .error (.thrown "Invalid key object type")
  createVerify _ _ _ _ _ := .error (.thrown "Invalid key object type")

private theorem decimals_exact (n : Int) : decimals.Exact n := by
  have hdigits : ∀ c ∈ Nat.toDigits 10 n.natAbs, c.isDigit = true := fun c => Nat.isDigit_of_mem_toDigits (by decide) (by decide)
  have hread : Nat.ofDigitChars 10 (Nat.toDigits 10 n.natAbs) 0 = n.natAbs := Nat.ofDigitChars_ten_toDigits
  obtain ⟨c, rest, hcons⟩ := List.exists_cons_of_ne_nil (Nat.toDigits_ne_nil (n := n.natAbs) (b := 10))
  by_cases hneg : n < 0
  · have hprint : decimals.print n = '-' :: Nat.toDigits 10 n.natAbs := if_pos hneg
    refine ⟨by simp [hprint], ?_, ?_⟩
    · intro c hc
      rw [hprint, List.mem_cons] at hc
      rcases hc with rfl | hc
      · rfl
      · simp [JsonText.isNumberChar, hdigits c hc]
    · rw [hprint]
      show some (-(Nat.ofDigitChars 10 (Nat.toDigits 10 n.natAbs) 0 : Int)) = some n
      rw [hread, Option.some.injEq]
      omega
  · have hprint : decimals.print n = Nat.toDigits 10 n.natAbs := if_neg hneg
    have hminus : c ≠ '-' := by
      rintro rfl
      cases hdigits '-' (by simp [hcons])
    refine ⟨by simp [hprint, hcons], ?_, ?_⟩
    · intro c hc
      rw [hprint] at hc
      simp [JsonText.isNumberChar, hdigits c hc]
    · rw [hprint]
      rw [hcons] at hread ⊢
      have hliteral : decimals.read (c :: rest) = some (Nat.ofDigitChars 10 (c :: rest) 0 : Int) := by simp [decimals, hminus]
      rw [hliteral, hread, Option.some.injEq]
      omega

private theorem node_lawful : node.Lawful fun _ _ => False where
  exact _ _ := decimals_exact _
  verifies h := absurd h id

/-- Two keys, of which the first signs. -/
private def ring : JwtOptions Int where
  algorithms := ["HS256", "RS256"]
  entries := [{ kid := "new", secret := some "n3w" }, { kid := "old", secret := some "0ld" }]

private theorem ring_orderly : Orderly (fun _ _ => False) ring where
  provider := rfl
  jwks := rfl
  named := by decide
  distinct := by decide
  paired := by simp [ring]
  pair := by simp [ring]

private def annClaims : JwtClaims Int where
  fields := [("sub", .str "ann")]
  proper := .obj (by simp [OrderedMap.Keyed]) (by simp [Value.Proper.str])

private def adminClaims : JwtClaims Int where
  fields := [("role", .str "admin")]
  proper := .obj (by simp [OrderedMap.Keyed]) (by simp [Value.Proper.str])

private def annSigned : List (String × Json Int) := [("sub", .str "ann"), ("exp", .num 3650), ("iat", .num 50)]

private theorem node_inTime {payload : List (String × Json Int)} (hexp : payload.lookup "exp" = some (.num 3650)) (hnbf : payload.lookup "nbf" = none) :
    InTime node.platform ring.toJwtVerifierOptions 60 payload := by
  refine { clockSkew := ⟨rfl, rfl⟩, required := fun _ => by rw [hexp]; rfl, exp := ?_, nbf := ?_, maxAge := ?_ }
  · intro value hvalue
    rw [hexp] at hvalue
    cases hvalue
    exact ⟨3650, rfl, rfl, rfl⟩
  · intro value hvalue
    rw [hnbf] at hvalue
    cases hvalue
  · intro age hage
    cases hage

private theorem node_addressed (payload : List (String × Json Int)) : Addressed ring.toJwtVerifierOptions payload where
  issuer _ h := by cases h
  audience _ h := by cases h

private theorem admin_rejected (h : signToken node 50 adminClaims ring false = .ok token) :
    (verifyToken node.platform 60 token ring.toJwtVerifierOptions (createKeyResolutionState ring.keys)).toOption.isNone = true := by
  cases hverify : verifyToken node.platform 60 token ring.toJwtVerifierOptions (createKeyResolutionState ring.keys) with
  | error e => rfl
  | ok principal =>
    have hadmits := (verifyToken_signed node_lawful h rfl rfl (by decide)
      (fun _ _ h => signed_of_sign node_lawful (ring_orderly.keysAgree _) h) 60 principal).1 hverify
    obtain ⟨-, -, subject, hsub, -⟩ := hadmits
    cases hsub

end Fluo.Jwt.Signer
