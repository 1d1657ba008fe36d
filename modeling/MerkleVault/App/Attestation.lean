import MerkleVault.App.Reveal
import MerkleVault.Lib.Base64
import MerkleVault.Sqlite.AuditQueries
import Mathlib

/-!
# Operator Attestations

A reveal may be confirmed by a signed token: three segments of unpadded URL-safe Base64 with a dot
between them, a header, the claims and a signature over the first two segments as they stand.  The
header has to name the algorithm and the operator's key, the claims have to name the vault and the
challenge that is open, and the token must not have expired.

* `splitJwt_eq_some`: the segments of a token;
* `verifyAttestation_ok_iff`: what the verifier accepts;
* `attestation_exact_iff`: it accepts any name of the key.
-/

namespace MerkleVault.App.Attestation

open MerkleVault.Types MerkleVault.External MerkleVault.Lib.Base64 MerkleVault.Lib.Encoding
open MerkleVault.Audit.Integrity MerkleVault.App.Context MerkleVault.App.Reveal
open MerkleVault.App.IdentitySections MerkleVault.Sqlite.AuditQueries

/-! ### The wire format -/

/-- The bytes that are signed: the first two segments and the dot between them. -/
def signingInput (headerB64 payloadB64 : String) : List UInt8 :=
  (headerB64 ++ "." ++ payloadB64).toUTF8.data.toList

/-- A token, read. -/
structure Token where
  headerB64 : String
  payloadB64 : String
  header : JwtHeader
  claims : JwtPayload
  signature : Vector UInt8 64

section

variable (E : Env)

/-- `URL_SAFE_NO_PAD` decodes the encoded texts, and no other. -/
def DecodesBase64Url : Prop :=
  ∀ text bytes, E.base64UrlDecode text = some bytes ↔ text.toList = encodeUrl bytes

/-- The token reads as `t`: three segments, JSON in the first two and 64 bytes in the last. -/
structure Reads (jwt : String) (t : Token) : Prop where
  segments : ∃ sigB64 : String, jwt = t.headerB64 ++ "." ++ t.payloadB64 ++ "." ++ sigB64 ∧
    sigB64.toList = encodeUrl t.signature.toList
  header : ∃ bytes, t.headerB64.toList = encodeUrl bytes ∧ E.jwtHeader bytes = some t.header
  payload : ∃ bytes, t.payloadB64.toList = encodeUrl bytes ∧ E.jwtPayload bytes = some t.claims

/-- The conditions on a token, apart from the name of the key. -/
structure Valid (t : Token) (challengeId : ChallengeId) (operatorPubkey : Key)
    (now : Rfc3339Timestamp) : Prop where
  alg : t.header.alg = "EdDSA"
  enrolled : operatorPubkey ≠ Vector.replicate 32 0
  signed : E.dalekVerify operatorPubkey (signingInput t.headerB64 t.payloadB64) t.signature = true
  aud : t.claims.aud = "merkle-vault"
  unexpired : now.lt (.ofSeconds t.claims.exp) = true
  challenge : t.claims.challengeId = some (E.hyphenated challengeId.inner)

/-- The documented token: the header names the operator's key too. -/
def Attests (jwt : String) (challengeId : ChallengeId) (operatorPubkey : Key)
    (now : Rfc3339Timestamp) : Prop :=
  ∃ t, Reads E jwt t ∧ t.header.kid = "merkle-operator-attestation" ∧
    Valid E t challengeId operatorPubkey now

end

/-! ### Segments -/

/-- The first two dots separate the segments. -/
theorem splitJwt_eq_some {jwt header payload signature : String} :
    splitJwt jwt = some (header, payload, signature) ↔
      jwt = header ++ "." ++ payload ++ "." ++ signature ∧ '.' ∉ header.toList ∧
        '.' ∉ payload.toList := by
  have hdot : ".".toList = ['.'] := rfl
  have hjwt : jwt = header ++ "." ++ payload ++ "." ++ signature ↔
      jwt.toList = header.toList ++ '.' :: (payload.toList ++ '.' :: signature.toList) := by
    rw [← String.toList_inj]
    simp only [String.toList_append, hdot, List.append_assoc, List.cons_append, List.nil_append]
  rw [hjwt]
  constructor
  · intro h
    unfold splitJwt at h
    split at h
    · cases h
    · next hspan =>
      split at h
      · cases h
      · next hspan' =>
        obtain ⟨-, hcut, hheader⟩ := span_separator.mp hspan
        obtain ⟨-, hcut', hpayload⟩ := span_separator.mp hspan'
        simp only [Option.some.injEq, Prod.mk.injEq] at h
        obtain ⟨rfl, rfl, rfl⟩ := h
        simp only [String.toList_ofList]
        exact ⟨by rw [hcut, hcut'], hheader, hpayload⟩
  · rintro ⟨hcut, hheader, hpayload⟩
    unfold splitJwt
    rw [span_separator.mpr ⟨rfl, hcut, hheader⟩]
    dsimp only
    rw [span_separator.mpr ⟨rfl, rfl, hpayload⟩]
    simp only [String.ofList_toList]

theorem dot_notMem {text : String} {bytes : List UInt8} (h : text.toList = encodeUrl bytes) :
    '.' ∉ text.toList := by
  rw [h]
  exact notMem_encodeUrl (by decide) (by decide) (by decide) bytes

/-- A token reads in one way. -/
theorem Reads.unique {E : Env} {jwt : String} {t t' : Token} (h : Reads E jwt t)
    (h' : Reads E jwt t') : t = t' := by
  obtain ⟨⟨sigB64, hjwt, hsig⟩, ⟨header, hh, hheader⟩, ⟨payload, hp, hpayload⟩⟩ := h
  obtain ⟨⟨sigB64', hjwt', hsig'⟩, ⟨header', hh', hheader'⟩, ⟨payload', hp', hpayload'⟩⟩ := h'
  have hsplit := splitJwt_eq_some.mpr ⟨hjwt, dot_notMem hh, dot_notMem hp⟩
  rw [splitJwt_eq_some.mpr ⟨hjwt', dot_notMem hh', dot_notMem hp'⟩] at hsplit
  simp only [Option.some.injEq, Prod.mk.injEq] at hsplit
  obtain ⟨hheaderB64, hpayloadB64, rfl⟩ := hsplit
  obtain rfl : header = header' := encodeUrl_injective (by rw [← hh, ← hh', hheaderB64])
  obtain rfl : payload = payload' := encodeUrl_injective (by rw [← hp, ← hp', hpayloadB64])
  have hsignature : t.signature = t'.signature :=
    Vector.toList_inj.mp (encodeUrl_injective (by rw [← hsig, ← hsig']))
  have hheaders : t.header = t'.header := Option.some.inj (hheader.symm.trans hheader')
  have hclaims : t.claims = t'.claims := Option.some.inj (hpayload.symm.trans hpayload')
  cases t
  cases t'
  simp_all

/-! ### The verifier -/

section Verifier

variable {E : Env} {flag : SignedConfigFlag} {challengeId : ChallengeId} {operatorPubkey : Key}
  {now : Rfc3339Timestamp}

theorem orDenied_bind {α β : Type} {reason : String} {x : Option α} {f : α → Except AppError β} {b : β} :
    (orDenied reason x >>= f) = .ok b ↔ ∃ a, x = some a ∧ f a = .ok b := by
  cases x with
  | none => exact iff_of_false (fun h => by cases h) (by simp)
  | some a =>
    simp only [Option.some.injEq, exists_eq_left']
    exact Iff.rfl

theorem ensure_ok {condition : Bool} {reason : String} :
    ensure condition reason = .ok () ↔ condition = true := by
  unfold ensure
  cases condition with
  | true => simp
  | false => exact iff_of_false (fun h => by cases h) (by simp)

theorem ensure_bind {α : Type} {condition : Bool} {reason : String} {f : Unit → Except AppError α}
    {a : α} : (ensure condition reason >>= f) = .ok a ↔ condition = true ∧ f () = .ok a := by
  unfold ensure
  cases condition with
  | true =>
    simp only [if_true, true_and]
    exact Iff.rfl
  | false => exact iff_of_false (fun h => by cases h) (by simp)

theorem signatureOfSlice_eq_some {bytes : List UInt8} {signature : Vector UInt8 64} :
    signatureOfSlice bytes = some signature ↔ bytes = signature.toList := by
  unfold signatureOfSlice
  constructor
  · intro h
    split at h
    · obtain rfl := Option.some.inj h
      rfl
    · cases h
  · rintro rfl
    rw [dif_pos (by simp)]
    exact congrArg some (Vector.toList_inj.mp rfl)

/-- An expiry is later than an instant exactly if it is in a later second. -/
theorem lt_ofSeconds {exp : ℤ} : now.lt (.ofSeconds exp) = true ↔ now.timestamp < exp := by
  simp only [Rfc3339Timestamp.lt, Rfc3339Timestamp.ofSeconds, Nat.not_lt_zero, decide_false,
    Bool.and_false, Bool.or_false]
  exact decide_eq_true_iff

/-- **What the verifier accepts**: a valid token, whatever its key is called. -/
theorem verifyAttestation_ok_iff (hbase64 : DecodesBase64Url E) :
    verifyAttestation E flag challengeId operatorPubkey now = .ok () ↔
      ∃ t, Reads E flag.jwt t ∧ Valid E t challengeId operatorPubkey now := by
  unfold verifyAttestation
  simp only [orDenied_bind, ensure_bind, ensure_ok, decide_eq_true_eq, signatureOfSlice_eq_some,
    splitJwt_eq_some, Prod.exists]
  constructor
  · rintro ⟨headerB64, payloadB64, sigB64, ⟨hjwt, -, -⟩, headerBytes, hh, header, hheader, halg,
      henrolled, sigBytes, hs, signature, rfl, hsigned, payloadBytes, hp, claims, hpayload, haud,
      hexp, hchallenge⟩
    refine ⟨⟨headerB64, payloadB64, header, claims, signature⟩,
      ⟨⟨sigB64, hjwt, (hbase64 _ _).mp hs⟩, ⟨headerBytes, (hbase64 _ _).mp hh, hheader⟩,
        ⟨payloadBytes, (hbase64 _ _).mp hp, hpayload⟩⟩, ?_⟩
    exact ⟨halg, henrolled, hsigned, haud, lt_ofSeconds.mpr hexp, hchallenge⟩
  · rintro ⟨t, ⟨⟨sigB64, hjwt, hs⟩, ⟨headerBytes, hh, hheader⟩, ⟨payloadBytes, hp, hpayload⟩⟩, hvalid⟩
    refine ⟨t.headerB64, t.payloadB64, sigB64, ⟨hjwt, dot_notMem hh, dot_notMem hp⟩, headerBytes,
      (hbase64 _ _).mpr hh, t.header, hheader, hvalid.alg, hvalid.enrolled, t.signature.toList,
      (hbase64 _ _).mpr hs, t.signature, rfl, hvalid.signed, payloadBytes, (hbase64 _ _).mpr hp,
      t.claims, hpayload, hvalid.aud, lt_ofSeconds.mp hvalid.unexpired, hvalid.challenge⟩

/-- A token that is accepted for one challenge is accepted for no other. -/
theorem challenge_unique (hbase64 : DecodesBase64Url E) {id id' : ChallengeId} {key key' : Key}
    {at_ at' : Rfc3339Timestamp} (h : verifyAttestation E flag id key at_ = .ok ())
    (h' : verifyAttestation E flag id' key' at' = .ok ()) : id' = id := by
  obtain ⟨t, hreads, hvalid⟩ := (verifyAttestation_ok_iff hbase64).mp h
  obtain ⟨t', hreads', hvalid'⟩ := (verifyAttestation_ok_iff hbase64).mp h'
  obtain rfl := hreads.unique hreads'
  have htext := hvalid.challenge.symm.trans hvalid'.challenge
  exact congrArg ChallengeId.mk (E.hyphenated_injective (Option.some.inj htext)).symm

end Verifier

/-! ### Exactness -/

/-- **The verifier is exact** on a token, and the challenge its own, if and only if the name of the key
is the operator's or another condition fails. -/
theorem attestation_exact_iff (E : Env) (hbase64 : DecodesBase64Url E) (flag : SignedConfigFlag)
    (challengeId : ChallengeId) (operatorPubkey : Key) (now : Rfc3339Timestamp) :
    ((verifyAttestation E flag challengeId operatorPubkey now = .ok () ↔
        Attests E flag.jwt challengeId operatorPubkey now) ∧
      (verifyAttestation E flag challengeId operatorPubkey now = .ok () →
        ∀ challengeId' operatorPubkey' now',
          verifyAttestation E flag challengeId' operatorPubkey' now' = .ok () →
          challengeId' = challengeId)) ↔
    ∀ t, Reads E flag.jwt t → Valid E t challengeId operatorPubkey now →
      t.header.kid = "merkle-operator-attestation" := by
  rw [verifyAttestation_ok_iff hbase64]
  constructor
  · rintro ⟨hexact, -⟩ t hreads hvalid
    obtain ⟨t', hreads', hkid, -⟩ := hexact.mp ⟨t, hreads, hvalid⟩
    rw [hreads.unique hreads']
    exact hkid
  · intro hkid
    refine ⟨⟨?_, ?_⟩, ?_⟩
    · rintro ⟨t, hreads, hvalid⟩
      exact ⟨t, hreads, hkid t hreads hvalid, hvalid⟩
    · rintro ⟨t, hreads, -, hvalid⟩
      exact ⟨t, hreads, hvalid⟩
    · intro hok challengeId' operatorPubkey' now' hok'
      exact challenge_unique hbase64 ((verifyAttestation_ok_iff hbase64).mpr hok) hok'

/-! ### Two tokens -/

/-- The header that names the algorithm and the key. -/
def operatorHeader : String := "\x7b\"alg\":\"EdDSA\",\"kid\":\"merkle-operator-attestation\"\x7d"

/-- A header that names no key. -/
def unnamedHeader : String := "\x7b\"alg\":\"EdDSA\"\x7d"

/-- The challenge of the token. -/
def sampleChallenge : ChallengeId := ⟨Vector.replicate 16 5⟩

/-- The claims of the token. -/
def sampleClaims : JwtPayload := ⟨"merkle-vault", 300, some (sampleCrates.hyphenated sampleChallenge.inner)⟩

/-- Their JSON text. -/
def claimsText : String :=
  "\x7b\"aud\":\"merkle-vault\",\"exp\":300,\"challenge_id\":\"" ++
    sampleCrates.hyphenated sampleChallenge.inner ++ "\"\x7d"

/-- A signature. -/
def sampleSignature : Vector UInt8 64 := Vector.replicate 64 1

/-- The compact form of a token. -/
def compact (header payload signature : List UInt8) : String :=
  String.ofList (encodeUrl header) ++ "." ++ String.ofList (encodeUrl payload) ++ "." ++
    String.ofList (encodeUrl signature)

/-- The token with a header, as a client sends it. -/
def sampleFlag (headerText : String) : SignedConfigFlag where
  jwt := compact (textBytes headerText) (textBytes claimsText) sampleSignature.toList
  keyId := "merkle-operator-attestation"

/-- The header that the bytes are the JSON of, for the two headers above. -/
def readHeader (bytes : List UInt8) : Option JwtHeader :=
  if bytes = textBytes unnamedHeader then some ⟨"EdDSA", ""⟩
  else if bytes = textBytes operatorHeader then some ⟨"EdDSA", "merkle-operator-attestation"⟩
  else none

/-- A reader of these claims. -/
def readClaims (bytes : List UInt8) : Option JwtPayload :=
  if bytes = textBytes claimsText then some sampleClaims else none

/-- An environment that takes one signature for valid. -/
def verifierEnv : Env :=
  { sampleEnv with
    base64UrlDecode := fun text => decodeUrl text.toList
    jwtHeader := readHeader
    jwtPayload := readClaims
    dalekVerify := fun _ _ signature => signature = sampleSignature }

theorem verifierEnv_base64 : DecodesBase64Url verifierEnv := fun _ _ => decodeUrl_eq_some

theorem unnamedHeader_json : readHeader (textBytes unnamedHeader) = some ⟨"EdDSA", ""⟩ := if_pos rfl

theorem operatorHeader_json :
    readHeader (textBytes operatorHeader) = some ⟨"EdDSA", "merkle-operator-attestation"⟩ := by
  have hne : textBytes operatorHeader ≠ textBytes unnamedHeader := by decide
  unfold readHeader
  rw [if_neg hne, if_pos rfl]

theorem claimsText_json : readClaims (textBytes claimsText) = some sampleClaims := if_pos rfl

/-- The token that is read, with a key id. -/
def sampleToken (headerText kid : String) : Token where
  headerB64 := String.ofList (encodeUrl (textBytes headerText))
  payloadB64 := String.ofList (encodeUrl (textBytes claimsText))
  header := ⟨"EdDSA", kid⟩
  claims := sampleClaims
  signature := sampleSignature

theorem reads_sampleToken {headerText kid : String}
    (h : readHeader (textBytes headerText) = some ⟨"EdDSA", kid⟩) :
    Reads verifierEnv (sampleFlag headerText).jwt (sampleToken headerText kid) where
  segments := ⟨_, rfl, String.toList_ofList⟩
  header := ⟨_, String.toList_ofList, h⟩
  payload := ⟨_, String.toList_ofList, claimsText_json⟩

theorem valid_sampleToken (headerText kid : String) :
    Valid verifierEnv (sampleToken headerText kid) sampleChallenge sampleKey epoch where
  alg := rfl
  enrolled := by decide
  signed := decide_eq_true (show sampleSignature = sampleSignature from rfl)
  aud := rfl
  unexpired := rfl
  challenge := rfl

/-- A token whose header names the operator's key is accepted. -/
theorem operator_token_accepted :
    verifyAttestation verifierEnv (sampleFlag operatorHeader) sampleChallenge sampleKey epoch = .ok () ∧
      Attests verifierEnv (sampleFlag operatorHeader).jwt sampleChallenge sampleKey epoch := by
  have hreads := reads_sampleToken operatorHeader_json
  have hok : verifyAttestation verifierEnv (sampleFlag operatorHeader) sampleChallenge sampleKey epoch =
      .ok () := (verifyAttestation_ok_iff verifierEnv_base64).mpr ⟨_, hreads, valid_sampleToken _ _⟩
  refine ⟨hok, ?_⟩
  have hexact := (attestation_exact_iff verifierEnv verifierEnv_base64 (sampleFlag operatorHeader)
    sampleChallenge sampleKey epoch).mpr fun t ht _ => by rw [ht.unique hreads]; rfl
  exact hexact.1.mp hok

/-- So is a token whose header names no key. -/
theorem unnamed_token_accepted :
    verifyAttestation verifierEnv (sampleFlag unnamedHeader) sampleChallenge sampleKey epoch = .ok () ∧
      ¬Attests verifierEnv (sampleFlag unnamedHeader).jwt sampleChallenge sampleKey epoch := by
  have hreads := reads_sampleToken unnamedHeader_json
  refine ⟨(verifyAttestation_ok_iff verifierEnv_base64).mpr ⟨_, hreads, valid_sampleToken _ _⟩, ?_⟩
  rintro ⟨t, ht, hkid, -⟩
  rw [ht.unique hreads] at hkid
  exact absurd hkid (by decide)

end MerkleVault.App.Attestation
