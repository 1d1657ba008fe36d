import MerkleVault.Socket.Steps
import MerkleVault.App.IdentitySections
import MerkleVault.Lib.Ascii
import MerkleVault.Lib.Base64

/-! # The Transport of a Revealed Secret

The response of a reveal carries the plaintext as a JSON value: what the bytes parse to when they are
JSON, and else the string of their Base64 text.  The value does not say which of the two it is, so a
client cannot tell a text of JSON from another one with the same value, nor bytes that are not JSON
from the quoted text of their Base64.

* `storable_all`: every byte string can be stored;
* `collides`: every byte string shares its value with another one. -/

namespace MerkleVault.Socket.RevealTransport

open MerkleVault.Types MerkleVault.Lib.Ascii MerkleVault.Lib.Base64 MerkleVault.App.Context
open MerkleVault.App.SecretCommands
open MerkleVault.App.IdentitySections MerkleVault.Socket.Handlers MerkleVault.Socket.Steps

/-- The JSON values of the response and the functions of the JSON and Base64 crates. -/
structure Transport (V : Type) where
  /-- `Value::String`. -/
  ofString : String → V
  /-- `serde_json::from_slice`, when it succeeds. -/
  fromSlice : List UInt8 → Option V
  /-- `STANDARD.encode`. -/
  base64Encode : List UInt8 → String

variable {V : Type} (T : Transport V) (E : Env)

/-- `plaintext_to_json`. -/
def plaintextToJson (plaintext : List UInt8) : V :=
  (T.fromSlice plaintext).getD (T.ofString (T.base64Encode plaintext))

/-- The answer of a reveal. -/
structure RevealAuthorizationResponse (V : Type) where
  handle : Handle
  plaintext : V
  revealedAt : Rfc3339Timestamp
  warning : String

/-- The body of a successful reveal. -/
def revealBody (handle : Handle) (plaintext : List UInt8) (now : Rfc3339Timestamp) :
    RevealAuthorizationResponse V where
  handle := handle
  plaintext := plaintextToJson T plaintext
  revealedAt := now
  warning := "This secret has been decrypted and transmitted. Ensure it is not stored in the LLM transcript."

/-- A request to put the secret, in one of the formats, carries the bytes. -/
def Storable (p : List UInt8) : Prop :=
  ∃ format text, payload E format (textBytes text) = some p

/-- The value determines the stored bytes. -/
def Recoverable (p : List UInt8) : Prop :=
  ∀ q, Storable E q → plaintextToJson T q = plaintextToJson T p → q = p

/-- A text in quotes. -/
def quote (text : String) : String := "\"" ++ text ++ "\""

/-- What the crates document. -/
structure Documented : Prop where
  /-- White space may follow a value. -/
  trailing : ∀ p v, T.fromSlice p = some v → T.fromSlice (p ++ [0x20]) = some v
  /-- A quoted text without escapes is a string. -/
  quoted : ∀ text : String, (∀ c ∈ text.toList, IsChar c) →
    T.fromSlice (textBytes (quote text)) = some (T.ofString text)
  /-- An encoded text has digits and padding only. -/
  digits : ∀ p, ∀ c ∈ (T.base64Encode p).toList, IsChar c
  /-- Decoding inverts encoding. -/
  decode : ∀ p, E.base64Decode (textBytes (T.base64Encode p)) = .ok p

variable {T E}

/-- Every byte string can be stored, in Base64. -/
theorem storable_all (h : Documented T E) (p : List UInt8) : Storable E p :=
  ⟨.base64, T.base64Encode p, by rw [payload, h.decode]; rfl⟩

/-- JSON collides with the same text and a blank. -/
theorem collides_json (h : Documented T E) {p : List UInt8} {v : V} (hp : T.fromSlice p = some v) :
    plaintextToJson T (p ++ [0x20]) = plaintextToJson T p := by
  rw [plaintextToJson, plaintextToJson, hp, h.trailing p v hp]
  rfl

/-- Other bytes collide with the quoted text of their Base64. -/
theorem collides_binary (h : Documented T E) {p : List UInt8} (hp : T.fromSlice p = none) :
    plaintextToJson T (textBytes (quote (T.base64Encode p))) = plaintextToJson T p := by
  rw [plaintextToJson, plaintextToJson, hp, h.quoted _ (h.digits p)]
  rfl

/-- **Every byte string shares its value with another one** that can be stored. -/
theorem collides (h : Documented T E) (p : List UInt8) : ¬Recoverable T E p := by
  intro hp
  cases hv : T.fromSlice p with
  | some v =>
    have hlen := congrArg List.length (hp _ (storable_all h _) (collides_json h hv))
    rw [List.length_append, List.length_singleton] at hlen
    omega
  | none =>
    have hsame := hp _ (storable_all h _) (collides_binary h hv)
    have hsome := h.quoted _ (h.digits p)
    rw [hsame, hv] at hsome
    cases hsome

/-! ### A transport of strings -/

theorem isChar_ascii {c : Char} (h : IsChar c) : c.toNat < 128 := by
  rcases h with h | rfl
  · unfold value at h
    split_ifs at h with h₁ h₂ h₃ h₄ h₅
    · omega
    · omega
    · omega
    · rw [h₄]
      decide
    · rw [h₅]
      decide
    · cases h
  · decide

/-- Quoted texts of Base64 characters, with blanks after them. -/
def sampleFromSlice (bytes : List UInt8) : Option String :=
  match (bytes.reverse.dropWhile (· = 0x20)).reverse with
  | 0x22 :: rest =>
    if rest.getLast? = some 0x22 ∧ (ofCodes rest.dropLast).all (IsChar ·) then
      some (String.ofList (ofCodes rest.dropLast))
    else none
  | _ => none

/-- Texts as themselves, bytes in Base64. -/
def sampleTransport : Transport String where
  ofString text := text
  fromSlice := sampleFromSlice
  base64Encode bytes := String.ofList (encode bytes)

/-- The bytes of a Base64 text. -/
def sampleBase64Decode (bytes : List UInt8) : Except String (List UInt8) :=
  match decode (ofCodes bytes) with
  | some p => .ok p
  | none => .error "invalid base64"

/-- The sample environment that reads Base64. -/
def sampleTransportEnv : Env := { sampleEnv with base64Decode := sampleBase64Decode }

/-- The byte ff and the quoted text of its Base64 are two secrets with one value. -/
theorem binary_collision : Storable sampleTransportEnv [0xff] ∧
    Storable sampleTransportEnv (textBytes (quote "/w==")) ∧
    plaintextToJson sampleTransport [0xff] = plaintextToJson sampleTransport (textBytes (quote "/w==")) ∧
    ([0xff] : List UInt8) ≠ textBytes (quote "/w==") := by
  refine ⟨⟨.base64, "/w==", by decide⟩, ⟨.utf8, quote "/w==", rfl⟩, by decide, by decide⟩

/-- The bytes of a quoted text are its own between quotation marks. -/
theorem textBytes_quote (text : String) :
    textBytes (quote text) = 0x22 :: (textBytes text ++ [0x22]) := by
  have hmark : String.utf8EncodeChar '"' = [0x22] := by decide
  rw [textBytes, textBytes, utf8_eq, utf8_eq]
  simp [quote, hmark]

/-- The characters of a text of digits, back from its bytes. -/
theorem ofCodes_textBytes {text : String} (h : ∀ c ∈ text.toList, IsChar c) :
    ofCodes (textBytes text) = text.toList := by
  have hascii : IsAscii text.toList := fun c hc => isChar_ascii (h c hc)
  rw [textBytes, utf8_ascii hascii, ofCodes_codes hascii]

/-- The sample transport does what the crates document. -/
theorem sample_documented : Documented sampleTransport sampleTransportEnv where
  trailing := by
    intro p v hp
    have hdrop : ((p ++ [0x20]).reverse.dropWhile (· = (0x20 : UInt8))) =
        p.reverse.dropWhile (· = 0x20) := by simp
    rw [← hp]
    simp only [sampleTransport, sampleFromSlice, hdrop]
  quoted := by
    intro text htext
    have hdrop : (textBytes (quote text)).reverse.dropWhile (· = (0x20 : UInt8)) =
        (textBytes (quote text)).reverse := by simp [textBytes_quote]
    simp only [sampleTransport, sampleFromSlice, hdrop, List.reverse_reverse]
    rw [textBytes_quote]
    simpa [ofCodes_textBytes htext] using htext
  digits p := by simpa [sampleTransport] using encode_digits p
  decode := by
    intro p
    have hdigits : ∀ c ∈ (String.ofList (encode p)).toList, IsChar c := by
      simpa using encode_digits p
    show sampleBase64Decode _ = _
    rw [sampleBase64Decode, sampleTransport, ofCodes_textBytes hdigits, String.toList_ofList,
      decode_encode]

/-- The collision of a byte that is not JSON. -/
theorem binary_collides : Storable sampleTransportEnv [0xff] ∧
    ¬Recoverable sampleTransport sampleTransportEnv [0xff] :=
  ⟨storable_all sample_documented _, collides sample_documented [0xff]⟩

end MerkleVault.Socket.RevealTransport
