import MerkleVault.Socket.Handlers

/-! # The Handlers that Use Secrets

Use-tokens, materialization to a file or a pipe, and HTTP requests with a stored credential.  These
handlers pass no consumer gate; the data key is that of the namespace in the request's body.
`Request.serve` is the socket's whole surface that reads, uses or changes secrets. -/

namespace MerkleVault.Socket.Proxy

open MerkleVault.Types MerkleVault.Lib.Program MerkleVault.Secrets.Aggregate
open MerkleVault.Sqlite.Tables MerkleVault.App.Context MerkleVault.App.SecretCommands
open MerkleVault.App.UseCommands MerkleVault.Socket.Gate MerkleVault.Socket.Handlers

variable (E : Env)

/-! ### Use-tokens and materialization -/

/-- A namespace id of a request body, which must be a UUID of version 7. -/
def parseBodyNamespace (detail : String) (raw : Uuid) : SocketHandler NamespaceId :=
  orThrow (.details ⟨.namespaceNotFound, "Invalid namespace ID", 400, detail, none, none⟩)
    (NamespaceId.ofUuid raw)

/-- The body of a request for a use token. -/
structure UseTokenRequest where
  namespaceId : Uuid
  handle : Handle
  sessionId : Uuid

/-- The detail of a bad namespace id in it. -/
def useTokenNamespaceDetail : String := "Path or body UUID is not a valid namespace ID."

/-- A session identifier that does not parse is replaced by a new one. -/
def parseSessionId (raw : Uuid) : SocketHandler Uuid :=
  if (NamespaceId.ofUuid raw).isSome then return raw else call .newUuid

/-- The handler of use tokens. -/
def issueUseToken (q : UseTokenRequest) : SocketHandler Response := do
  let namespaceId ← parseBodyNamespace useTokenNamespaceDetail q.namespaceId
  let sessionId ← parseSessionId q.sessionId
  let cmd : UseTokenCommand := ⟨namespaceId, q.handle, sessionId⟩
  let reply ← runApp (cmd.execute E)
  return ⟨reply, none, none, none⟩

/-- The body of a request for a temporary file or pipe. -/
structure MaterializeRequest where
  namespaceId : Uuid
  handle : Handle
  useToken : String

/-- Both materialization handlers, for the command of each. -/
def materialize (execute : MaterializeCommand → Handler Reply) (q : MaterializeRequest) :
    SocketHandler Response := do
  let namespaceId ← parseBodyNamespace useTokenNamespaceDetail q.namespaceId
  let dekBytes ← deriveDekBytes E namespaceId
  let reply ← runApp (execute ⟨namespaceId, q.handle, dekBytes, q.useToken⟩)
  return ⟨reply, none, none, none⟩

/-- The handler of temporary files. -/
def writeTempfile (q : MaterializeRequest) : SocketHandler Response :=
  materialize E (App.UseCommands.writeTempfile E) q

/-- The handler of pipes. -/
def writeFifo (q : MaterializeRequest) : SocketHandler Response :=
  materialize E (App.UseCommands.writeFifo E) q

/-! ### Credentials -/

/-- `resolve_key_bytes`. -/
def resolveKeyBytes (namespaceId : NamespaceId) (keyHandle : Handle) (dekBytes : Key) :
    SocketHandler (List UInt8) := do
  let secret ← runApp (getSecretByHandle keyHandle)
  let secret ← orThrow (.details ⟨.handleNotFound, "Key secret not found", 404,
    "No secret found for key_handle '" ++ keyHandle.display ++ "' in namespace " ++
      E.hyphenated namespaceId.inner ++ ".", none, none⟩) secret
  let version ← orThrow (.details ⟨.handleNotFound, "Key secret has no active version", 404,
    "Secret '" ++ keyHandle.display ++ "' exists but has no active version.", none, none⟩)
    secret.activeVersion
  ofExcept (fun e => .app (.crypto e)) (decryptBlob E dekBytes version.blob)

/-- The plaintext of the request's secret, when it names one. -/
def secretPlaintext (namespaceId : NamespaceId) :
    Option Handle → SocketHandler (Option (List UInt8))
  | none => return none
  | some handle => do
    let dek ← deriveDekBytes E namespaceId
    return some (← resolveKeyBytes E namespaceId handle dek)

/-- For a first byte of a longer sequence: the number of bytes that follow and the range of the
second one. -/
def utf8Lead (b : Nat) : Option (Nat × Nat × Nat) :=
  if 0xC2 ≤ b ∧ b ≤ 0xDF then some (1, 0x80, 0xBF)
  else if b = 0xE0 then some (2, 0xA0, 0xBF)
  else if b = 0xED then some (2, 0x80, 0x9F)
  else if 0xE1 ≤ b ∧ b ≤ 0xEF then some (2, 0x80, 0xBF)
  else if b = 0xF0 then some (3, 0x90, 0xBF)
  else if 0xF1 ≤ b ∧ b ≤ 0xF3 then some (3, 0x80, 0xBF)
  else if b = 0xF4 then some (3, 0x80, 0x8F)
  else none

/-- The rest of a sequence: its code point, or none where it breaks off, and the bytes after it. -/
def utf8Rest : Nat → Nat → Nat → Nat → List UInt8 → Option Nat × List UInt8
  | 0, _, _, code, bytes => (some code, bytes)
  | _ + 1, _, _, _, [] => (none, [])
  | n + 1, lo, hi, code, b :: bytes =>
    if lo ≤ b.toNat ∧ b.toNat ≤ hi then utf8Rest n 0x80 0xBF (code * 64 + b.toNat % 64) bytes
    else (none, b :: bytes)

/-- The characters of some bytes, with a replacement for each that does not decode. -/
def utf8LossyChars : Nat → List UInt8 → List Char
  | 0, _ => []
  | _, [] => []
  | fuel + 1, b :: bytes =>
    if b.toNat < 0x80 then Char.ofNat b.toNat :: utf8LossyChars fuel bytes
    else match utf8Lead b.toNat with
      | none => Char.ofNat 0xFFFD :: utf8LossyChars fuel bytes
      | some (n, lo, hi) =>
        let (code, rest) := utf8Rest n lo hi (b.toNat % 2 ^ (6 - n)) bytes
        Char.ofNat (code.getD 0xFFFD) :: utf8LossyChars fuel rest

/-- `String::from_utf8_lossy`: each maximal broken sequence becomes U+FFFD. -/
def fromUtf8Lossy (bytes : List UInt8) : List Char := utf8LossyChars bytes.length bytes

example : trim (fromUtf8Lossy [32, 0xC3, 0xA9, 0xE2, 0x82, 33, 10]) =
    [Char.ofNat 0xE9, Char.ofNat 0xFFFD, '!'] := by decide

/-- `build_http_auth`: the secret takes precedence. -/
def buildHttpAuth (authSpec : Option HttpAuth) (secretPlaintext : Option (List UInt8)) : HttpAuth :=
  match secretPlaintext with
  | some plaintext => .bearer (String.ofList (trim (fromUtf8Lossy plaintext)))
  | none => authSpec.getD .none

/-! ### HTTP -/

/-- The detail of a bad namespace id in a proxy request. -/
def proxyNamespaceDetail : String := "Body UUID is not a valid namespace ID."

/-- The body of a proxied request. -/
structure ProxyHttpRequestRequest where
  namespaceId : Uuid
  secretHandle : Option Handle
  method : String
  url : String
  headers : List (String × String)
  body : Option String
  auth : Option HttpAuth

/-- A body that is not Base64 is sent as it is. -/
def bodyBytes (body : String) : List UInt8 :=
  (E.base64Decode (textBytes body)).toOption.getD (textBytes body)

/-- The handler of proxied requests. -/
def httpRequest (q : ProxyHttpRequestRequest) : SocketHandler Response := do
  let namespaceId ← parseBodyNamespace proxyNamespaceDetail q.namespaceId
  let plaintext ← secretPlaintext E namespaceId q.secretHandle
  let spec : HttpRequestSpec := ⟨q.method, q.url, q.headers, q.body.map (bodyBytes E)⟩
  let cmd : HttpRequestCommand := ⟨namespaceId, spec, buildHttpAuth q.auth plaintext⟩
  let reply ← runApp cmd.execute
  return ⟨reply, none, none, none⟩

/-- The body of a proxied download. -/
structure ProxyHttpDownloadRequest where
  namespaceId : Uuid
  secretHandle : Option Handle
  url : String
  destPath : String

/-- The handler of proxied downloads. -/
def httpDownload (q : ProxyHttpDownloadRequest) : SocketHandler Response := do
  let namespaceId ← parseBodyNamespace proxyNamespaceDetail q.namespaceId
  let plaintext ← secretPlaintext E namespaceId q.secretHandle
  let cmd : HttpDownloadCommand := ⟨namespaceId, q.url, q.destPath, buildHttpAuth none plaintext⟩
  let reply ← runApp cmd.execute
  return ⟨reply, none, none, none⟩

/-- The body of a proxied upload. -/
structure ProxyHttpUploadRequest where
  namespaceId : Uuid
  secretHandle : Option Handle
  url : String
  sourcePath : String
  contentType : Option String

/-- The handler of proxied uploads. -/
def httpUpload (q : ProxyHttpUploadRequest) : SocketHandler Response := do
  let namespaceId ← parseBodyNamespace proxyNamespaceDetail q.namespaceId
  let plaintext ← secretPlaintext E namespaceId q.secretHandle
  let headers := (q.contentType.map fun ct => [("Content-Type", ct)]).getD []
  let cmd : HttpUploadCommand :=
    ⟨namespaceId, q.sourcePath, q.url, "PUT", buildHttpAuth none plaintext, headers⟩
  let reply ← runApp cmd.execute
  return ⟨reply, none, none, none⟩

/-! ### Requests -/

/-- The requests of the socket. -/
inductive Request
  | put (q : PutSecretRequest)
  | rotate (q : RotateSecretRequest)
  | rollback (q : RollbackSecretRequest)
  | delete (q : DeleteSecretRequest)
  | reveal (q : RevealRequest)
  | issueUseToken (q : UseTokenRequest)
  | writeTempfile (q : MaterializeRequest)
  | writeFifo (q : MaterializeRequest)
  | httpRequest (q : ProxyHttpRequestRequest)
  | httpDownload (q : ProxyHttpDownloadRequest)
  | httpUpload (q : ProxyHttpUploadRequest)

/-- The handler of a request. -/
def Request.serve (peer : PeerCredentials) : Request → SocketHandler Response
  | put q => putSecret E peer q
  | rotate q => rotateSecret E peer q
  | rollback q => rollbackSecret peer q
  | delete q => deleteSecret peer q
  | reveal q => Handlers.reveal E peer q
  | issueUseToken q => Proxy.issueUseToken E q
  | writeTempfile q => Proxy.writeTempfile E q
  | writeFifo q => Proxy.writeFifo E q
  | httpRequest q => Proxy.httpRequest E q
  | httpDownload q => Proxy.httpDownload E q
  | httpUpload q => Proxy.httpUpload E q

end MerkleVault.Socket.Proxy
