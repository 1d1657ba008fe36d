import MerkleVault.App.SecretCommands

/-! # The Commands that Use Secrets

A use-token authorizes one materialization of a secret to a file or a named pipe; an HTTP command
sends a request with a credential.  Each command commits its entry; the file of a materialization
whose entry could not be committed is removed again. -/

namespace MerkleVault.App.UseCommands

open MerkleVault.Types MerkleVault.External MerkleVault.Lib.Program MerkleVault.Audit.Writer
open MerkleVault.Secrets.Aggregate MerkleVault.Sqlite.Tables MerkleVault.App.Context
open MerkleVault.App.SecretCommands

variable (E : Env)

/-- The entry of a use of a secret. -/
def used (op : Types.AuditOp) (namespaceId : NamespaceId) (handle : Handle)
    (sensitivity : Sensitivity) : AppendParams :=
  { op := op, outcome := .allow, namespaceId := namespaceId, handle := some handle
    sensitivity := some sensitivity, callerProgram := agent }

/-! ### Use-tokens -/

/-- `UseTokenCommand`. -/
structure UseTokenCommand where
  namespaceId : NamespaceId
  handle : Handle
  sessionId : Uuid

/-- `USE_TOKEN_TTL_SECS`. -/
def useTokenTtlSecs : Nat := 60

/-- `UseTokenCommand::execute`: the entry first, then the registration. -/
def UseTokenCommand.execute (cmd : UseTokenCommand) : Handler Reply := do
  requireUnsealed
  let secret ← loadSecret cmd.handle
  let tokenBytes ← call (.port .randomBytes32)
  let issuedAt ← call (.port .now)
  let expiresAt ← attempt textFault (.port (.expiry useTokenTtlSecs))
  let useToken := E.base64UrlEncode tokenBytes.toList
  let hmacKey ← requireHmacKey
  auditCommit (used .use cmd.namespaceId cmd.handle secret.sensitivity) hmacKey
  -- Registered only after the entry is durable.
  call (.registerUseToken useToken
    ⟨secret.id, cmd.sessionId, cmd.handle, issuedAt, expiresAt, false⟩)
  return .token useToken expiresAt

/-! ### Materialization -/

/-- The input of both materializations. -/
structure MaterializeCommand where
  namespaceId : NamespaceId
  handle : Handle
  dekBytes : Key
  useToken : String

/-- The secret and the plaintext of its active version, once the token is consumed. -/
def openSecret (cmd : MaterializeCommand) : Handler (Secret × List UInt8) := do
  requireUnsealed
  attempt id (.consumeUseToken cmd.useToken cmd.handle)
  let secret ← loadSecret cmd.handle
  let version ← orThrow .notFound secret.activeVersion
  let plaintext ← ofExcept .crypto (decryptBlob E cmd.dekBytes version.blob)
  return (secret, plaintext)

/-- Remove the file and fail. -/
def cleanUp {α : Type} (path : String) (e : AppError) : Handler α := do
  let _ ← call (.port (.removeFile path))
  throw e

/-- Run the step; when it fails, remove the file before the error is returned. -/
def orCleanUp {α : Type} (path : String) (x : Handler α) : Handler α := do
  match ← resultOf x with
  | .ok a => return a
  | .error e => cleanUp path e

/-- The entry of a materialization, under its own operation for files and pipes alike. -/
def recordMaterialization (cmd : MaterializeCommand) (secret : Secret) (path : String) :
    Handler Unit := do
  let hmacKey ← orCleanUp path requireHmacKey
  orCleanUp path (auditCommit
    (used .writeTempfile cmd.namespaceId cmd.handle secret.sensitivity) hmacKey)

/-- The token in the name of a temporary file. -/
def opaqueToken (tokenBytes : Key) : String := String.ofList (hexBytes tokenBytes.toList)

/-- `TEMPFILE_TTL_SECS`. -/
def tempfileTtlSecs : Nat := 300

/-- The lifetime of a pipe. -/
def fifoTtlSecs : Nat := 300

/-- `WriteTempfileCommand::execute`. -/
def writeTempfile (cmd : MaterializeCommand) : Handler Reply := do
  let (secret, plaintext) ← openSecret E cmd
  let token := opaqueToken (← call (.port .randomBytes32))
  let path := (← call (.port .tempDir)) ++ "merkle_" ++ token ++ ".tmp"
  attempt (fun e => textFault ("write_tempfile: create failed: " ++ e)) (.port (.createFile path))
  orCleanUp path (attempt (fun e => textFault ("write_tempfile: I/O error: " ++ e))
    (.port (.writeFile path plaintext)))
  orCleanUp path (attempt (fun e => textFault ("write_tempfile: flush failed: " ++ e))
    (.port (.flushFile path)))
  recordMaterialization cmd secret path
  let expiresAt ← orCleanUp path (attempt (fun e => textFault ("write_tempfile: " ++ e))
    (.port (.expiry tempfileTtlSecs)))
  call (.port (.registerTempfile token path))
  return .materialized token expiresAt

/-- `WriteFifoCommand::execute`: the writer starts only once the entry is committed. -/
def writeFifo (cmd : MaterializeCommand) : Handler Reply := do
  let (secret, plaintext) ← openSecret E cmd
  let token := opaqueToken (← call (.port .randomBytes32))
  let path := (← call (.port .tempDir)) ++ "merkle_" ++ token ++ ".fifo"
  attempt (fun e => textFault ("write_fifo: " ++ e)) (.port (.mkfifo path))
  recordMaterialization cmd secret path
  let expiresAt ← orCleanUp path (attempt (fun e => textFault ("write_fifo: " ++ e))
    (.port (.expiry fifoTtlSecs)))
  call (.port (.spawnFifoWriter path plaintext))
  call (.port (.registerTempfile token path))
  return .materialized token expiresAt

/-! ### HTTP -/

/-- The entry of an HTTP command. -/
def requested (op : Types.AuditOp) (namespaceId : NamespaceId) : AppendParams :=
  { op := op, outcome := .allow, namespaceId := namespaceId, callerProgram := agent }

/-- The entry of a request. -/
def recordRequest (op : Types.AuditOp) (namespaceId : NamespaceId) : Handler Unit := do
  let hmacKey ← requireHmacKey
  auditCommit (requested op namespaceId) hmacKey

/-- `HttpRequestCommand`. -/
structure HttpRequestCommand where
  namespaceId : NamespaceId
  spec : HttpRequestSpec
  auth : HttpAuth

/-- `HttpRequestCommand::execute`: the request first, then the entry. -/
def HttpRequestCommand.execute (cmd : HttpRequestCommand) : Handler Reply := do
  requireUnsealed
  let response ← attempt .external (.port (.httpRequest cmd.spec cmd.auth))
  recordRequest .httpRequest cmd.namespaceId
  return .httpResponse response

/-- `HttpDownloadCommand`. -/
structure HttpDownloadCommand where
  namespaceId : NamespaceId
  url : String
  destination : String
  auth : HttpAuth

/-- `HttpDownloadCommand::execute`: the body goes to a file. -/
def HttpDownloadCommand.execute (cmd : HttpDownloadCommand) : Handler Reply := do
  requireUnsealed
  let response ← attempt .external (.port (.httpRequest ⟨"GET", cmd.url, [], none⟩ cmd.auth))
  attempt (fun e => textFault ("http_download: write failed: " ++ e))
    (.port (.writeFile cmd.destination response.body))
  recordRequest .httpDownload cmd.namespaceId
  return .transferred response.status response.body.length

/-- `HttpUploadCommand`. -/
structure HttpUploadCommand where
  namespaceId : NamespaceId
  source : String
  url : String
  method : String
  auth : HttpAuth
  headers : List (String × String)

/-- `HttpUploadCommand::execute`: the body comes from a file. -/
def HttpUploadCommand.execute (cmd : HttpUploadCommand) : Handler Reply := do
  requireUnsealed
  let body ← attempt (fun e => textFault ("http_upload: read failed: " ++ e))
    (.port (.readFile cmd.source))
  let response ← attempt .external
    (.port (.httpRequest ⟨cmd.method, cmd.url, cmd.headers, some body⟩ cmd.auth))
  recordRequest .httpUpload cmd.namespaceId
  return .transferred response.status body.length

end MerkleVault.App.UseCommands
