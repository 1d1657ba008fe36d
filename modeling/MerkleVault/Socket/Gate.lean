import MerkleVault.App.UseCommands

/-! # The Consumer Gate of the Companion Socket

A namespace's policy may list the programs that reach it over the socket, as globs.  The gate is
opt-in: without a policy or with an empty list every peer passes; with a list the peer's program path
must be known and match. -/

namespace MerkleVault.Socket.Gate

open MerkleVault.Types MerkleVault.Lib.Program MerkleVault.Sqlite.Tables MerkleVault.App.Context

/-! ### Problems -/

/-- The kinds of the problems that the handlers build themselves. -/
inductive ProblemType
  | categoryNotRegistered
  | handleNotFound
  | namespaceNotFound
  | operatorConfirmationRequired
  | schemaValidationFailed
deriving DecidableEq, Repr

/-- The fields of a problem. -/
structure ProblemDetails where
  kind : ProblemType
  title : String
  status : UInt16
  detail : String
  instanceUri : Option String
  hint : Option String
deriving DecidableEq, Repr

/-- An error response: one that a handler builds, or the rendering of an application error. -/
inductive Problem
  | details (p : ProblemDetails)
  | app (e : AppError)
deriving DecidableEq

/-- A handler of the socket. -/
abbrev SocketHandler (α : Type) := Cmd Op Problem α

/-- A command inside a handler: its error goes through `app_error_to_problem`. -/
def runApp {α : Type} (x : Handler α) : SocketHandler α := withError .app x

/-! ### Globs -/

/-- The cells after the first of the row of `c`, from the row before and the cell to the left. -/
def globCells (c : Char) : Bool → List Char → List Bool → List Bool
  | left, h :: hs, above :: above' :: row =>
    let cell := if c = '*' then above' || left else if c = '?' then above else above && c = h
    cell :: globCells c cell hs (above' :: row)
  | _, _, _ => []

/-- One row of the matrix: which prefixes of the input the pattern up to `c` matches. -/
def globRow (hay : List Char) (row : List Bool) (c : Char) : List Bool :=
  let first := c = '*' && row.headD false
  first :: globCells c first hay row

/-- `glob_match`: `*` stands for any run of characters and `?` for one. -/
def globMatch (pattern input : String) : Bool :=
  let hay := input.toList
  (pattern.toList.foldl (globRow hay) (true :: List.replicate hay.length false)).getLastD false

example : globMatch "/usr/local/bin/merkle*" "/usr/local/bin/merkle" = true := by decide

/-- `AllowedConsumers::matches`. -/
def consumersMatch (globs : List String) (programPath : String) : Bool :=
  globs.any fun pattern => globMatch pattern programPath

/-! ### The gate -/

/-- The peer's program path, where it could be resolved and is text. -/
structure PeerCredentials where
  programPath : Option String
deriving DecidableEq, Repr

/-- A program that is not on the list. -/
def denyConsumer (reason : String) : Problem := .app (.policyDenied reason)

/-- `enforce_consumer_allowlist`: an empty list allows every program. -/
def enforceConsumerAllowlist (policy : NamespacePolicy) (peer : PeerCredentials) :
    Except Problem Unit :=
  if policy.allowedConsumers.isEmpty then .ok ()
  else match peer.programPath with
    | some path =>
      if consumersMatch policy.allowedConsumers path then .ok ()
      else .error (denyConsumer ("consumer program '" ++ path ++
        "' is not authorized for this namespace by its allowed_consumers policy"))
    | none => .error (denyConsumer
        "peer program path could not be resolved; denying because this namespace has a consumer allowlist configured (fail-closed)")

/-- `consumer_gate::check`. -/
def check (namespaceId : NamespaceId) (peer : PeerCredentials) : SocketHandler Unit := do
  match ← call (.query (.getNamespacePolicy namespaceId)) with
  | .ok (some policy) => ofExcept id (enforceConsumerAllowlist policy peer)
  | .ok none => return ()
  | .error e => throw (.app (.storage e))

end MerkleVault.Socket.Gate
