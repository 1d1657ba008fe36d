import MerkleVault.App.Lifecycle
import MerkleVault.App.UseCommands

/-! # Materialized Files

A secret is materialized to a file or a named pipe.  The file is created first, the entry committed,
and the path registered last; an error on the way removes the file.  Meanwhile a reaper removes what
has expired, a sweeper removes what it does not find registered, clients revoke by token and close
sessions, and the writer of a pipe removes it once its `open` has returned.

* `tempSystem`: the programs over one disk, one registry and one clock;
* `watch`: what a program is doing, from the actions it took;
* `effect_of_step`: every step has one of a few effects on the files and the registry. -/

namespace MerkleVault.App.Tempfiles

open MerkleVault.Types MerkleVault.External MerkleVault.Lib.Program
open MerkleVault.Audit.Entry MerkleVault.Audit.Writer MerkleVault.App.Context
open MerkleVault.App.Lifecycle MerkleVault.App.SecretCommands MerkleVault.App.UseCommands

/-! ### The state -/

/-- A file and when it expires. -/
structure RegisteredTempfile where
  path : String
  /-- Seconds of the monotonic clock. -/
  expiresAt : ℕ

/-- The vault, the files of its directory and the registry of what it materialized. -/
structure TempState where
  app : AppState
  /-- The paths in the directory of temporary files. -/
  files : List String
  /-- Registered materializations, by token. -/
  registry : List (String × RegisteredTempfile)
  /-- Pipes whose writer was spawned and waits for a reader. -/
  writers : List String
  clock : ℕ
  /-- What was there when the agent started. -/
  orphans : List String
  /-- Tokens that were drawn, that a removal named, and that a registration made known. -/
  drawn : List String
  named : List String
  handedOut : List String

/-! ### Paths -/

/-- `build_tmp_path`, `resolve_tmp_path`. -/
def tmpPath (dir opaqueToken : String) : String := dir ++ "merkle_" ++ opaqueToken ++ ".tmp"

/-- `build_fifo_path`, `resolve_fifo_path`. -/
def fifoPath (dir opaqueToken : String) : String := dir ++ "merkle_" ++ opaqueToken ++ ".fifo"

/-- The paths that a token may stand for. -/
def candidates (dir opaqueToken : String) : List String :=
  [tmpPath dir opaqueToken, fifoPath dir opaqueToken]

/-- `Path::extension` of a name that does not begin with a dot: what follows its last dot. -/
def extension (name : List Char) : Option (List Char) :=
  if '.' ∈ name then some (name.reverse.takeWhile (· ≠ '.')).reverse else none

/-- `is_merkle_materialization`, by the prefix and the extension of a name. -/
def isMerkleMaterialization (name : String) : Bool :=
  "merkle_".toList.isPrefixOf name.toList &&
    (extension name.toList).any fun ext =>
      ext.map Char.toLower == "tmp".toList || ext.map Char.toLower == "fifo".toList

example : isMerkleMaterialization "merkle_0a.tmp" = true := by decide

/-! ### The actions -/

/-- What a session close drained: how many entries, and the paths it failed to remove. -/
structure Drained where
  count : ℕ
  kept : List String

/-- Actions on the vault, the files and the registry. -/
inductive TempOp : Type → Type 1
  | app {β : Type} (op : Op β) : TempOp β
  /-- `remove_file` of a path on behalf of the token it was materialized under. -/
  | discard (token path : String) : TempOp (Except String Unit)
  /-- Tokens and paths whose time has come, under the read lock. -/
  | expired : TempOp (List (String × String))
  | unregisterTempfile (token : String) : TempOp Unit
  /-- Whether the directory of temporary files could be opened. -/
  | readDir : TempOp Bool
  | registeredPaths : TempOp (List String)
  /-- The name of the next entry, unless the stream has ended; not every name is UTF-8. -/
  | nextEntry : TempOp (Option (Option String))
  | revokeUseTokens : TempOp ℕ
  /-- The section of a session close under the write lock of the registry. -/
  | drainTempfiles : TempOp Drained
  /-- The writer's `open`: it returns when a reader has opened the pipe, or fails. -/
  | openPipe (path : String) : TempOp (Except String Unit)

/-- `remove_file`. -/
def TempState.without (s : TempState) (path : String) : TempState :=
  { s with files := s.files.filter (· ≠ path) }

/-- `register`: the file of a token, with its expiry. -/
def TempState.register (s : TempState) (token path : String) (now : ℕ) : TempState :=
  { s with
    clock := now
    registry := (token, ⟨path, now + tempfileTtlSecs⟩) :: s.registry.filter (·.1 ≠ token)
    handedOut := token :: s.handedOut }

/-- `unregister`: the token is forgotten. -/
def TempState.unregister (s : TempState) (token : String) : TempState :=
  { s with registry := s.registry.filter (·.1 ≠ token) }

/-- The paths of the registered files. -/
def TempState.paths (s : TempState) : List String := s.registry.map (·.2.path)

/-- Every registered file is removed, apart from those whose removal fails, and all are forgotten. -/
def TempState.drain (s : TempState) (kept : List String) : TempState :=
  { s with files := s.files.filter (fun p => p ∉ s.paths ∨ p ∈ kept), registry := [] }

/-- Each file system call may fail, and then leaves the files. -/
def removes (s : TempState) (path : String) (r : Except String Unit) (s' : TempState) : Prop :=
  r = .ok () ∧ path ∈ s.files ∧ s' = s.without path ∨ s' = s ∧ ∃ e, r = .error e

/-- `create_new`, `mkfifo`: they fail on a path that exists. -/
def creates (s : TempState) (path : String) (r : Except String Unit) (s' : TempState) : Prop :=
  r = .ok () ∧ path ∉ s.files ∧ s' = { s with files := path :: s.files } ∨ s' = s ∧ ∃ e, r = .error e

/-- The ports that the files and the registry answer. -/
def portExec (dir : String) {β : Type} : Port β → TempState → β → TempState → Prop
  | .createFile path, s, r, s' => creates s path r s'
  | .mkfifo path, s, r, s' => creates s path r s'
  | .removeFile path, s, r, s' => removes s path r s'
  | .randomBytes32, s, r, s' => opaqueToken r ∉ s.drawn ∧ opaqueToken r ∉ s.named ∧
      s' = { s with drawn := opaqueToken r :: s.drawn }
  | .tempDir, s, r, s' => r = dir ∧ s' = s
  | .spawnFifoWriter path _, s, _, s' => s' = { s with writers := path :: s.writers }
  | .registerTempfile token path, s, _, s' => ∃ now, s.clock ≤ now ∧ s' = s.register token path now
  | _, s, _, s' => s' = s

/-- The entries that have expired. -/
def TempState.due (s : TempState) (now : ℕ) : List (String × String) :=
  (s.registry.filter (·.2.expiresAt ≤ now)).map fun e => (e.1, e.2.path)

variable (K : Crates) (dir : String)

/-- An action of a command; the ports act on the files. -/
def appExec {β : Type} : Op β → TempState → β → TempState → Prop
  | .port p, s, r, s' => portExec dir p s r s'
  | op, s, r, s' => ∃ app, exec K op s.app r app ∧ s' = { s with app := app }

/-- What one action does. -/
def tempExec {β : Type} : TempOp β → TempState → β → TempState → Prop
  | .app op, s, r, s' => appExec K dir op s r s'
  | .discard token path, s, r, s' => ∃ s₁, removes s path r s₁ ∧
      s' = { s₁ with named := token :: s₁.named }
  | .expired, s, r, s' => ∃ now, s.clock ≤ now ∧ r.Perm (s.due now) ∧ s' = { s with clock := now }
  | .unregisterTempfile token, s, _, s' => s' = s.unregister token
  | .readDir, s, _, s' => s' = s
  | .registeredPaths, s, r, s' => r = s.paths ∧ s' = s
  -- The stream is buffered: its next name may be that of a file that is gone, or of a new one.
  | .nextEntry, s, _, s' => s' = s
  | .revokeUseTokens, s, r, s' => r = s.app.useTokens.length ∧
      s' = { s with app := { s.app with useTokens := [] } }
  | .drainTempfiles, s, r, s' => r.count = s.registry.length ∧ s' = s.drain r.kept
  | .openPipe path, s, _, s' => path ∈ s.writers ∧
      s' = { s with writers := s.writers.filter (· ≠ path) }

/-! ### The programs -/

/-- What a client gets. -/
inductive TempReply
  | app (reply : Reply)
  | revoked (revoked : Bool)
  | sessionClosed (tokensRevoked tempfilesCleaned : ℕ)
  | done

/-- A program over vault and files. -/
abbrev TempHandler (α : Type) := Cmd TempOp AppError α

/-- A command of the application. -/
def inTemp {α : Type} (x : Handler α) : TempHandler α := embedded TempOp.app id x

/-- `RevokeTempfileCommand`. -/
structure RevokeTempfileCommand where
  opaqueToken : String
  namespaceId : NamespaceId

/-- No operation is dedicated to revocations. -/
def revoked (ns : NamespaceId) : AppendParams :=
  { op := .writeTempfile, outcome := .allow, namespaceId := ns, callerProgram := agent }

/-- Whichever path exists is removed; the entry is committed in any case. -/
def RevokeTempfileCommand.execute (cmd : RevokeTempfileCommand) : TempHandler TempReply := do
  inTemp requireUnsealed
  if (trim cmd.opaqueToken.toList).isEmpty then
    throw (.invalidInput "opaque_token must not be empty")
  else
    let dir ← inTemp (call (.port .tempDir))
    let tmpRemoved ← call (.discard cmd.opaqueToken (tmpPath dir cmd.opaqueToken))
    let fifoRemoved ← call (.discard cmd.opaqueToken (fifoPath dir cmd.opaqueToken))
    call (.unregisterTempfile cmd.opaqueToken)
    let hmacKey ← inTemp requireHmacKey
    inTemp (auditCommit (revoked cmd.namespaceId) hmacKey)
    return .revoked (tmpRemoved.isOk || fifoRemoved.isOk)

/-- A path that cannot be removed is unregistered all the same. -/
def reapEach : List (String × String) → TempHandler TempReply
  | [] => return .done
  | (token, path) :: rest => do
    let _ ← call (.discard token path)
    call (.unregisterTempfile token)
    reapEach rest

/-- `reap_expired_tempfiles`. -/
def reapExpiredTempfiles : TempHandler TempReply := do
  reapEach (← call .expired)

/-- The rounds over a directory, of which there are at most so many. -/
def sweepEntries (dir : String) (registered : List String) : ℕ → TempHandler TempReply
  | 0 => return .done
  | n + 1 => do
    match ← call .nextEntry with
    | none => return .done
    | some none => sweepEntries dir registered n
    | some (some name) =>
      if isMerkleMaterialization name && !registered.contains (dir ++ name) then
        let _ ← inTemp (call (.port (.removeFile (dir ++ name))))
        sweepEntries dir registered n
      else sweepEntries dir registered n

/-- The sweep at the start, over the files that nobody registered. -/
def sweepOrphanTempfiles (rounds : ℕ) : TempHandler TempReply := do
  let dir ← inTemp (call (.port .tempDir))
  if ← call .readDir then
    let registered ← call .registeredPaths
    sweepEntries dir registered rounds
  else return .done

/-- `close_session_state`, port forwards apart. -/
def closeSessionState : TempHandler TempReply := do
  let tokensRevoked ← call .revokeUseTokens
  let drained ← call .drainTempfiles
  return .sessionClosed tokensRevoked drained.count

/-- The blocking task of a pipe, which is removed also when it could not be opened. -/
def fifoWriter (path : String) : TempHandler TempReply := do
  let _ ← call (.openPipe path)
  let _ ← inTemp (call (.port (.removeFile path)))
  return .done

/-- A command that creates a file. -/
def materialized (x : Handler Reply) : TempHandler TempReply := do
  return .app (← inTemp x)

/-- Actions that touch neither files nor the registry. -/
def fileless {β : Type} : Op β → Prop
  | .port (.createFile _) | .port (.mkfifo _) | .port (.writeFile _ _) | .port (.removeFile _)
  | .port (.spawnFifoWriter _ _) | .port (.registerTempfile _ _) => False
  | _ => True

/-- The programs that run in any order. -/
inductive TempClient (E : Env) : Prog TempOp (Except AppError TempReply) → Prop
  | tempfile (cmd : MaterializeCommand) : TempClient E (materialized (writeTempfile E cmd)).run
  | fifo (cmd : MaterializeCommand) : TempClient E (materialized (writeFifo E cmd)).run
  | revoke (cmd : RevokeTempfileCommand) : TempClient E cmd.execute.run
  | reap : TempClient E reapExpiredTempfiles.run
  | sweep (rounds : ℕ) : TempClient E (sweepOrphanTempfiles rounds).run
  | close : TempClient E closeSessionState.run
  | writer (path : String) : TempClient E (fifoWriter path).run
  /-- Whatever else the agent runs. -/
  | other (x : Handler Reply) (h : Only fileless x.run) : TempClient E (materialized x).run

/-- A restart forgets the registry and the writers; the files stay. -/
def tempSystem (E : Env) : System TempState TempOp (Except AppError TempReply) where
  exec := tempExec E.toCrates dir
  starts := TempClient E
  restart s s' := ∃ clock, s' = { s with
    app := rebooted s.app, registry := [], writers := [], orphans := s.files, clock }

/-- A file that is there can be removed, and nobody names a token before it was handed out. -/
def tidyOp {β : Type} (s : TempState) : TempOp β → β → Prop
  | .app (.port (.removeFile path)), r => r = .ok () ∨ path ∉ s.files
  | .discard token path, r => (r = .ok () ∨ path ∉ s.files) ∧
      (token ∈ s.drawn → token ∈ s.handedOut)
  | .drainTempfiles, r => ∀ p ∈ r.kept, p ∉ s.files
  | _, _ => True

/-- A file that is there can be removed, and no token is named before its file is gone. -/
def tidy : Guard TempState TempOp := fun _ s e => tidyOp s e.op e.res

/-! ### What a program is doing -/

/-- The token and the file of a materialization that is under way. -/
inductive Hold
  | nothing
  | drawn (token : String)
  | holding (token path : String)
deriving DecidableEq

/-- The token of a materialization under way. -/
def Hold.token : Hold → Option String
  | .nothing => none
  | .drawn token => some token
  | .holding token _ => some token

/-- What a program has drawn, created and removed so far. -/
structure Watch where
  hold : Hold
  /-- The materializations that were created. -/
  made : List (String × String)
  /-- The snapshot of what had expired. -/
  due : List (String × String)
  /-- What was removed on behalf of a token. -/
  gone : List (String × String)
  /-- What was removed, and its token forgotten. -/
  ended : List (String × String)
  /-- The snapshot of what was registered. -/
  registered : Option (List String)
  /-- The pipes whose `open` has returned. -/
  opened : List String

/-- Before its first action. -/
def Watch.init : Watch := ⟨.nothing, [], [], [], [], none, []⟩

/-- The path is created for the token that was drawn. -/
def Watch.create (m : Watch) (path : String) (r : Except String Unit) : Watch :=
  match m.hold, r with
  | .drawn token, .ok _ =>
    { m with hold := .holding token path, made := (token, path) :: m.made }
  | _, _ => { m with hold := .nothing }

/-- The path is removed; where it is the one that is held, that is the end of it. -/
def Watch.remove (m : Watch) (path : String) : Watch :=
  match m.hold with
  | .holding token held =>
    if path = held then { m with hold := .nothing, ended := (token, path) :: m.ended } else m
  | _ => m

/-- What an action of a command adds. -/
def Watch.nextApp (m : Watch) {β : Type} : Op β → β → Watch
  | .port .randomBytes32, r => { m with hold := .drawn (opaqueToken r) }
  | .port (.createFile path), r => m.create path r
  | .port (.mkfifo path), r => m.create path r
  | .port (.removeFile path), _ => m.remove path
  | .port (.registerTempfile _ _), _ => { m with hold := .nothing }
  | _, _ => m

/-- What an action adds. -/
def Watch.next (m : Watch) {β : Type} : TempOp β → β → Watch
  | .app op, r => m.nextApp op r
  | .discard token path, _ => { m with gone := (token, path) :: m.gone }
  | .unregisterTempfile token, _ => { m with ended := m.gone.filter (·.1 = token) ++ m.ended }
  | .expired, r => { m with due := r }
  | .registeredPaths, r => { m with registered := some r }
  | .openPipe path, _ => { m with opened := path :: m.opened }
  | _, _ => m

/-- A path is removed by the program that holds it, by the writer of the pipe, or by a sweep that did
not find it registered. -/
def Watch.MayRemove (m : Watch) (path : String) : Prop :=
  (∃ token, m.hold = .holding token path) ∨ path ∈ m.opened ∨
    ∃ registered, m.registered = some registered ∧ path ∉ registered

/-- The path belongs to the token that was just drawn. -/
def Watch.MayCreate (dir : String) (m : Watch) (path : String) : Prop :=
  ∃ token, m.hold = .drawn token ∧ path ∈ candidates dir token

/-- A command creates and removes only the file of the token that it drew. -/
def Watch.allowedApp (dir : String) (m : Watch) {β : Type} : Op β → Prop
  | .port .randomBytes32 => ∀ token path, m.hold ≠ .holding token path
  | .port (.createFile path) => m.MayCreate dir path
  | .port (.mkfifo path) => m.MayCreate dir path
  | .port (.removeFile path) => m.MayRemove path
  | .port (.registerTempfile token path) => m.hold = .holding token path
  | _ => True

/-- A token is forgotten once its path, or whatever its path may be, was removed. -/
def Watch.MayForget (dir : String) (m : Watch) (token : String) : Prop :=
  (∃ path, (token, path) ∈ m.due ∧ (token, path) ∈ m.gone) ∨
    ∀ path ∈ candidates dir token, (token, path) ∈ m.gone

/-- A program removes only what it created, what expired or what its client names. -/
def Watch.allowed (dir : String) (m : Watch) {β : Type} : TempOp β → Prop
  | .app op => m.allowedApp dir op
  -- What has expired is removed, or, without a look at that, what a client names.
  | .discard token path => path ∈ candidates dir token ∧ ((token, path) ∈ m.due ∨ m.due = [])
  | .unregisterTempfile token => m.MayForget dir token
  | _ => True

/-- The directory is that of the process, and what expired are files of their tokens in it. -/
def expectsTemp (dir : String) {β : Type} : TempOp β → β → Prop
  | .app (.port .tempDir), r => r = dir
  | .expired, r => ∀ x ∈ r, x.2 ∈ candidates dir x.1
  | _, _ => True

/-- The rules that every client obeys. -/
def watch (dir : String) : Monitor TempOp Watch where
  init := .init
  allowed m op := m.allowed dir op
  expects _ op r := expectsTemp dir op r
  next m op r := m.next op r

/-! ### What a step does -/

/-- What one action of a program does to the files and the registry, and to what it is doing. -/
inductive Effect (dir : String) (s : TempState) (m : Watch) : TempState → Watch → Prop
  | quiet (app : AppState) (writers : List String) (clock : ℕ) (registered : Option (List String))
      (opened : List String) (hclock : s.clock ≤ clock) :
      Effect dir s m { s with app := app, writers := writers, clock := clock }
        { m with registered := registered, opened := opened }
  | draw (token : String) (hdrawn : token ∉ s.drawn) (hnamed : token ∉ s.named)
      (hm : ∀ t p, m.hold ≠ .holding t p) :
      Effect dir s m { s with drawn := token :: s.drawn } { m with hold := .drawn token }
  | create (token path : String) (hm : m.hold = .drawn token) (hp : path ∈ candidates dir token) :
      Effect dir s m { s with files := path :: s.files }
        { m with hold := .holding token path, made := (token, path) :: m.made }
  | abandon (hm : ∃ t, m.hold = .drawn t) : Effect dir s m s { m with hold := .nothing }
  | drop (token path : String) (hm : m.hold = .holding token path) :
      Effect dir s m (s.without path)
        { m with hold := .nothing, ended := (token, path) :: m.ended }
  | remove (path : String) (hm : ∀ t, m.hold ≠ .holding t path) : Effect dir s m (s.without path) m
  | register (token path : String) (now : ℕ) (hm : m.hold = .holding token path)
      (hclock : s.clock ≤ now) :
      Effect dir s m (s.register token path now) { m with hold := .nothing }
  | snapshot (due : List (String × String)) (clock : ℕ) (hclock : s.clock ≤ clock)
      (hdue : ∀ t p, (t, p) ∈ due → ∃ e, (t, e) ∈ s.registry ∧ e.path = p ∧ e.expiresAt ≤ clock) :
      Effect dir s m { s with clock := clock } { m with due := due }
  | discard (token path : String) (hp : path ∈ candidates dir token)
      (hnamed : token ∈ s.drawn → token ∈ s.handedOut) :
      Effect dir s m { s.without path with named := token :: s.named }
        { m with gone := (token, path) :: m.gone }
  | forget (token : String) (hm : m.MayForget dir token) :
      Effect dir s m (s.unregister token)
        { m with ended := m.gone.filter (·.1 = token) ++ m.ended }
  | drain (kept : List String) (hkept : ∀ p ∈ kept, p ∉ s.files) : Effect dir s m (s.drain kept) m

section Effects

variable {dir : String} {K : Crates} {s s' : TempState} {m m' : Watch}

theorem without_absent {path : String} (h : path ∉ s.files) : s.without path = s := by
  have hfilter : s.files.filter (· ≠ path) = s.files :=
    List.filter_eq_self.mpr fun p hp => decide_eq_true fun heq => h (heq ▸ hp)
  rw [TempState.without, hfilter]

theorem removes_eq {path : String} {r : Except String Unit} (hx : removes s path r s')
    (ht : r = .ok () ∨ path ∉ s.files) : s' = s.without path := by
  rcases hx with ⟨-, -, rfl⟩ | ⟨rfl, e, rfl⟩
  · rfl
  · rcases ht with ht | ht
    · cases ht
    · exact (without_absent ht).symm

theorem effect_create {path : String} {r : Except String Unit} (ha : m.MayCreate dir path)
    (hx : creates s path r s') : Effect dir s m s' (m.create path r) := by
  obtain ⟨token, hm, hp⟩ := ha
  unfold Watch.create
  rw [hm]
  rcases hx with ⟨rfl, -, rfl⟩ | ⟨rfl, e, rfl⟩
  · exact .create token path hm hp
  · exact .abandon ⟨token, hm⟩

theorem effect_remove {path : String} {r : Except String Unit} (hx : removes s path r s')
    (ht : r = .ok () ∨ path ∉ s.files) : Effect dir s m s' (m.remove path) := by
  rw [removes_eq hx ht]
  unfold Watch.remove
  cases hm : m.hold with
  | holding token held =>
    simp only
    split_ifs with heq
    · subst heq
      exact .drop token path hm
    · refine .remove path fun t ht => heq ?_
      rw [hm] at ht
      exact (Hold.holding.inj ht).2.symm
  | _ =>
    refine .remove path fun t ht => ?_
    rw [hm] at ht
    cases ht

theorem effect_app {β : Type} {op : Op β} {r : β} (ha : m.allowedApp dir op)
    (hx : appExec K dir op s r s') (hg : tidyOp s (.app op) r) :
    Effect dir s m s' (m.nextApp op r) := by
  cases op with
  | port p =>
    cases p with
    | createFile path => exact effect_create ha hx
    | mkfifo path => exact effect_create ha hx
    | removeFile path => exact effect_remove hx hg
    | randomBytes32 =>
      obtain ⟨hdrawn, hnamed, rfl⟩ := hx
      exact .draw _ hdrawn hnamed ha
    | registerTempfile token path =>
      obtain ⟨now, hclock, rfl⟩ := hx
      exact .register token path now ha hclock
    | tempDir =>
      obtain ⟨-, rfl⟩ := hx
      exact .quiet s'.app s'.writers s'.clock m.registered m.opened le_rfl
    | spawnFifoWriter path contents =>
      obtain rfl : s' = _ := hx
      exact .quiet s.app (path :: s.writers) s.clock m.registered m.opened le_rfl
    | _ =>
      obtain rfl : s' = _ := hx
      exact .quiet s'.app s'.writers s'.clock m.registered m.opened le_rfl
  | _ =>
    obtain ⟨app, -, rfl⟩ := hx
    exact .quiet app s.writers s.clock m.registered m.opened le_rfl

/-- **Every step** that a program may take has one of the effects. -/
theorem effect_of_step {β : Type} {op : TempOp β} {r : β} (ha : m.allowed dir op)
    (hx : tempExec K dir op s r s') (hg : tidyOp s op r) : Effect dir s m s' (m.next op r) := by
  cases op with
  | app op => exact effect_app ha hx hg
  | discard token path =>
    obtain ⟨s₁, hrem, rfl⟩ := hx
    obtain rfl := removes_eq hrem hg.1
    exact .discard token path ha.1 hg.2
  | expired =>
    obtain ⟨now, hclock, hperm, rfl⟩ := hx
    refine .snapshot r now hclock fun t p hmem => ?_
    obtain ⟨⟨t', e⟩, he, heq⟩ := List.mem_map.mp (hperm.subset hmem)
    obtain ⟨hreg, hexp⟩ := List.mem_filter.mp he
    obtain ⟨rfl, rfl⟩ := Prod.mk.inj heq
    exact ⟨e, hreg, rfl, of_decide_eq_true hexp⟩
  | unregisterTempfile token =>
    obtain rfl : s' = _ := hx
    exact .forget token ha
  | registeredPaths =>
    obtain ⟨-, rfl⟩ := hx
    exact .quiet s'.app s'.writers s'.clock _ m.opened le_rfl
  | revokeUseTokens =>
    obtain ⟨-, rfl⟩ := hx
    exact .quiet _ s.writers s.clock m.registered m.opened le_rfl
  | drainTempfiles =>
    obtain ⟨-, rfl⟩ := hx
    exact .drain _ hg
  | openPipe path =>
    obtain ⟨-, rfl⟩ := hx
    exact .quiet s.app _ s.clock m.registered _ le_rfl
  | readDir =>
    obtain rfl : s' = _ := hx
    exact .quiet s'.app s'.writers s'.clock m.registered m.opened le_rfl
  | nextEntry =>
    obtain rfl : s' = _ := hx
    exact .quiet s'.app s'.writers s'.clock m.registered m.opened le_rfl

/-- A program has the token it had, or drew one that nobody knew. -/
theorem Effect.token (h : Effect dir s m s' m') {t : String} (ht : m'.hold.token = some t) :
    m.hold.token = some t ∨ t ∉ s.drawn ∧ t ∉ s.named ∧ s'.drawn = t :: s.drawn ∧
      s'.named = s.named ∧ s'.handedOut = s.handedOut ∧ s'.registry = s.registry := by
  cases h with
  | draw token hdrawn hnamed hm =>
    obtain rfl := Option.some.inj ht
    exact .inr ⟨hdrawn, hnamed, rfl, rfl, rfl, rfl⟩
  | create token path hm hp =>
    refine .inl ?_
    rw [hm]
    exact ht
  | quiet => exact .inl ht
  | remove => exact .inl ht
  | snapshot => exact .inl ht
  | discard => exact .inl ht
  | forget => exact .inl ht
  | drain => exact .inl ht
  | abandon => cases ht
  | drop => cases ht
  | register => cases ht

theorem Effect.holding (h : Effect dir s m s' m') {t p : String} (ht : m'.hold = .holding t p) :
    m.hold = .holding t p ∨ p ∈ candidates dir t := by
  cases h with
  | create token path hm hp =>
    obtain ⟨rfl, rfl⟩ := Hold.holding.inj ht
    exact .inr hp
  | quiet => exact .inl ht
  | remove => exact .inl ht
  | snapshot => exact .inl ht
  | discard => exact .inl ht
  | forget => exact .inl ht
  | drain => exact .inl ht
  | draw => cases ht
  | abandon => cases ht
  | drop => cases ht
  | register => cases ht

theorem Effect.drawn (h : Effect dir s m s' m') : s.drawn ⊆ s'.drawn := by
  cases h with
  | draw => exact List.subset_cons_self _ _
  | _ => exact List.Subset.refl _

theorem Effect.clock (h : Effect dir s m s' m') : s.clock ≤ s'.clock := by
  cases h with
  | quiet app writers clock registered opened hclock => exact hclock
  | register token path now hm hclock => exact hclock
  | snapshot due clock hclock hdue => exact hclock
  | _ => exact le_rfl

theorem Effect.named (h : Effect dir s m s' m') : s.named ⊆ s'.named ∧
    ∀ t ∈ s'.named, t ∈ s.named ∨ (t ∈ s.drawn → t ∈ s.handedOut) := by
  cases h with
  | discard token path hp hnamed =>
    refine ⟨List.subset_cons_self _ _, fun t ht => ?_⟩
    rcases List.mem_cons.mp ht with rfl | ht
    · exact .inr hnamed
    · exact .inl ht
  | _ => exact ⟨List.Subset.refl _, fun t ht => .inl ht⟩

theorem Effect.handedOut (h : Effect dir s m s' m') : s.handedOut ⊆ s'.handedOut ∧
    ∀ t ∈ s'.handedOut, t ∈ s.handedOut ∨ m.hold.token = some t ∧ m'.hold.token = none := by
  cases h with
  | register token path now hm hclock =>
    refine ⟨List.subset_cons_self _ _, fun t ht => ?_⟩
    rcases List.mem_cons.mp ht with rfl | ht
    · refine .inr ⟨?_, rfl⟩
      rw [hm]
      rfl
    · exact .inl ht
  | _ => exact ⟨List.Subset.refl _, fun t ht => .inl ht⟩

/-- A file that is new is held by the program that drew its token. -/
theorem Effect.files (h : Effect dir s m s' m') : ∀ p ∈ s'.files, p ∈ s.files ∨
    ∃ t, m.hold = .drawn t ∧ p ∈ candidates dir t ∧ m'.hold = .holding t p := by
  intro p hp
  cases h with
  | create token path hm hpath =>
    rcases List.mem_cons.mp hp with rfl | hp
    · exact .inr ⟨token, hm, hpath, rfl⟩
    · exact .inl hp
  | drop => exact .inl (List.mem_of_mem_filter hp)
  | remove => exact .inl (List.mem_of_mem_filter hp)
  | discard => exact .inl (List.mem_of_mem_filter hp)
  | drain => exact .inl (List.mem_of_mem_filter hp)
  | _ => exact .inl hp

/-- An entry that is new is that of the file which the program held. -/
theorem Effect.registry (h : Effect dir s m s' m') : ∀ t e, (t, e) ∈ s'.registry →
    (t, e) ∈ s.registry ∨ m.hold = .holding t e.path ∧ e.expiresAt = s'.clock + tempfileTtlSecs ∧
      s'.handedOut = t :: s.handedOut ∧ ∀ e', (t, e') ∈ s'.registry → e' = e := by
  intro t e he
  cases h with
  | register token path now hm hclock =>
    rcases List.mem_cons.mp he with heq | he
    · obtain ⟨rfl, rfl⟩ := Prod.mk.inj heq
      refine .inr ⟨hm, rfl, rfl, fun e' he' => ?_⟩
      rcases List.mem_cons.mp he' with heq | he'
      · exact (Prod.mk.inj heq).2
      · exact absurd rfl (of_decide_eq_true (List.mem_filter.mp he').2)
    · exact .inl (List.mem_of_mem_filter he)
  | forget => exact .inl (List.mem_of_mem_filter he)
  | drain => exact absurd he List.not_mem_nil
  | _ => exact .inl he

end Effects

end MerkleVault.App.Tempfiles
