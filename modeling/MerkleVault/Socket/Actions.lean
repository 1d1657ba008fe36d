import MerkleVault.Socket.Proxy

/-! # Which Actions a Handler Can Take

An action writes the vault, exports bytes to a file, a pipe or the network, reads a table, or does
none of these.  The handlers of reveal and use-tokens neither write nor export; materialization and
the HTTP handlers do not write; put, rotate, rollback and delete do not export. -/

namespace MerkleVault.Socket.Actions

open MerkleVault.Types MerkleVault.External MerkleVault.Lib.Program MerkleVault.Audit.Writer
open MerkleVault.Secrets.Aggregate MerkleVault.Sqlite.Tables MerkleVault.App.Context
open MerkleVault.App.SecretCommands MerkleVault.App.UseCommands MerkleVault.App.Reveal
open MerkleVault.Socket.Gate MerkleVault.Socket.Handlers MerkleVault.Socket.Proxy

/-! ### Kinds of actions -/

/-- Actions that hand no bytes to a file, a pipe or the network. -/
def silent {β : Type} : Op β → Prop
  | .port (.writeFile _ _) => False
  | .port (.spawnFifoWriter _ _) => False
  | .port (.httpRequest _ _) => False
  | _ => True

/-- Actions that draw no identifier. -/
def drawless {β : Type} : Op β → Prop
  | .newUuid => False
  | _ => True

/-- Statements that look up no secret but that of the handle. -/
def reads (handle : Handle) {β : Type} : Op β → Prop
  | .query (.selectSecretRow h) => h = handle
  | .query _ => True
  | _ => False

/-- Actions that look up no secret but that of the handle. -/
def looksUp (handle : Handle) {β : Type} : Op β → Prop
  | .query (.selectSecretRow h) => h = handle
  | _ => True

/-- Actions that read no table. -/
def blind {β : Type} : Op β → Prop
  | .query _ => False
  | _ => True

/-- Neither a write nor an export. -/
def plain {β : Type} (op : Op β) : Prop := quiet op ∧ silent op

/-- A plain action that reads nothing and draws nothing. -/
def inert {β : Type} (op : Op β) : Prop := plain op ∧ blind op ∧ drawless op

/-- A plain action that looks up no secret but that of the handle. -/
def about (handle : Handle) {β : Type} (op : Op β) : Prop := plain op ∧ looksUp handle op

/-- An action that writes nothing and looks up no secret but that of the handle. -/
def uses (handle : Handle) {β : Type} (op : Op β) : Prop := quiet op ∧ looksUp handle op

section Kinds

variable {β : Type} {op : Op β} {handle : Handle}

theorem blind_looksUp (h : blind op) : looksUp handle op := by
  cases op with
  | query q => exact h.elim
  | _ => trivial

theorem reads_inv (h : reads handle op) : plain op ∧ drawless op ∧ looksUp handle op := by
  cases op with
  | query q =>
    refine ⟨⟨trivial, trivial⟩, trivial, ?_⟩
    cases q with
    | selectSecretRow handle' => exact h
    | _ => trivial
  | _ => exact h.elim

theorem inert_quiet (h : inert op) : quiet op := h.1.1

theorem inert_silent (h : inert op) : silent op := h.1.2

theorem inert_drawless (h : inert op) : drawless op := h.2.2

theorem inert_about (h : inert op) : about handle op := ⟨h.1, blind_looksUp h.2.1⟩

theorem inert_uses (h : inert op) : uses handle op := ⟨h.1.1, blind_looksUp h.2.1⟩

theorem about_uses (h : about handle op) : uses handle op := ⟨h.1.1, h.2⟩

theorem about_silent (h : about handle op) : silent op := h.1.2

theorem about_quiet (h : about handle op) : quiet op := h.1.1

theorem reads_quiet (h : reads handle op) : quiet op := (reads_inv h).1.1

theorem reads_silent (h : reads handle op) : silent op := (reads_inv h).1.2

theorem reads_drawless (h : reads handle op) : drawless op := (reads_inv h).2.1

theorem reads_about (h : reads handle op) : about handle op := ⟨(reads_inv h).1, (reads_inv h).2.2⟩

theorem reads_uses (h : reads handle op) : uses handle op := ⟨(reads_inv h).1.1, (reads_inv h).2.2⟩

end Kinds

variable {A : ∀ {β : Type}, Op β → Prop} {E : Env}

/-! ### Parts that the commands share -/

section Parts

variable (h : ∀ {β : Type} {op : Op β}, inert op → A op)

include h in
theorem only_requireUnsealed : Only A requireUnsealed.run := by
  refine only_except_bind (only_call (h ⟨⟨trivial, trivial⟩, trivial, trivial⟩)) fun b => ?_
  cases b with
  | true => exact only_pure ()
  | false => exact only_throw _

include h in
theorem only_requireHmacKey : Only A requireHmacKey.run :=
  only_except_bind (only_call (h ⟨⟨trivial, trivial⟩, trivial, trivial⟩)) fun _ => only_orThrow _ _

include h in
theorem only_auditCommit (params : AppendParams) (key : Key) : Only A (auditCommit params key).run :=
  only_attempt (h ⟨⟨trivial, trivial⟩, trivial, trivial⟩)

include h in
/-- The end of every command: its entry. -/
theorem only_record {α : Type} (params : AppendParams) {x : Handler α} (hx : Only A x.run) :
    Only A (do
      let hmacKey ← requireHmacKey
      auditCommit params hmacKey
      x : Handler α).run :=
  only_except_bind (only_requireHmacKey h) fun key =>
    only_except_bind (only_auditCommit h params key) fun _ => hx

include h in
theorem only_deny {α : Type} (op : AuditOp) (namespaceId : NamespaceId) (handle : Handle)
    (sensitivity : Sensitivity) (reason : String) (e : AppError) :
    Only A (deny op namespaceId handle sensitivity reason e : Handler α).run :=
  only_record h _ (only_throw e)

omit h in
theorem only_decodePayload (format : ValueFormat) (plaintext : List UInt8) :
    Only A (decodePayload E format plaintext).run := by
  cases format with
  | utf8 => exact only_pure _
  | base64 => exact only_ofExcept _ _

include h in
theorem only_encryptBlob (dek : Key) (handle : Handle) (plaintext : List UInt8) :
    Only A (encryptBlob E dek handle plaintext).run :=
  only_except_bind (only_call (h ⟨⟨trivial, trivial⟩, trivial, trivial⟩)) fun _ =>
    only_except_bind (only_ofExcept _ _) fun _ =>
      only_except_bind (only_orThrow _ _) fun _ => only_pure _

include h in
theorem only_deriveDekBytes (namespaceId : NamespaceId) :
    Only A (deriveDekBytes E namespaceId).run :=
  only_except_bind (only_withError (only_requireHmacKey h)) fun _ => only_pure _

end Parts

theorem only_check {namespaceId : NamespaceId} (h : A (.query (.getNamespacePolicy namespaceId)))
    (peer : PeerCredentials) : Only A (check namespaceId peer).run := by
  refine only_except_bind (only_call h) fun r => ?_
  match r with
  | .ok (some policy) => exact only_ofExcept _ _
  | .ok none => exact only_pure ()
  | .error e => exact only_throw _

section Reads

variable {handle : Handle} (h : ∀ {β : Type} {op : Op β}, reads handle op → A op)

include h in
theorem only_getSecretByHandle : Only A (getSecretByHandle handle).run := by
  refine only_except_bind (only_attempt (h rfl)) fun row => ?_
  cases row with
  | none => exact only_pure none
  | some row => exact only_except_bind (only_attempt (h trivial)) fun _ => only_pure _

include h in
theorem only_loadSecret : Only A (loadSecret handle).run :=
  only_except_bind (only_getSecretByHandle h) fun _ => only_orThrow _ _

include h in
theorem only_secretVersionCount : Only A (secretVersionCount handle).run := by
  refine only_except_bind (only_withError (only_resultOf (only_getSecretByHandle h))) fun r => ?_
  match r with
  | .ok (some secret) => exact only_pure _
  | .ok none => exact only_pure 0
  | .error e => exact only_pure 0

end Reads

/-! ### Reveal and use-tokens -/


theorem about_attest (cmd : RevealSecretCommand) : Only (about cmd.handle) (cmd.attest E).run := by
  unfold RevealSecretCommand.attest
  split
  · exact only_pure ()
  · split_ifs
    · exact only_pure ()
    · refine only_except_bind (only_attempt ⟨⟨trivial, trivial⟩, trivial⟩) fun _ => ?_
      refine only_except_bind (only_orThrow _ _) fun _ => ?_
      refine only_except_bind (only_orThrow _ _) fun _ => ?_
      exact only_except_bind (only_call ⟨⟨trivial, trivial⟩, trivial⟩) fun _ => only_ofExcept _ _

theorem about_targetDevice (cmd : RevealSecretCommand) : Only (about cmd.handle) cmd.targetDevice.run := by
  unfold RevealSecretCommand.targetDevice
  split
  · exact only_pure _
  · refine only_except_bind (only_call ⟨⟨trivial, trivial⟩, trivial⟩) fun _ => ?_
    exact only_except_bind (only_call ⟨⟨trivial, trivial⟩, trivial⟩) fun _ => only_pure _

theorem about_challenge (cmd : RevealSecretCommand) : Only (about cmd.handle) (cmd.challenge E).run := by
  refine only_except_bind (about_targetDevice cmd) fun device => ?_
  refine only_except_bind (only_call ⟨⟨trivial, trivial⟩, trivial⟩) fun id => ?_
  refine only_except_bind (only_call ⟨⟨trivial, trivial⟩, trivial⟩) fun _ => ?_
  refine only_except_bind (only_call ⟨⟨trivial, trivial⟩, trivial⟩) fun nonce => ?_
  refine only_except_bind (only_call ⟨⟨trivial, trivial⟩, trivial⟩) fun dispatched => ?_
  cases dispatched with
  | error e => exact only_deny inert_about _ _ _ _ _ _
  | ok u =>
    refine only_except_bind (only_call ⟨⟨trivial, trivial⟩, trivial⟩) fun resolution => ?_
    cases resolution with
    | error e => exact only_deny inert_about _ _ _ _ _ _
    | ok resolution =>
      simp only
      split_ifs
      · exact only_deny inert_about _ _ _ _ _ _
      · split
        · exact only_deny inert_about _ _ _ _ _ _
        · exact only_pure ()

theorem about_effectiveConfirmation (cmd : RevealSecretCommand) :
    Only (about cmd.handle) (cmd.effectiveConfirmation E).run := by
  unfold RevealSecretCommand.effectiveConfirmation
  split_ifs
  · exact only_except_bind (about_challenge cmd) fun _ => only_pure _
  · exact only_pure _

theorem about_release (cmd : RevealSecretCommand) : Only (about cmd.handle) (cmd.release E).run := by
  refine only_except_bind (only_loadSecret reads_about) fun _ => ?_
  refine only_except_bind (only_orThrow _ _) fun _ => ?_
  refine only_except_bind (only_ofExcept _ _) fun _ => ?_
  exact only_record inert_about _ (only_pure _)

theorem about_execute {handle : Handle} (cmd : RevealSecretCommand) (hcmd : cmd.handle = handle) :
    Only (about handle) (cmd.execute E).run := by
  subst hcmd
  refine only_except_bind (only_requireUnsealed inert_about) fun _ => ?_
  refine only_except_bind (about_attest cmd) fun _ => ?_
  refine only_except_bind (about_effectiveConfirmation cmd) fun c => ?_
  split
  · exact only_deny inert_about _ _ _ _ _ _
  · exact about_release cmd

theorem about_executeReveal (handle : Handle) (namespaceId : NamespaceId)
    (sensitivity : Sensitivity) (oobChannel : OobChannel) (dekBytes : Key) :
    Only (about handle) (executeReveal E handle namespaceId sensitivity oobChannel dekBytes).run := by
  refine only_except_bind (only_withError (only_attempt ⟨⟨trivial, trivial⟩, trivial⟩)) fun policy => ?_
  simp only
  split_ifs
  · exact only_throw _
  · refine only_except_bind (only_withError (only_attempt ⟨⟨trivial, trivial⟩, trivial⟩)) fun _ => ?_
    refine only_except_bind (only_withError (about_execute _ rfl)) fun _ => ?_
    exact only_except_bind (only_call ⟨⟨trivial, trivial⟩, trivial⟩) fun _ => only_pure _

theorem about_reveal (peer : PeerCredentials) (q : RevealRequest) :
    Only (about q.handle) (Handlers.reveal E peer q).run := by
  unfold Handlers.reveal
  split_ifs
  · exact only_throw _
  · refine only_except_bind (only_withError (only_requireUnsealed inert_about)) fun _ => ?_
    refine only_except_bind (only_withError (only_loadSecret reads_about)) fun _ => ?_
    refine only_except_bind (only_check ⟨⟨trivial, trivial⟩, trivial⟩ _) fun _ => ?_
    refine only_except_bind (only_deriveDekBytes inert_about _) fun _ => ?_
    exact about_executeReveal _ _ _ _ _

theorem about_issueUseToken (q : UseTokenRequest) :
    Only (about q.handle) (issueUseToken E q).run := by
  refine only_except_bind (only_orThrow _ _) fun _ => ?_
  have hsession : Only (about q.handle) (parseSessionId q.sessionId).run := by
    unfold parseSessionId
    split_ifs
    · exact only_pure _
    · exact only_call ⟨⟨trivial, trivial⟩, trivial⟩
  refine only_except_bind hsession fun _ => ?_
  refine only_except_bind (only_withError ?_) fun _ => only_pure _
  refine only_except_bind (only_requireUnsealed inert_about) fun _ => ?_
  refine only_except_bind (only_loadSecret reads_about) fun _ => ?_
  refine only_except_bind (only_call ⟨⟨trivial, trivial⟩, trivial⟩) fun _ => ?_
  refine only_except_bind (only_call ⟨⟨trivial, trivial⟩, trivial⟩) fun _ => ?_
  refine only_except_bind (only_attempt ⟨⟨trivial, trivial⟩, trivial⟩) fun _ => ?_
  refine only_record inert_about _ ?_
  exact only_except_bind (only_call ⟨⟨trivial, trivial⟩, trivial⟩) fun _ => only_pure _

/-! ### Materialization and HTTP -/

theorem about_openSecret (cmd : MaterializeCommand) :
    Only (about cmd.handle) (openSecret E cmd).run := by
  refine only_except_bind (only_requireUnsealed inert_about) fun _ => ?_
  refine only_except_bind (only_attempt ⟨⟨trivial, trivial⟩, trivial⟩) fun _ => ?_
  refine only_except_bind (only_loadSecret reads_about) fun _ => ?_
  refine only_except_bind (only_orThrow _ _) fun _ => ?_
  exact only_except_bind (only_ofExcept _ _) fun _ => only_pure _

theorem uses_port {β : Type} (p : Port β) {handle : Handle} : uses handle (.port p) :=
  ⟨trivial, trivial⟩

theorem only_orCleanUp {α : Type} {path : String} {x : Handler α}
    (h : A (.port (.removeFile path))) (hx : Only A x.run) : Only A (orCleanUp path x).run := by
  refine only_except_bind (only_resultOf hx) fun r => ?_
  cases r with
  | ok a => exact only_pure a
  | error e => exact only_except_bind (only_call h) fun _ => only_throw e

theorem about_recordMaterialization (cmd : MaterializeCommand) (secret : Secret) (path : String) :
    Only (about cmd.handle) (recordMaterialization cmd secret path).run :=
  only_except_bind (only_orCleanUp ⟨⟨trivial, trivial⟩, trivial⟩ (only_requireHmacKey inert_about))
    fun key => only_orCleanUp ⟨⟨trivial, trivial⟩, trivial⟩ (only_auditCommit inert_about _ key)

theorem uses_writeTempfile (cmd : MaterializeCommand) :
    Only (uses cmd.handle) (App.UseCommands.writeTempfile E cmd).run := by
  refine only_except_bind ((about_openSecret cmd).mono about_uses) fun opened => ?_
  refine only_except_bind (only_call (uses_port _)) fun _ => ?_
  refine only_except_bind (only_call (uses_port _)) fun _ => ?_
  refine only_except_bind (only_attempt (uses_port _)) fun _ => ?_
  refine only_except_bind (only_orCleanUp (uses_port _) (only_attempt (uses_port _))) fun _ => ?_
  refine only_except_bind (only_orCleanUp (uses_port _) (only_attempt (uses_port _))) fun _ => ?_
  refine only_except_bind ((about_recordMaterialization _ _ _).mono about_uses) fun _ => ?_
  refine only_except_bind (only_orCleanUp (uses_port _) (only_attempt (uses_port _))) fun _ => ?_
  exact only_except_bind (only_call (uses_port _)) fun _ => only_pure _

theorem uses_writeFifo (cmd : MaterializeCommand) :
    Only (uses cmd.handle) (App.UseCommands.writeFifo E cmd).run := by
  refine only_except_bind ((about_openSecret cmd).mono about_uses) fun opened => ?_
  refine only_except_bind (only_call (uses_port _)) fun _ => ?_
  refine only_except_bind (only_call (uses_port _)) fun _ => ?_
  refine only_except_bind (only_attempt (uses_port _)) fun _ => ?_
  refine only_except_bind ((about_recordMaterialization _ _ _).mono about_uses) fun _ => ?_
  refine only_except_bind (only_orCleanUp (uses_port _) (only_attempt (uses_port _))) fun _ => ?_
  refine only_except_bind (only_call (uses_port _)) fun _ => ?_
  exact only_except_bind (only_call (uses_port _)) fun _ => only_pure _

theorem uses_materialize {execute : MaterializeCommand → Handler Reply}
    (h : ∀ cmd, Only (uses cmd.handle) (execute cmd).run) (q : MaterializeRequest) :
    Only (uses q.handle) (materialize E execute q).run := by
  have hexecute : ∀ cmd, cmd.handle = q.handle → Only (uses q.handle) (execute cmd).run := by
    intro cmd hcmd
    rw [← hcmd]
    exact h cmd
  refine only_except_bind (only_orThrow _ _) fun _ => ?_
  refine only_except_bind (only_deriveDekBytes inert_uses _) fun _ => ?_
  exact only_except_bind (only_withError (hexecute _ rfl)) fun _ => only_pure _

theorem uses_secretPlaintext (namespaceId : NamespaceId) (handle : Handle) :
    Only (uses handle) (secretPlaintext E namespaceId (some handle)).run := by
  refine only_except_bind (only_deriveDekBytes inert_uses _) fun dek => ?_
  refine only_except_bind ?_ fun _ => only_pure _
  refine only_except_bind (only_withError (only_getSecretByHandle reads_uses)) fun _ => ?_
  refine only_except_bind (only_orThrow _ _) fun _ => ?_
  exact only_except_bind (only_orThrow _ _) fun _ => only_ofExcept _ _

/-- Neither a write nor a read. -/
def outward {β : Type} (op : Op β) : Prop := quiet op ∧ blind op

theorem inert_outward {β : Type} {op : Op β} (h : inert op) : outward op := ⟨h.1.1, h.2.1⟩

theorem outward_uses {β : Type} {op : Op β} {handle : Handle} (h : outward op) : uses handle op :=
  ⟨h.1, blind_looksUp h.2⟩

theorem outward_recordRequest (op : AuditOp) (namespaceId : NamespaceId) :
    Only outward (recordRequest op namespaceId).run :=
  only_except_bind (only_requireHmacKey inert_outward) fun key =>
    only_auditCommit inert_outward _ key

theorem outward_httpRequest (cmd : HttpRequestCommand) : Only outward cmd.execute.run := by
  refine only_except_bind (only_requireUnsealed inert_outward) fun _ => ?_
  refine only_except_bind (only_attempt ⟨trivial, trivial⟩) fun _ => ?_
  exact only_except_bind (outward_recordRequest _ _) fun _ => only_pure _

theorem outward_httpDownload (cmd : HttpDownloadCommand) : Only outward cmd.execute.run := by
  refine only_except_bind (only_requireUnsealed inert_outward) fun _ => ?_
  refine only_except_bind (only_attempt ⟨trivial, trivial⟩) fun _ => ?_
  refine only_except_bind (only_attempt ⟨trivial, trivial⟩) fun _ => ?_
  exact only_except_bind (outward_recordRequest _ _) fun _ => only_pure _

theorem outward_httpUpload (cmd : HttpUploadCommand) : Only outward cmd.execute.run := by
  refine only_except_bind (only_requireUnsealed inert_outward) fun _ => ?_
  refine only_except_bind (only_attempt ⟨trivial, trivial⟩) fun _ => ?_
  refine only_except_bind (only_attempt ⟨trivial, trivial⟩) fun _ => ?_
  exact only_except_bind (outward_recordRequest _ _) fun _ => only_pure _

/-- The HTTP handlers, for the command of each. -/
def proxied (E : Env) (namespaceId : Uuid) (secretHandle : Option Handle)
    (execute : NamespaceId → Option (List UInt8) → Handler Reply) : SocketHandler Response := do
  let namespaceId ← parseBodyNamespace proxyNamespaceDetail namespaceId
  let plaintext ← secretPlaintext E namespaceId secretHandle
  let reply ← runApp (execute namespaceId plaintext)
  return ⟨reply, none, none, none⟩

section Proxied

variable {namespaceId : Uuid} {execute : NamespaceId → Option (List UInt8) → Handler Reply}
  (h : ∀ ns plaintext, Only outward (execute ns plaintext).run)

include h

theorem uses_proxied (handle : Handle) :
    Only (uses handle) (proxied E namespaceId (some handle) execute).run := by
  refine only_except_bind (only_orThrow _ _) fun _ => ?_
  refine only_except_bind (uses_secretPlaintext _ _) fun _ => ?_
  exact only_except_bind (only_withError ((h _ _).mono outward_uses)) fun _ => only_pure _

theorem outward_proxied : Only outward (proxied E namespaceId none execute).run := by
  refine only_except_bind (only_orThrow _ _) fun _ => ?_
  refine only_except_bind (only_pure none) fun _ => ?_
  exact only_except_bind (only_withError (h _ _)) fun _ => only_pure _

theorem quiet_proxied (handle : Option Handle) :
    Only quiet (proxied E namespaceId handle execute).run := by
  cases handle with
  | none => exact (outward_proxied h).mono And.left
  | some handle => exact (uses_proxied h handle).mono And.left

end Proxied

/-! ### The handlers that change secrets -/

theorem silent_putCommand (cmd : PutSecretCommand) : Only silent (cmd.execute E).run := by
  refine only_except_bind (only_requireUnsealed inert_silent) fun _ => ?_
  refine only_except_bind (only_decodePayload _ _) fun _ => ?_
  refine only_except_bind (only_encryptBlob inert_silent _ _ _) fun _ => ?_
  refine only_except_bind (only_call trivial) fun _ => ?_
  refine only_except_bind (only_call trivial) fun _ => ?_
  refine only_except_bind (only_call trivial) fun _ => ?_
  refine only_except_bind (only_call trivial) fun _ => ?_
  refine only_except_bind (only_call trivial) fun _ => ?_
  refine only_except_bind (only_ofExcept _ _) fun _ => ?_
  refine only_except_bind (only_attempt trivial) fun _ => ?_
  exact only_record inert_silent _ (only_pure _)

theorem silent_rotateCommand (cmd : RotateSecretCommand) : Only silent (cmd.execute E).run := by
  refine only_except_bind (only_requireUnsealed inert_silent) fun _ => ?_
  refine only_except_bind (only_loadSecret reads_silent) fun _ => ?_
  refine only_except_bind (only_decodePayload _ _) fun _ => ?_
  refine only_except_bind (only_encryptBlob inert_silent _ _ _) fun _ => ?_
  refine only_except_bind (only_call trivial) fun _ => ?_
  refine only_except_bind (only_call trivial) fun _ => ?_
  refine only_except_bind (only_call trivial) fun _ => ?_
  refine only_except_bind (only_ofExcept _ _) fun _ => ?_
  refine only_except_bind (only_attempt trivial) fun _ => ?_
  exact only_record inert_silent _ (only_pure _)

theorem silent_rollbackCommand (cmd : RollbackSecretCommand) : Only silent cmd.execute.run := by
  refine only_except_bind (only_requireUnsealed inert_silent) fun _ => ?_
  refine only_except_bind (only_loadSecret reads_silent) fun _ => ?_
  split_ifs
  · exact only_deny inert_silent _ _ _ _ _ _
  · refine only_except_bind (only_call trivial) fun _ => ?_
    refine only_except_bind (only_call trivial) fun _ => ?_
    refine only_except_bind (only_ofExcept _ _) fun _ => ?_
    refine only_except_bind (only_attempt trivial) fun _ => ?_
    exact only_record inert_silent _ (only_pure _)

theorem silent_deleteCommand (cmd : DeleteSecretCommand) : Only silent cmd.execute.run := by
  refine only_except_bind (only_requireUnsealed inert_silent) fun _ => ?_
  refine only_except_bind (only_loadSecret reads_silent) fun _ => ?_
  split_ifs
  · exact only_deny inert_silent _ _ _ _ _ _
  · refine only_except_bind (only_attempt trivial) fun _ => ?_
    exact only_record inert_silent _ (only_pure _)

theorem only_requireSlash (slashCommand : Bool) (operation command purpose : String) :
    Only A (requireSlash slashCommand operation command purpose).run := by
  unfold requireSlash
  split_ifs
  · exact only_pure ()
  · exact only_throw _

/-- The requests that change secrets. -/
def changes : Request → Prop
  | .put _ | .rotate _ | .rollback _ | .delete _ => True
  | _ => False

/-- **Requests that change secrets export nothing.** -/
theorem silent_serve {peer : PeerCredentials} {q : Request} (h : changes q) :
    Only silent (q.serve E peer).run := by
  cases q with
  | put q =>
    refine only_except_bind (only_orThrow _ _) fun _ => ?_
    refine only_except_bind (only_check trivial _) fun _ => ?_
    refine only_except_bind (only_orThrow _ _) fun _ => ?_
    refine only_except_bind (only_withError (only_attempt trivial)) fun _ => ?_
    refine only_except_bind (only_orThrow _ _) fun _ => ?_
    refine only_except_bind (only_orThrow _ _) fun _ => ?_
    refine only_except_bind (only_deriveDekBytes inert_silent _) fun _ => ?_
    refine only_except_bind (only_withError (silent_putCommand _)) fun _ => ?_
    exact only_except_bind (only_call trivial) fun _ => only_pure _
  | rotate q =>
    refine only_except_bind (only_orThrow _ _) fun _ => ?_
    refine only_except_bind (only_check trivial _) fun _ => ?_
    refine only_except_bind (only_ofExcept _ _) fun _ => ?_
    refine only_except_bind (only_deriveDekBytes inert_silent _) fun _ => ?_
    refine only_except_bind (only_withError (silent_rotateCommand _)) fun _ => ?_
    refine only_except_bind (only_secretVersionCount reads_silent) fun _ => ?_
    exact only_except_bind (only_call trivial) fun _ => only_pure _
  | rollback q =>
    refine only_except_bind (only_orThrow _ _) fun _ => ?_
    refine only_except_bind (only_check trivial _) fun _ => ?_
    refine only_except_bind (only_ofExcept _ _) fun _ => ?_
    refine only_except_bind (only_requireSlash _ _ _ _) fun _ => ?_
    refine only_except_bind (only_withError (silent_rollbackCommand _)) fun _ => ?_
    exact only_except_bind (only_call trivial) fun _ => only_pure _
  | delete q =>
    refine only_except_bind (only_orThrow _ _) fun _ => ?_
    refine only_except_bind (only_check trivial _) fun _ => ?_
    refine only_except_bind (only_ofExcept _ _) fun _ => ?_
    refine only_except_bind (only_requireSlash _ _ _ _) fun _ => ?_
    refine only_except_bind (only_secretVersionCount reads_silent) fun _ => ?_
    exact only_except_bind (only_withError (silent_deleteCommand _)) fun _ => only_pure _
  | _ => exact h.elim

/-- **The other requests leave the vault as it is.** -/
theorem quiet_serve {peer : PeerCredentials} {q : Request} (h : ¬changes q) :
    Only quiet (q.serve E peer).run := by
  cases q with
  | put q => exact absurd trivial h
  | rotate q => exact absurd trivial h
  | rollback q => exact absurd trivial h
  | delete q => exact absurd trivial h
  | reveal q => exact (about_reveal peer q).mono about_quiet
  | issueUseToken q => exact (about_issueUseToken q).mono about_quiet
  | writeTempfile q => exact (uses_materialize uses_writeTempfile q).mono And.left
  | writeFifo q => exact (uses_materialize uses_writeFifo q).mono And.left
  | httpRequest q => exact quiet_proxied (fun _ _ => outward_httpRequest _) q.secretHandle
  | httpDownload q => exact quiet_proxied (fun _ _ => outward_httpDownload _) q.secretHandle
  | httpUpload q => exact quiet_proxied (fun _ _ => outward_httpUpload _) q.secretHandle

end MerkleVault.Socket.Actions
