import MerkleVault.Lib.Gate
import MerkleVault.Policy.Reveals
import MerkleVault.Socket.Actions

/-! # Requests and the Seal

Every request over the socket asks whether the vault is unsealed before it does more than read tables
and the audit key.  Other clients seal the vault and unseal it meanwhile.

* `OpenBefore`: the seal was open in the run of a request, where the package passes its operation;
* `seal_respected`: no request acts before that, and none answers. -/

namespace MerkleVault.Policy.Seal

open MerkleVault.Types MerkleVault.Lib.Program MerkleVault.Lib.Gate MerkleVault.Identity
open MerkleVault.App.Context MerkleVault.App.SecretCommands MerkleVault.App.UseCommands
open MerkleVault.App.Reveal MerkleVault.App.IdentitySections MerkleVault.Socket.Gate
open MerkleVault.Socket.Handlers MerkleVault.Socket.Proxy
open MerkleVault.Socket.Actions (reads only_check only_getSecretByHandle only_secretVersionCount)
open MerkleVault.Policy.Agreement (stateName)
open MerkleVault.Policy.Reveals

/-! ### Before the seal is seen open -/

/-- Actions that change nothing of the vault and hand nothing out: readings of tables, of the audit key
and of the seal, and fresh identifiers. -/
def passive {β : Type} : Op β → Prop
  | .query _ => True
  | .readHmacKey => True
  | .identity .isUnsealed => True
  | .newUuid => True
  | _ => False

/-- The check that finds the vault unsealed. -/
def opens (e : Event Op) : Prop := e = ⟨.identity .isUnsealed, true⟩

variable {E : Env} {h : List (Event Op)}

theorem passive_of_reads {handle : Handle} {β : Type} {op : Op β} (hop : reads handle op) : passive op := by
  cases op with
  | query q => trivial
  | _ => exact hop.elim

theorem passive_deriveDekBytes (namespaceId : NamespaceId) :
    Only passive (deriveDekBytes E namespaceId).run := by
  have hkey : Only passive requireHmacKey.run :=
    only_except_bind (only_call trivial) fun _ => only_orThrow _ _
  exact only_except_bind (only_withError hkey) fun _ => only_pure _

theorem passive_check (namespaceId : NamespaceId) (peer : PeerCredentials) :
    Only passive (check namespaceId peer).run :=
  only_check trivial peer

theorem passive_secretPlaintext (namespaceId : NamespaceId) (handle : Option Handle) :
    Only passive (secretPlaintext E namespaceId handle).run := by
  cases handle with
  | none => exact only_pure none
  | some handle =>
    refine only_except_bind (passive_deriveDekBytes namespaceId) fun dek => ?_
    refine only_except_bind ?_ fun _ => only_pure _
    refine only_except_bind (only_withError (only_getSecretByHandle passive_of_reads)) fun _ => ?_
    refine only_except_bind (only_orThrow _ _) fun _ => ?_
    exact only_except_bind (only_orThrow _ _) fun _ => only_ofExcept _ _

/-! ### Commands -/

theorem requireUnsealed_behind : Behind opens passive requireUnsealed.run h := by
  have hasked : passive (.identity .isUnsealed : Op Bool) := trivial
  have hopened : opens ⟨.identity .isUnsealed, true⟩ := rfl
  exact behind_ask hasked hopened _

theorem put_behind (cmd : PutSecretCommand) : Behind opens passive (cmd.execute E).run h :=
  behind_bind requireUnsealed_behind

theorem rotate_behind (cmd : RotateSecretCommand) : Behind opens passive (cmd.execute E).run h :=
  behind_bind requireUnsealed_behind

theorem rollback_behind (cmd : RollbackSecretCommand) : Behind opens passive cmd.execute.run h :=
  behind_bind requireUnsealed_behind

theorem delete_behind (cmd : DeleteSecretCommand) : Behind opens passive cmd.execute.run h :=
  behind_bind requireUnsealed_behind

theorem useToken_behind (cmd : UseTokenCommand) : Behind opens passive (cmd.execute E).run h :=
  behind_bind requireUnsealed_behind

theorem openSecret_behind (cmd : MaterializeCommand) : Behind opens passive (openSecret E cmd).run h :=
  behind_bind requireUnsealed_behind

theorem httpRequest_behind (cmd : HttpRequestCommand) : Behind opens passive cmd.execute.run h :=
  behind_bind requireUnsealed_behind

theorem httpDownload_behind (cmd : HttpDownloadCommand) : Behind opens passive cmd.execute.run h :=
  behind_bind requireUnsealed_behind

theorem httpUpload_behind (cmd : HttpUploadCommand) : Behind opens passive cmd.execute.run h :=
  behind_bind requireUnsealed_behind

/-! ### Handlers -/

theorem materialize_behind {execute : MaterializeCommand → Handler Reply} (q : MaterializeRequest)
    (hexecute : ∀ cmd h, Behind opens passive (execute cmd).run h) :
    Behind opens passive (materialize E execute q).run h := by
  refine behind_passive_bind (only_orThrow _ _) fun h₁ namespaceId => ?_
  refine behind_passive_bind (passive_deriveDekBytes namespaceId) fun h₂ dekBytes => ?_
  exact behind_bind (behind_withError (hexecute _ _))

theorem issueUseToken_behind (q : UseTokenRequest) :
    Behind opens passive (issueUseToken E q).run h := by
  have hsession : Only passive (parseSessionId q.sessionId).run := by
    unfold parseSessionId
    split_ifs
    · exact only_pure _
    · exact only_call trivial
  refine behind_passive_bind (only_orThrow _ _) fun h₁ namespaceId => ?_
  refine behind_passive_bind hsession fun h₂ sessionId => ?_
  exact behind_bind (behind_withError (useToken_behind _))

theorem passive_requireSlash (slashCommand : Bool) (operation command purpose : String) :
    Only passive (requireSlash slashCommand operation command purpose).run := by
  unfold requireSlash
  split_ifs
  · exact only_pure ()
  · exact only_throw _

theorem putSecret_behind (peer : PeerCredentials) (q : PutSecretRequest) :
    Behind opens passive (putSecret E peer q).run h := by
  refine behind_passive_bind (only_orThrow _ _) fun h₁ namespaceId => ?_
  refine behind_passive_bind (passive_check namespaceId peer) fun h₂ _ => ?_
  refine behind_passive_bind (only_orThrow _ _) fun h₃ category => ?_
  refine behind_passive_bind (only_withError (only_attempt trivial)) fun h₄ found => ?_
  refine behind_passive_bind (only_orThrow _ _) fun h₅ ns => ?_
  refine behind_passive_bind (only_orThrow _ _) fun h₆ secretName => ?_
  refine behind_passive_bind (passive_deriveDekBytes namespaceId) fun h₇ dekBytes => ?_
  exact behind_bind (behind_withError (put_behind _))

theorem rotateSecret_behind (peer : PeerCredentials) (q : RotateSecretRequest) :
    Behind opens passive (rotateSecret E peer q).run h := by
  refine behind_passive_bind (only_orThrow _ _) fun h₁ namespaceId => ?_
  refine behind_passive_bind (passive_check namespaceId peer) fun h₂ _ => ?_
  refine behind_passive_bind (only_ofExcept _ _) fun h₃ handle => ?_
  refine behind_passive_bind (passive_deriveDekBytes namespaceId) fun h₄ dekBytes => ?_
  exact behind_bind (behind_withError (rotate_behind _))

theorem rollbackSecret_behind (peer : PeerCredentials) (q : RollbackSecretRequest) :
    Behind opens passive (rollbackSecret peer q).run h := by
  refine behind_passive_bind (only_orThrow _ _) fun h₁ namespaceId => ?_
  refine behind_passive_bind (passive_check namespaceId peer) fun h₂ _ => ?_
  refine behind_passive_bind (only_ofExcept _ _) fun h₃ handle => ?_
  refine behind_passive_bind (passive_requireSlash _ _ _ _) fun h₄ _ => ?_
  exact behind_bind (behind_withError (rollback_behind _))

theorem deleteSecret_behind (peer : PeerCredentials) (q : DeleteSecretRequest) :
    Behind opens passive (deleteSecret peer q).run h := by
  refine behind_passive_bind (only_orThrow _ _) fun h₁ namespaceId => ?_
  refine behind_passive_bind (passive_check namespaceId peer) fun h₂ _ => ?_
  refine behind_passive_bind (only_ofExcept _ _) fun h₃ handle => ?_
  refine behind_passive_bind (passive_requireSlash _ _ _ _) fun h₄ _ => ?_
  refine behind_passive_bind (only_secretVersionCount passive_of_reads) fun h₅ versions => ?_
  exact behind_bind (behind_withError (delete_behind _))

/-- A reveal asks before it looks up its secret. -/
theorem reveal_behind (peer : PeerCredentials) (q : RevealRequest) :
    Behind opens passive (Socket.Handlers.reveal E peer q).run h := by
  unfold Socket.Handlers.reveal
  split_ifs
  · exact behind_throw _
  · exact behind_bind (behind_withError requireUnsealed_behind)

theorem httpRequest_handler_behind (q : ProxyHttpRequestRequest) :
    Behind opens passive (Socket.Proxy.httpRequest E q).run h := by
  refine behind_passive_bind (only_orThrow _ _) fun h₁ namespaceId => ?_
  refine behind_passive_bind (passive_secretPlaintext namespaceId _) fun h₂ plaintext => ?_
  exact behind_bind (behind_withError (httpRequest_behind _))

theorem httpDownload_handler_behind (q : ProxyHttpDownloadRequest) :
    Behind opens passive (Socket.Proxy.httpDownload E q).run h := by
  refine behind_passive_bind (only_orThrow _ _) fun h₁ namespaceId => ?_
  refine behind_passive_bind (passive_secretPlaintext namespaceId _) fun h₂ plaintext => ?_
  exact behind_bind (behind_withError (httpDownload_behind _))

theorem httpUpload_handler_behind (q : ProxyHttpUploadRequest) :
    Behind opens passive (Socket.Proxy.httpUpload E q).run h := by
  refine behind_passive_bind (only_orThrow _ _) fun h₁ namespaceId => ?_
  refine behind_passive_bind (passive_secretPlaintext namespaceId _) fun h₂ plaintext => ?_
  exact behind_bind (behind_withError (httpUpload_behind _))

/-- **Every request is behind the seal.** -/
theorem serve_behind (peer : PeerCredentials) (q : Request) :
    Behind opens passive (q.serve E peer).run h := by
  cases q with
  | put q => exact putSecret_behind peer q
  | rotate q => exact rotateSecret_behind peer q
  | rollback q => exact rollbackSecret_behind peer q
  | delete q => exact deleteSecret_behind peer q
  | reveal q => exact reveal_behind peer q
  | issueUseToken q => exact issueUseToken_behind q
  | writeTempfile q => exact materialize_behind q fun cmd _ => behind_bind (openSecret_behind cmd)
  | writeFifo q => exact materialize_behind q fun cmd _ => behind_bind (openSecret_behind cmd)
  | httpRequest q => exact httpRequest_handler_behind q
  | httpDownload q => exact httpDownload_handler_behind q
  | httpUpload q => exact httpUpload_handler_behind q

/-! ### Runs -/

/-- The operation that a request is recorded under. -/
def operation : Request → AuditOp
  | .put _ => .put
  | .rotate _ => .rotate
  | .rollback _ => .rotate
  | .delete _ => .delete
  | .reveal _ => .reveal
  | .issueUseToken _ => .use
  | .writeTempfile _ => .writeTempfile
  | .writeFifo _ => .writeTempfile
  | .httpRequest _ => .httpRequest
  | .httpDownload _ => .httpDownload
  | .httpUpload _ => .httpUpload

/-- In the run up to here there was a configuration where the package about the seal passed the
operation, and the program was at most as far as this history. -/
def OpenBefore (E : Env) (s₀ : AppState) (c : Config AppState Op (Except Problem Response))
    (source : Prog Op (Except Problem Response)) (op : AuditOp) (h : List (Event Op)) : Prop :=
  ∃ c₁, Reachable (socketSystem E) unguarded s₀ c₁ ∧
    Relation.ReflTransGen (Step (socketSystem E) unguarded) c₁ c ∧
    (∃ t₁ ∈ c₁.tasks, t₁.source = source ∧ t₁.hist <+: h) ∧
    Passes Rego.unsealRequired ⟨stateName c₁.state.identity.state, op.display⟩

theorem openBefore_of_opened {s₀ : AppState} {c : Config AppState Op (Except Problem Response)}
    (hc : Reachable (socketSystem E) unguarded s₀ c) {t : Task Op (Except Problem Response)}
    (ht : t ∈ c.tasks) (op : AuditOp) {h rest : List (Event Op)} (hhist : t.hist = h ++ rest)
    (ho : Opened opens h) : OpenBefore E s₀ c t.source op h := by
  obtain ⟨e, he, rfl⟩ := ho
  obtain ⟨pre, post, rfl⟩ := List.append_of_mem he
  rw [List.append_assoc, List.cons_append] at hhist
  obtain ⟨c₁, s', hc₁, hsteps, hx, t₁, ht₁, hsource, hpre⟩ :=
    happened_of_reachable hc t ht _ _ _ hhist
  have hopen : true = c₁.state.identity.isUnsealed := congrArg Prod.fst hx
  have hstate : c₁.state.identity.state = .unsealed := of_decide_eq_true hopen.symm
  refine ⟨c₁, hc₁, hsteps, ⟨t₁, ht₁, hsource, hpre ▸ List.prefix_append _ _⟩,
    .of_allow (Rego.unsealRequired_consistent _) ?_⟩
  rw [hstate]
  simp [Rego.unsealRequired, stateName]

/-- **The seal is respected**, whatever other clients do: before a request takes any action but a
passive one, and before it answers, the package about the seal passed its operation in a
configuration of its own run. -/
theorem seal_respected {s₀ : AppState} {c : Config AppState Op (Except Problem Response)}
    (hc : Reachable (socketSystem E) unguarded s₀ c) {t : Task Op (Except Problem Response)}
    (ht : t ∈ c.tasks) (peer : PeerCredentials) (q : Request)
    (hsource : t.source = (q.serve E peer).run) :
    (∀ pre e post, t.hist = pre ++ e :: post → ¬passive e.op →
      OpenBefore E s₀ c t.source (operation q) pre) ∧
    ∀ response, t.prog = .ret (.ok response) → OpenBefore E s₀ c t.source (operation q) t.hist := by
  obtain ⟨hguarded, hopened⟩ := guarded_of_reachable hc ht
    (hsource ▸ serve_behind peer q)
  constructor
  · intro pre e post heq hactive
    have hopen := (hguarded pre e post heq).resolve_left hactive
    exact openBefore_of_opened hc ht _ heq hopen
  · intro response hend
    exact openBefore_of_opened hc ht _ (List.append_nil _).symm (hopened response hend)

/-- A reveal that answered. -/
theorem answered_reveal_open : ∃ (c : Config AppState Op (Except Problem Response))
    (t : Task Op (Except Problem Response)) (response : Response),
    Reachable (socketSystem sampleEnv) unguarded revealVault c ∧ t ∈ c.tasks ∧
    t.prog = .ret (.ok response) ∧
    OpenBefore sampleEnv revealVault c t.source .reveal t.hist := by
  obtain ⟨c, t, response, hc, ht, hsource, hend⟩ := sample_reveal_run
  exact ⟨c, t, response, hc, ht, hend,
    (seal_respected hc ht ⟨none⟩ (.reveal ⟨sampleHandle, true, none⟩) hsource).2 response hend⟩

end MerkleVault.Policy.Seal
