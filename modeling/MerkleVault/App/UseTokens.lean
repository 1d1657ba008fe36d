import MerkleVault.App.AuditCoverage
import MerkleVault.App.Host
import MerkleVault.App.Reveal
import MerkleVault.App.UseCommands

/-! # Single-Use Tokens

A use-token is drawn at random, its `Use` entry is committed, and only then does it enter the registry
that `write_tempfile` and `write_fifo` consume from.  Closing a session empties the registry.  Here the
three run in any order, beside programs of any other kind, and the draws, registrations and
consumptions are written down as they happen.

* `tokens_single_use`: a token is consumed at most once, for its handle, before it expires, and after
  its entry was committed; an attempt that is refused changes nothing. -/

namespace MerkleVault.App.UseTokens

open MerkleVault.Types MerkleVault.External MerkleVault.Lib.Program MerkleVault.Audit.Entry
open MerkleVault.Audit.Writer MerkleVault.Secrets.Aggregate MerkleVault.Sqlite.Tables
open MerkleVault.App.Context MerkleVault.App.SecretCommands MerkleVault.App.AuditCoverage
open MerkleVault.Audit.Integrity MerkleVault.App.UseCommands MerkleVault.App.Host
open MerkleVault.App.AuditDurability MerkleVault.App.IdentitySections MerkleVault.App.Reveal

/-! ### The clients -/

/-- `close_session`: every token goes, whichever session it was issued to. -/
def closeSession : NodeHandler NodeReply := do
  return .sessionClosed (← vaultCall .revokeUseTokens)

/-- Actions of the context that put no token into the registry. -/
def unissuing {β : Type} : Op β → Prop
  | .registerUseToken _ _ => False
  | _ => True

/-- An action that issues no token. -/
def unissuingNode {β : Type} : NodeOp β → Prop
  | .app op => unissuing op
  | .vault _ => True

/-- The programs that run in any order. -/
inductive TokenClient (E : Env) : Prog NodeOp (Except NodeError NodeReply) → Prop
  | issue (cmd : UseTokenCommand) : TokenClient E (inReply (cmd.execute E)).run
  | tempfile (cmd : MaterializeCommand) : TokenClient E (inReply (writeTempfile E cmd)).run
  | fifo (cmd : MaterializeCommand) : TokenClient E (inReply (writeFifo E cmd)).run
  | close : TokenClient E closeSession.run
  /-- Whatever else the agent runs. -/
  | other (p : Prog NodeOp (Except NodeError NodeReply)) (h : Only unissuingNode p) : TokenClient E p

/-! ### What is written down -/

/-- What happens to tokens. -/
inductive TokenEvent
  | drawn (bytes : Key)
  | registered (key : String) (token : UseToken)
  | consumed (key : String)
deriving DecidableEq

/-- The event of an action of the application. -/
def appTokenEvent {β : Type} : Op β → β → Option TokenEvent
  | .port .randomBytes32, bytes => some (.drawn bytes)
  | .registerUseToken key token, _ => some (.registered key token)
  | .consumeUseToken key _, r => if r.isOk then some (.consumed key) else none
  | _, _ => none

/-- The event of an action. -/
def tokenEvent {β : Type} : NodeOp β → β → Option TokenEvent
  | .app op, r => appTokenEvent op r
  | .vault _, _ => none

/-- The agent, with its tokens watched. -/
def tokenSystem (W : World) : System (Node × List TokenEvent) NodeOp (Except NodeError NodeReply) :=
  (nodeSystem W (TokenClient W.toEnv) fun n n' => n' = n.rebooted).observed tokenEvent

/-- Random bytes are drawn once. -/
def freshDraws : Guard (Node × List TokenEvent) NodeOp := fun _ s e =>
  ∀ bytes, tokenEvent e.op e.res = some (.drawn bytes) → .drawn bytes ∉ s.2

/-! ### What a program did for a token -/

/-- The bytes drawn last, the entry committed since, and the tokens registered with their entry. -/
structure Progress where
  drawn : Option Key
  recorded : Option AppendParams
  issued : List (String × UseToken × AppendParams)

/-- What an action tells an issuance. -/
def Progress.next (m : Progress) {β : Type} : Op β → β → Progress
  | .port .randomBytes32, bytes => { m with drawn := some bytes, recorded := none }
  | .auditCommit params _, r => if r.isOk then { m with recorded := some params } else m
  | .registerUseToken key token, _ =>
    { m with drawn := none, issued := m.issued ++ (m.recorded.map fun p => (key, token, p)).toList }
  | _, _ => m

/-- The entry records the issue of the token. -/
structure IssueEntry (params : AppendParams) (handle : Handle) : Prop where
  op : params.op = .use
  outcome : params.outcome = .allow
  handle : params.handle = some handle

/-- The text of a token. -/
def tokenText (E : Env) (bytes : Key) : String := E.base64UrlEncode bytes.toList

/-- The program may register the token: it drew its text and committed its entry. -/
def MayRegister (E : Env) (m : Progress) (key : String) (token : UseToken) : Prop :=
  ∃ bytes params, m.drawn = some bytes ∧ key = tokenText E bytes ∧ m.recorded = some params ∧
    IssueEntry params token.handle ∧ token.consumed = false

/-- What an issuance may do. -/
def MayAct (E : Env) (m : Progress) {β : Type} : Op β → Prop
  | .registerUseToken key token => MayRegister E m key token
  | _ => True

/-- What an issuance may do on the host. -/
def MayActNode (E : Env) (m : Progress) {β : Type} : NodeOp β → Prop
  | .app op => MayAct E m op
  | .vault _ => True

/-- What an action on the host tells an issuance. -/
def Progress.nextNode (m : Progress) {β : Type} : NodeOp β → β → Progress
  | .app op, r => m.next op r
  | .vault _, _ => m

/-- The rules of one issuance: drawn, recorded, registered. -/
def issuance (E : Env) : Monitor NodeOp Progress where
  init := ⟨none, none, []⟩
  allowed m op := MayActNode E m op
  expects _ _ _ := True
  next m op r := m.nextNode op r

section Conformance

variable {E : Env}

theorem mayAct_of_unissuing {β : Type} {op : NodeOp β} (h : unissuingNode op) (m : Progress) :
    MayActNode E m op := by
  cases op with
  | vault op => trivial
  | app op =>
    cases op with
    | registerUseToken key token => exact h.elim
    | _ => trivial

/-- The rules for the actions of the context. -/
abbrev issuing (E : Env) : Rules Op Progress := (issuance E).rules.pull NodeOp.app

theorem idle_issuing {β : Type} {op : Op β} (hu : unissuing op)
    (hn : ∀ (m : Progress) r, m.next op r = m) : Idle (issuing E) op := by
  have hnode : unissuingNode (NodeOp.app op) := hu
  refine fun m => ⟨mayAct_of_unissuing hnode m, ?_⟩
  rintro r m' ⟨-, rfl⟩
  exact hn m r

theorem still_requireUnsealed : Still (issuing E) requireUnsealed := by
  refine still_bind (still_call (idle_issuing trivial fun _ _ => rfl)) fun b => ?_
  cases b with
  | true => exact still_pure ()
  | false => exact still_throw _

theorem still_loadSecret (handle : Handle) : Still (issuing E) (loadSecret handle) := by
  have hquery : ∀ {β : Type} (q : Query β), Still (issuing E) (query q) := fun q =>
    still_attempt (idle_issuing trivial fun _ _ => rfl)
  refine still_bind (still_bind (hquery _) fun row => ?_) fun secret => still_orThrow _ _
  cases row with
  | none => exact still_pure _
  | some row => exact still_bind (hquery _) fun _ => still_pure _

theorem still_requireHmacKey : Still (issuing E) requireHmacKey :=
  still_bind (still_call (idle_issuing trivial fun _ _ => rfl)) fun _ => still_orThrow _ _

/-- **A token is registered once it was drawn and its entry committed.** -/
theorem issue_conforms (cmd : UseTokenCommand) (m : Progress) :
    Wp (issuing E) (cmd.execute E).run m fun _ _ => True := by
  refine wp_still_bind still_requireUnsealed (fun _ => ?_) fun _ => trivial
  refine wp_still_bind (still_loadSecret _) (fun secret => ?_) fun _ => trivial
  rw [wp_except_bind, wp_call]
  refine ⟨trivial, ?_⟩
  rintro bytes _ ⟨-, rfl⟩
  refine wp_still_bind (still_call (idle_issuing trivial fun _ _ => rfl)) (fun issuedAt => ?_)
    fun _ => trivial
  refine wp_still_bind (still_attempt (idle_issuing trivial fun _ _ => rfl)) (fun expiresAt => ?_)
    fun _ => trivial
  refine wp_still_bind still_requireHmacKey (fun key => ?_) fun _ => trivial
  rw [wp_except_bind, auditCommit, wp_attempt]
  refine ⟨trivial, ?_⟩
  rintro r _ ⟨-, rfl⟩
  cases r with
  | error e => trivial
  | ok _ =>
    have hmay : MayRegister E ⟨some bytes, some (used .use cmd.namespaceId cmd.handle
        secret.sensitivity), m.issued⟩ (tokenText E bytes)
        ⟨secret.id, cmd.sessionId, cmd.handle, issuedAt, expiresAt, false⟩ :=
      ⟨bytes, _, rfl, rfl, rfl, ⟨rfl, rfl, rfl⟩, rfl⟩
    change Wp (issuing E) ((call (.registerUseToken _ _) : Handler Unit) >>= _).run _ _
    rw [wp_except_bind, wp_call]
    exact ⟨hmay, fun _ _ _ => trivial⟩

theorem only_unissuing_requireUnsealed : Only unissuing requireUnsealed.run := by
  refine only_except_bind (only_call trivial) fun b => ?_
  cases b with
  | true => exact only_pure ()
  | false => exact only_throw _

theorem only_unissuing_openSecret (cmd : MaterializeCommand) :
    Only unissuing (openSecret E cmd).run := by
  refine only_except_bind only_unissuing_requireUnsealed fun _ => ?_
  refine only_except_bind (only_attempt trivial) fun _ => ?_
  have hload : Only unissuing (loadSecret cmd.handle).run := by
    refine only_except_bind (only_except_bind (only_attempt trivial) fun row => ?_) fun _ =>
      only_orThrow _ _
    cases row with
    | none => exact only_pure none
    | some row => exact only_except_bind (only_attempt trivial) fun _ => only_pure _
  refine only_except_bind hload fun _ => ?_
  refine only_except_bind (only_orThrow _ _) fun _ => ?_
  exact only_except_bind (only_ofExcept _ _) fun _ => only_pure _

theorem only_unissuing_orCleanUp {α : Type} {path : String} {x : Handler α}
    (hx : Only unissuing x.run) : Only unissuing (orCleanUp path x).run := by
  refine only_except_bind (only_resultOf hx) fun r => ?_
  cases r with
  | ok a => exact only_pure a
  | error e => exact only_except_bind (only_call trivial) fun _ => only_throw e

theorem only_unissuing_record (cmd : MaterializeCommand) (secret : Secret) (path : String) :
    Only unissuing (recordMaterialization cmd secret path).run := by
  have hkey : Only unissuing requireHmacKey.run :=
    only_except_bind (only_call trivial) fun _ => only_orThrow _ _
  exact only_except_bind (only_unissuing_orCleanUp hkey) fun _ =>
    only_unissuing_orCleanUp (only_attempt trivial)

theorem only_unissuing_writeTempfile (cmd : MaterializeCommand) :
    Only unissuing (writeTempfile E cmd).run := by
  refine only_except_bind (only_unissuing_openSecret cmd) fun opened => ?_
  refine only_except_bind (only_call trivial) fun _ => ?_
  refine only_except_bind (only_call trivial) fun _ => ?_
  refine only_except_bind (only_attempt trivial) fun _ => ?_
  refine only_except_bind (only_unissuing_orCleanUp (only_attempt trivial)) fun _ => ?_
  refine only_except_bind (only_unissuing_orCleanUp (only_attempt trivial)) fun _ => ?_
  refine only_except_bind (only_unissuing_record _ _ _) fun _ => ?_
  refine only_except_bind (only_unissuing_orCleanUp (only_attempt trivial)) fun _ => ?_
  exact only_except_bind (only_call trivial) fun _ => only_pure _

theorem only_unissuing_writeFifo (cmd : MaterializeCommand) :
    Only unissuing (writeFifo E cmd).run := by
  refine only_except_bind (only_unissuing_openSecret cmd) fun opened => ?_
  refine only_except_bind (only_call trivial) fun _ => ?_
  refine only_except_bind (only_call trivial) fun _ => ?_
  refine only_except_bind (only_attempt trivial) fun _ => ?_
  refine only_except_bind (only_unissuing_record _ _ _) fun _ => ?_
  refine only_except_bind (only_unissuing_orCleanUp (only_attempt trivial)) fun _ => ?_
  refine only_except_bind (only_call trivial) fun _ => ?_
  exact only_except_bind (only_call trivial) fun _ => only_pure _

/-- Every client keeps to the order of issue. -/
theorem TokenClient.conforms {p : Prog NodeOp (Except NodeError NodeReply)} (h : TokenClient E p) :
    Conforms (issuance E) p (issuance E).init fun _ _ => True := by
  have hother : ∀ {p : Prog NodeOp (Except NodeError NodeReply)}, Only unissuingNode p →
      Conforms (issuance E) p (issuance E).init fun _ _ => True := by
    intro p hp
    exact wp_of_only (fun ha _ => mayAct_of_unissuing ha _)
      (fun _ _ _ => trivial) hp trivial
  have hreply : ∀ {x : Handler Reply}, Only unissuing x.run → Only unissuingNode (inReply x).run :=
    fun hx => only_except_bind (only_embedded hx) fun _ => only_pure _
  cases h with
  | issue cmd =>
    show Wp _ (inReply (cmd.execute E)).run _ _
    rw [inReply, wp_except_bind, runInContext, wp_embedded]
    refine (issue_conforms cmd _).mono fun m r _ => ?_
    cases r with
    | ok reply => trivial
    | error e => trivial
  | tempfile cmd => exact hother (hreply (only_unissuing_writeTempfile cmd))
  | fifo cmd => exact hother (hreply (only_unissuing_writeFifo cmd))
  | close => exact hother (only_except_bind (only_call trivial) fun _ => only_pure _)
  | other p hp => exact hother hp

end Conformance

/-! ### What actions do to the registry -/

/-- The registry with the token under a key spent. -/
def spend (key : String) (tokens : List (String × UseToken)) : List (String × UseToken) :=
  tokens.map fun (k, t) => if k = key then (k, { t with consumed := true }) else (k, t)

/-- A consumption that succeeds finds the token, for its handle, in time and not consumed. -/
theorem consumeUseTokenSection_ok {key : String} {handle : Handle} {now : Rfc3339Timestamp}
    {s s' : AppState} (h : consumeUseTokenSection key handle now s = (.ok (), s')) :
    ∃ token, (key, token) ∈ s.useTokens ∧ token.handle = handle ∧
      now.lt token.expiresAt = true ∧ token.consumed = false ∧
      s'.useTokens = spend key s.useTokens := by
  unfold consumeUseTokenSection at h
  split at h
  · cases h
  · next token htoken =>
    split_ifs at h with h₁ h₂ h₃
    · cases (Prod.mk.inj h).1
    · cases (Prod.mk.inj h).1
    · cases (Prod.mk.inj h).1
    · obtain ⟨-, rfl⟩ := Prod.mk.inj h
      refine ⟨token, ?_, not_not.mp h₁, by simpa using h₂, by simpa using h₃, rfl⟩
      obtain ⟨l₁, l₂, hl, -⟩ := List.lookup_eq_some_iff.mp htoken
      rw [hl]
      simp

/-- A consumption that is refused leaves the context. -/
theorem consumeUseTokenSection_error {key : String} {handle : Handle} {now : Rfc3339Timestamp}
    {s s' : AppState} {e : AppError} (h : consumeUseTokenSection key handle now s = (.error e, s')) :
    s' = s := by
  unfold consumeUseTokenSection at h
  split at h
  · exact (Prod.mk.inj h).2.symm
  · split_ifs at h
    · exact (Prod.mk.inj h).2.symm
    · exact (Prod.mk.inj h).2.symm
    · exact (Prod.mk.inj h).2.symm
    · cases (Prod.mk.inj h).1

/-- Actions that neither register nor consume. -/
def registryFree {β : Type} : Op β → Prop
  | .registerUseToken _ _ => False
  | .consumeUseToken _ _ => False
  | _ => True

theorem exec_useTokens {K : Crates} {β : Type} {op : Op β} {s s' : AppState} {r : β}
    (hx : exec K op s r s') (hf : registryFree op) : s'.useTokens = s.useTokens := by
  cases op with
  | identity o =>
    obtain ⟨-, rfl⟩ := Prod.mk.inj hx
    rfl
  | readHmacKey =>
    obtain ⟨-, rfl⟩ := hx
    rfl
  | writeHmacKey key =>
    obtain rfl : s' = _ := hx
    rfl
  | auditCommit params key =>
    obtain ⟨draw, fault, hx⟩ := hx
    rw [auditCommitSection_eq hx]
  | installHead p =>
    obtain rfl : s' = _ := hx
    rfl
  | query q =>
    obtain ⟨rfl, -⟩ := hx
    rfl
  | write w =>
    obtain ⟨fault, hx⟩ := hx
    rcases writeSection_eq hx with ⟨-, store, -, rfl⟩ | ⟨-, rfl⟩
    · rfl
    · rfl
  | newUuid =>
    obtain ⟨-, rfl⟩ := hx
    rfl
  | registerUseToken key token => exact hf.elim
  | consumeUseToken key handle => exact hf.elim
  | port p =>
    obtain rfl : s' = _ := hx
    rfl

/-- The actions of the node leave the context, or empty its registry. -/
theorem vaultExec_app {β : Type} {op : VaultOp β} {n n' : Node} {r : β} (h : vaultExec op n r n') :
    n'.app = n.app ∨ n'.app = { n.app with useTokens := [] } := by
  cases op with
  | lockInit =>
    rw [h.2]
    exact .inl rfl
  | unlockInit =>
    obtain rfl : n' = _ := h
    exact .inl rfl
  | randomBytes16 =>
    obtain rfl : n' = _ := h
    exact .inl rfl
  | generateAgeIdentity =>
    obtain rfl : n' = _ := h
    exact .inl rfl
  | masterPassphraseVar =>
    obtain rfl : n' = _ := h
    exact .inl rfl
  | selectNamespaceRows id =>
    rw [h.1]
    exact .inl rfl
  | getRestorePlan id =>
    rw [h.1]
    exact .inl rfl
  | restorePlanAppliedAt id =>
    rw [h.1]
    exact .inl rfl
  | markRestorePlanApplied id appliedAt =>
    obtain ⟨fault, h⟩ := h
    split at h
    · rw [h.2]
      exact .inl rfl
    · rw [h.2]
      exact .inl rfl
  | listBackups id =>
    rw [h.1]
    exact .inl rfl
  | putBackup backup =>
    rcases h with ⟨-, rfl⟩ | ⟨rfl, -⟩
    · exact .inl rfl
    · exact .inl rfl
  | persistArtifact path contents =>
    rcases h with ⟨-, -, rfl⟩ | ⟨rfl, -⟩
    · exact .inl rfl
    · exact .inl rfl
  | revokeUseTokens =>
    rw [h.2]
    exact .inr rfl

/-! ### The invariant -/

/-- The token under a key has been registered. -/
def Registered (tr : List TokenEvent) (key : String) : Prop := ∃ token, .registered key token ∈ tr

/-- The program is at a point that the trace and the persisted chain bear out. -/
structure Progress.Sound (E : Env) (m : Progress) (entries : List AuditEntry)
    (tr : List TokenEvent) : Prop where
  /-- The bytes drawn last are in no registered token yet. -/
  drawn : ∀ bytes, m.drawn = some bytes →
    .drawn bytes ∈ tr ∧ ¬ Registered tr (tokenText E bytes)
  recorded : ∀ params, m.recorded = some params → ∃ e ∈ entries, Records e params
  issued : ∀ key token params, (key, token, params) ∈ m.issued →
    IssueEntry params token.handle ∧ ∃ e ∈ entries, Records e params

/-- The token is held for a program that issued it, and spent only when it says so. -/
structure Held (ms : List Progress) (tr : List TokenEvent) (key : String) (token : UseToken) :
    Prop where
  issued : ∃ m ∈ ms, ∃ params, (key, { token with consumed := false }, params) ∈ m.issued
  registered : Registered tr key
  unspent : token.consumed = false → .consumed key ∉ tr

/-- The bytes that the program at a position waits with. -/
def drawnAt (ms : List Progress) (i : ℕ) : Option Key := ms[i]?.bind Progress.drawn

/-- No two programs wait with the same bytes. -/
def Apart (ms : List Progress) : Prop :=
  ∀ i j bytes, drawnAt ms i = some bytes → drawnAt ms j = some bytes → i = j

/-- The vault, the events so far and what each issuance knows agree. -/
structure Tracked (E : Env) (s : AppState) (tr : List TokenEvent) (ms : List Progress) : Prop where
  sound : ∀ m ∈ ms, m.Sound E s.store.auditEntries tr
  apart : Apart ms
  text : ∀ key, Registered tr key → ∃ bytes, .drawn bytes ∈ tr ∧ key = tokenText E bytes
  spent : ∀ key, .consumed key ∈ tr → Registered tr key
  once : ∀ key, tr.count (.consumed key) ≤ 1
  held : ∀ p ∈ s.useTokens, Held ms tr p.1 p.2

section Steps

variable {E : Env} {s s' : AppState} {tr : List TokenEvent} {ms : List Progress} {m m' : Progress}
  {i : ℕ}

theorem Registered.append {key : String} {tr' : List TokenEvent} (h : Registered tr key) :
    Registered (tr ++ tr') key := by
  obtain ⟨token, ht⟩ := h
  exact ⟨token, List.mem_append_left _ ht⟩

/-- A registration is what registers. -/
theorem registered_concat {key : String} {e : TokenEvent} : Registered (tr ++ [e]) key ↔
    Registered tr key ∨ ∃ token, e = .registered key token := by
  simp only [Registered, List.mem_append, List.mem_singleton, exists_or]
  refine or_congr_right (exists_congr fun token => ?_)
  exact eq_comm

/-- Every program of the list but the one at the position is still there. -/
theorem mem_set_or (h : m ∈ ms) (m' : Progress) : m ∈ ms.set i m' ∨ ms[i]? = some m := by
  obtain ⟨j, hj⟩ := List.getElem?_of_mem h
  by_cases hij : i = j
  · rw [hij]
    exact .inr hj
  · refine .inl (List.mem_of_getElem? (i := j) ?_)
    rw [List.getElem?_set_ne hij]
    exact hj

theorem Held.set {key : String} {token : UseToken} {tr' : List TokenEvent}
    (h : Held ms tr key token) (hi : ms[i]? = some m) (hgrow : m.issued ⊆ m'.issued)
    (hunspent : .consumed key ∉ tr → .consumed key ∉ tr ++ tr') :
    Held (ms.set i m') (tr ++ tr') key token := by
  refine ⟨?_, h.registered.append, fun hc => hunspent (h.unspent hc)⟩
  obtain ⟨m₁, hm₁, params, hp⟩ := h.issued
  rcases mem_set_or hm₁ m' with hm | hm
  · exact ⟨m₁, hm, params, hp⟩
  · obtain rfl := Option.some.inj (hi.symm.trans hm)
    have hlen := (List.getElem?_eq_some_iff.mp hi).1
    exact ⟨m', List.mem_set hlen _, params, hgrow hp⟩

theorem drawnAt_set {bytes : Key} {j : ℕ} (h : drawnAt (ms.set i m') j = some bytes) :
    j = i ∧ m'.drawn = some bytes ∨ j ≠ i ∧ drawnAt ms j = some bytes := by
  unfold drawnAt at h ⊢
  by_cases hij : i = j
  · subst hij
    rw [List.getElem?_set_self'] at h
    cases hmi : ms[i]? with
    | none =>
      rw [hmi] at h
      cases h
    | some m₀ =>
      rw [hmi] at h
      exact .inl ⟨rfl, h⟩
  · rw [List.getElem?_set_ne hij] at h
    exact .inr ⟨fun hji => hij hji.symm, h⟩

theorem Apart.set (h : Apart ms) (hnew : ∀ bytes, m'.drawn = some bytes →
    ∀ j, drawnAt ms j = some bytes → j = i) : Apart (ms.set i m') := by
  intro j k bytes hj hk
  rcases drawnAt_set hj with ⟨rfl, hm⟩ | ⟨-, hj'⟩
  · rcases drawnAt_set hk with ⟨rfl, -⟩ | ⟨-, hk'⟩
    · rfl
    · exact (hnew bytes hm k hk').symm
  · rcases drawnAt_set hk with ⟨rfl, hm⟩ | ⟨-, hk'⟩
    · exact hnew bytes hm j hj'
    · exact h j k bytes hj' hk'

theorem mem_of_drawnAt {bytes : Key} {j : ℕ} (h : drawnAt ms j = some bytes) :
    ∃ m ∈ ms, m.drawn = some bytes := by
  obtain ⟨m, hm, hb⟩ := Option.bind_eq_some_iff.mp h
  exact ⟨m, List.mem_of_getElem? hm, hb⟩

theorem drawnAt_eq (hi : ms[i]? = some m) : drawnAt ms i = m.drawn := by
  rw [drawnAt, hi, Option.bind_some]

theorem Progress.Sound.mono {entries entries' : List AuditEntry} (h : m.Sound E entries tr)
    (hsub : entries ⊆ entries') : m.Sound E entries' tr := by
  have hkeep : ∀ params, (∃ e ∈ entries, Records e params) → ∃ e ∈ entries', Records e params := by
    rintro params ⟨e, he, hrec⟩
    exact ⟨e, hsub he, hrec⟩
  refine ⟨h.drawn, fun params hp => hkeep params (h.recorded params hp), ?_⟩
  intro key token params hp
  obtain ⟨hissue, hrec⟩ := h.issued key token params hp
  exact ⟨hissue, hkeep params hrec⟩

/-- An event that does not register the text that the program waits with. -/
theorem Progress.Sound.concat {entries : List AuditEntry} {e : TokenEvent} (h : m.Sound E entries tr)
    (he : ∀ bytes, m.drawn = some bytes → ∀ token, e ≠ .registered (tokenText E bytes) token) :
    m.Sound E entries (tr ++ [e]) := by
  refine ⟨fun bytes hb => ?_, h.recorded, h.issued⟩
  obtain ⟨hin, hnot⟩ := h.drawn bytes hb
  refine ⟨List.mem_append_left _ hin, fun hreg => ?_⟩
  rcases registered_concat.mp hreg with hreg | ⟨token, htoken⟩
  · exact hnot hreg
  · exact he bytes hb token htoken

/-- Actions that touch no token. -/
theorem Tracked.frame (h : Tracked E s tr ms) (htok : s'.useTokens ⊆ s.useTokens)
    (haud : s.store.auditEntries ⊆ s'.store.auditEntries) : Tracked E s' tr ms :=
  { h with
    sound := fun m hm => (h.sound m hm).mono haud
    held := fun p hp => h.held p (htok hp) }

/-- A commit that succeeded. -/
theorem Tracked.record {params : AppendParams} (h : Tracked E s tr ms) (hi : ms[i]? = some m)
    (hrec : ∃ e ∈ s.store.auditEntries, Records e params) :
    Tracked E s tr (ms.set i { m with recorded := some params }) := by
  have hm := h.sound m (List.mem_of_getElem? hi)
  refine { h with sound := ?_, apart := ?_, held := ?_ }
  · intro m₁ hm₁
    rcases List.mem_or_eq_of_mem_set hm₁ with hm₁ | rfl
    · exact h.sound m₁ hm₁
    · refine ⟨hm.drawn, ?_, hm.issued⟩
      rintro _ ⟨⟩
      exact hrec
  · refine h.apart.set fun bytes hb j hj => ?_
    exact h.apart j i bytes hj ((drawnAt_eq hi).trans hb)
  · intro p hp
    have hheld : Held (ms.set i { m with recorded := some params }) (tr ++ []) p.1 p.2 :=
      (h.held p hp).set hi (List.Subset.refl _) (by simp)
    rwa [List.append_nil] at hheld

/-- A draw of bytes that were not drawn before. -/
theorem Tracked.draw (hE : Function.Injective (tokenText E)) {bytes : Key} (h : Tracked E s tr ms)
    (hi : ms[i]? = some m) (hfresh : .drawn bytes ∉ tr) :
    Tracked E s (tr ++ [.drawn bytes]) (ms.set i { m with drawn := some bytes, recorded := none }) := by
  have hm := h.sound m (List.mem_of_getElem? hi)
  have hreg : ∀ key, Registered (tr ++ [.drawn bytes]) key → Registered tr key := by
    intro key hkey
    rcases registered_concat.mp hkey with hkey | ⟨token, ht⟩
    · exact hkey
    · cases ht
  have hcons : ∀ key, .consumed key ∈ tr ++ [.drawn bytes] → .consumed key ∈ tr := by
    intro key hkey
    simpa using hkey
  constructor
  · intro m₁ hm₁
    rcases List.mem_or_eq_of_mem_set hm₁ with hm₁ | rfl
    · exact (h.sound m₁ hm₁).concat fun _ _ _ he => nomatch he
    · refine ⟨?_, (fun _ hp => nomatch hp), hm.issued⟩
      rintro _ ⟨⟩
      refine ⟨by simp, fun hkey => ?_⟩
      obtain ⟨bytes', hdrawn, htext⟩ := h.text _ (hreg _ hkey)
      exact hfresh (hE htext ▸ hdrawn)
  · refine h.apart.set ?_
    rintro _ ⟨⟩ j hj
    obtain ⟨m₁, hm₁, hb⟩ := mem_of_drawnAt hj
    exact absurd ((h.sound m₁ hm₁).drawn bytes hb).1 hfresh
  · intro key hkey
    obtain ⟨bytes', hdrawn, htext⟩ := h.text key (hreg key hkey)
    exact ⟨bytes', List.mem_append_left _ hdrawn, htext⟩
  · intro key hkey
    exact (h.spent key (hcons key hkey)).append
  · intro key
    rw [List.count_append, List.count_singleton]
    simpa using h.once key
  · intro p hp
    exact (h.held p hp).set hi (List.Subset.refl _) fun hnot hin => hnot (hcons _ hin)

/-- The registration of a token that the program drew and recorded. -/
theorem Tracked.register (hE : Function.Injective (tokenText E)) {key : String} {token : UseToken}
    (h : Tracked E s tr ms) (hi : ms[i]? = some m) (hmay : MayRegister E m key token)
    (htok : s'.useTokens = insertToken key token s.useTokens) (hstore : s'.store = s.store) :
    Tracked E s' (tr ++ [.registered key token])
      (ms.set i (m.next (.registerUseToken key token) ())) := by
  obtain ⟨bytes, params, hdrawn, rfl, hrec, hissue, hfresh⟩ := hmay
  have hm := h.sound m (List.mem_of_getElem? hi)
  have hnext : m.next (.registerUseToken (tokenText E bytes) token) () =
      { m with drawn := none, issued := m.issued ++ [(tokenText E bytes, token, params)] } := by
    simp [Progress.next, hrec]
  have hunspent : .consumed (tokenText E bytes) ∉ tr := fun hin =>
    (hm.drawn bytes hdrawn).2 (h.spent _ hin)
  have hcons : ∀ key, .consumed key ∈ tr ++ [.registered (tokenText E bytes) token] →
      .consumed key ∈ tr := by
    intro key hkey
    simpa using hkey
  rw [hnext]
  constructor
  · intro m₁ hm₁
    rw [hstore]
    by_cases hdrew : m₁.drawn = some bytes
    · -- Only the program itself waits with these bytes, and it waits no more.
      obtain ⟨j, hj⟩ := List.getElem?_of_mem hm₁
      have hat : drawnAt (ms.set i _) j = some bytes := (drawnAt_eq hj).trans hdrew
      rcases drawnAt_set hat with ⟨-, hnone⟩ | ⟨hne, hat⟩
      · cases hnone
      · exact absurd (h.apart j i bytes hat ((drawnAt_eq hi).trans hdrawn)) hne
    · rcases List.mem_or_eq_of_mem_set hm₁ with hm₁ | rfl
      · refine (h.sound m₁ hm₁).concat fun bytes' hb token' he => hdrew ?_
        obtain ⟨htext, -⟩ := TokenEvent.registered.inj he
        rw [hE htext]
        exact hb
      · refine ⟨(fun _ hb => nomatch hb), hm.recorded, ?_⟩
        intro key₁ token₁ params₁ hp
        rcases List.mem_append.mp hp with hp | hp
        · exact hm.issued key₁ token₁ params₁ hp
        · obtain ⟨rfl, rfl, rfl⟩ : key₁ = _ ∧ token₁ = _ ∧ params₁ = _ := by simpa using hp
          exact ⟨hissue, hm.recorded params₁ hrec⟩
  · exact h.apart.set fun _ hb => nomatch hb
  · intro key hkey
    rcases registered_concat.mp hkey with hkey | ⟨token', he⟩
    · obtain ⟨bytes', hin, htext⟩ := h.text key hkey
      exact ⟨bytes', List.mem_append_left _ hin, htext⟩
    · obtain ⟨rfl, -⟩ := TokenEvent.registered.inj he
      exact ⟨bytes, List.mem_append_left _ (hm.drawn bytes hdrawn).1, rfl⟩
  · intro key hkey
    exact (h.spent key (hcons key hkey)).append
  · intro key
    rw [List.count_append, List.count_singleton]
    simpa using h.once key
  · intro p hp
    rw [htok, insertToken] at hp
    rcases List.mem_cons.mp hp with rfl | hp
    · have hlen := (List.getElem?_eq_some_iff.mp hi).1
      refine ⟨⟨_, List.mem_set hlen _, params, ?_⟩, ⟨token, by simp⟩, fun _ hin => hunspent (hcons _ hin)⟩
      have hsame : ({ token with consumed := false } : UseToken) = token := by rw [← hfresh]
      rw [hsame]
      exact List.mem_append_right _ (List.mem_singleton.mpr rfl)
    · exact (h.held p (List.mem_of_mem_filter hp)).set hi (List.subset_append_left _ _)
        fun hnot hin => hnot (hcons _ hin)

/-- A consumption that succeeded. -/
theorem Tracked.consume {key : String} {handle : Handle} {now : Rfc3339Timestamp}
    (h : Tracked E s tr ms) (hc : consumeUseTokenSection key handle now s = (.ok (), s')) :
    Tracked E s' (tr ++ [.consumed key]) ms := by
  obtain ⟨token, hin, -, -, hunused, htok⟩ := consumeUseTokenSection_ok hc
  have hstore : s'.store = s.store := by rw [consumeUseTokenSection_eq hc]
  have hheld := h.held _ hin
  have hcount : tr.count (.consumed key) = 0 := List.count_eq_zero.mpr (hheld.unspent hunused)
  have hreg : ∀ k, Registered (tr ++ [.consumed key]) k → Registered tr k := by
    intro k hk
    rcases registered_concat.mp hk with hk | ⟨token', he⟩
    · exact hk
    · cases he
  constructor
  · intro m hm
    rw [hstore]
    exact (h.sound m hm).concat fun _ _ _ he => nomatch he
  · exact h.apart
  · intro k hk
    obtain ⟨bytes, hb, htext⟩ := h.text k (hreg k hk)
    exact ⟨bytes, List.mem_append_left _ hb, htext⟩
  · intro k hk
    rcases List.mem_append.mp hk with hk | hk
    · exact (h.spent k hk).append
    · obtain ⟨rfl⟩ : k = key := by simpa using hk
      exact hheld.registered.append
  · intro k
    rw [List.count_append, List.count_singleton]
    by_cases hk : k = key
    · rw [hk, hcount]
      split <;> omega
    · have hne : (TokenEvent.consumed key == TokenEvent.consumed k) = false := by
        simpa using fun heq => hk heq.symm
      rw [hne]
      simpa using h.once k
  · intro p hp
    rw [htok, spend] at hp
    obtain ⟨⟨k, t⟩, hkt, rfl⟩ := List.mem_map.mp hp
    have hold := h.held _ hkt
    by_cases hk : k = key
    · simp only [hk, if_true]
      subst hk
      exact ⟨hold.issued, hold.registered.append, fun hfalse => nomatch hfalse⟩
    · simp only [hk, if_false]
      refine ⟨hold.issued, hold.registered.append, fun hfalse hmem => ?_⟩
      rcases List.mem_append.mp hmem with hmem | hmem
      · exact hold.unspent hfalse hmem
      · exact hk (by simpa using hmem)

theorem drawnAt_append {j : ℕ} {bytes : Key} (h : drawnAt (ms ++ [(issuance E).init]) j = some bytes) :
    drawnAt ms j = some bytes := by
  obtain ⟨m, hm, hb⟩ := Option.bind_eq_some_iff.mp h
  rcases lt_or_ge j ms.length with hlt | hge
  · rw [List.getElem?_append_left hlt] at hm
    exact (drawnAt_eq hm).trans hb
  · rw [List.getElem?_append_right hge] at hm
    obtain rfl : m = (issuance E).init := List.mem_singleton.mp (List.mem_of_getElem? hm)
    cases hb

/-- A program that starts has done nothing yet. -/
theorem Tracked.start (h : Tracked E s tr ms) : Tracked E s tr (ms ++ [(issuance E).init]) := by
  refine { h with sound := ?_, apart := ?_, held := ?_ }
  · intro m hm
    rcases List.mem_append.mp hm with hm | hm
    · exact h.sound m hm
    · obtain rfl : m = (issuance E).init := List.mem_singleton.mp hm
      exact ⟨(fun _ hb => nomatch hb), (fun _ hp => nomatch hp), (fun _ _ _ hp => nomatch hp)⟩
  · intro j k bytes hj hk
    exact h.apart j k bytes (drawnAt_append hj) (drawnAt_append hk)
  · intro p hp
    obtain ⟨m, hm, params, hin⟩ := (h.held p hp).issued
    exact { h.held p hp with issued := ⟨m, List.mem_append_left _ hm, params, hin⟩ }

/-- A restart forgets the programs and the registry. -/
theorem Tracked.restart (h : Tracked E s tr ms) (htok : s'.useTokens = []) : Tracked E s' tr [] := by
  refine ⟨by simp, by simp [Apart, drawnAt], h.text, h.spent, h.once, ?_⟩
  rw [htok]
  simp

theorem set_self (hi : ms[i]? = some m) : ms.set i m = ms := by
  obtain ⟨hlt, rfl⟩ := List.getElem?_eq_some_iff.mp hi
  exact List.set_getElem_self hlt

/-- **One action of one program.** -/
theorem Tracked.step {W : World} (hW : Function.Injective (tokenText W.toEnv)) {β : Type}
    {op : NodeOp β} {n n' : Node} {r : β} (h : Tracked W.toEnv n.app tr ms) (hi : ms[i]? = some m)
    (hmay : MayActNode W.toEnv m op) (hx : nodeExec W op n r n')
    (hfresh : ∀ bytes, tokenEvent op r = some (.drawn bytes) → .drawn bytes ∉ tr) :
    Tracked W.toEnv n'.app (tr ++ (tokenEvent op r).toList) (ms.set i (m.nextNode op r)) := by
  -- Most actions neither show an event nor move the program.
  have hquiet : n'.app.useTokens ⊆ n.app.useTokens →
      n.app.store.auditEntries ⊆ n'.app.store.auditEntries → tokenEvent op r = none →
      m.nextNode op r = m →
      Tracked W.toEnv n'.app (tr ++ (tokenEvent op r).toList) (ms.set i (m.nextNode op r)) := by
    intro htok haud hnone hsame
    rw [hnone, hsame, set_self hi, Option.toList_none, List.append_nil]
    exact h.frame htok haud
  cases op with
  | vault op =>
    rcases vaultExec_app hx with happ | happ
    · exact hquiet (by rw [happ]; exact List.Subset.refl _) (by rw [happ]; exact List.Subset.refl _)
        rfl rfl
    · exact hquiet (by rw [happ]; exact List.nil_subset _) (by rw [happ]; exact List.Subset.refl _)
        rfl rfl
  | app op =>
    have hx' := appExec_exec hx
    have haud := auditEntries_mono hx'
    cases op with
    | registerUseToken key token =>
      have hs : n'.app = _ := hx'
      exact h.register hW hi hmay (by rw [hs]) (by rw [hs])
    | consumeUseToken key handle =>
      obtain ⟨now, hc⟩ := hx'
      cases r with
      | ok u =>
        have hsame : ms.set i (m.nextNode (.app (.consumeUseToken key handle)) (.ok u)) = ms :=
          set_self hi
        rw [hsame]
        exact h.consume hc
      | error e =>
        have hs := consumeUseTokenSection_error hc
        exact hquiet (by rw [hs]; exact List.Subset.refl _) haud rfl rfl
    | port p =>
      have hs : n'.app = n.app := hx'
      rw [hs] at hquiet ⊢
      cases p with
      | randomBytes32 => exact h.draw hW hi (hfresh r rfl)
      | _ => exact hquiet (List.Subset.refl _) (List.Subset.refl _) rfl rfl
    | auditCommit params key =>
      have htok := exec_useTokens hx' trivial
      have hframe := h.frame (by rw [htok]; exact List.Subset.refl _) haud
      cases r with
      | ok u =>
        have hrec := record_persisted hx' (p := params) rfl
        have hevent : tr ++ (tokenEvent (.app (.auditCommit params key)) (.ok u)).toList = tr :=
          List.append_nil tr
        rw [hevent]
        exact hframe.record hi hrec
      | error e => exact hquiet (by rw [htok]; exact List.Subset.refl _) haud rfl rfl
    | identity o =>
      exact hquiet (by rw [exec_useTokens hx' trivial]; exact List.Subset.refl _) haud rfl rfl
    | readHmacKey =>
      exact hquiet (by rw [exec_useTokens hx' trivial]; exact List.Subset.refl _) haud rfl rfl
    | writeHmacKey key =>
      exact hquiet (by rw [exec_useTokens hx' trivial]; exact List.Subset.refl _) haud rfl rfl
    | installHead p =>
      exact hquiet (by rw [exec_useTokens hx' trivial]; exact List.Subset.refl _) haud rfl rfl
    | query q =>
      exact hquiet (by rw [exec_useTokens hx' trivial]; exact List.Subset.refl _) haud rfl rfl
    | write w =>
      exact hquiet (by rw [exec_useTokens hx' trivial]; exact List.Subset.refl _) haud rfl rfl
    | newUuid =>
      exact hquiet (by rw [exec_useTokens hx' trivial]; exact List.Subset.refl _) haud rfl rfl

end Steps

/-! ### Histories -/

section Histories

variable {E : Env} {hist : List (Event NodeOp)}

theorem recorded_hist {params : AppendParams}
    (h : ((issuance E).after hist).recorded = some params) :
    ∃ key, (⟨.app (.auditCommit params key), .ok ()⟩ : Event NodeOp) ∈ hist := by
  induction hist using List.reverseRecOn with
  | nil => cases h
  | append_singleton hist e ih =>
    rw [Monitor.after_concat] at h
    have hold : ((issuance E).after hist).recorded = some params →
        ∃ key, (⟨.app (.auditCommit params key), .ok ()⟩ : Event NodeOp) ∈ hist ++ [e] := by
      intro hrec
      obtain ⟨key, hin⟩ := ih hrec
      exact ⟨key, List.mem_append_left _ hin⟩
    obtain ⟨op, res⟩ := e
    cases op with
    | vault op => exact hold h
    | app op =>
      cases op with
      | auditCommit params' key =>
        cases res with
        | ok u =>
          obtain rfl := Option.some.inj h
          exact ⟨key, List.mem_append_right _ (List.mem_singleton.mpr rfl)⟩
        | error err => exact hold h
      | port p =>
        cases p with
        | randomBytes32 => cases h
        | _ => exact hold h
      | _ => exact hold h

/-- A registered token stands in the history after the commit of its entry. -/
theorem issued_hist {key : String} {token : UseToken} {params : AppendParams}
    (h : (key, token, params) ∈ ((issuance E).after hist).issued) : ∃ pre post hmacKey,
      hist = pre ++ ⟨.app (.registerUseToken key token), ()⟩ :: post ∧
      (⟨.app (.auditCommit params hmacKey), .ok ()⟩ : Event NodeOp) ∈ pre := by
  induction hist using List.reverseRecOn with
  | nil => cases h
  | append_singleton hist e ih =>
    rw [Monitor.after_concat] at h
    have hold : (key, token, params) ∈ ((issuance E).after hist).issued → ∃ pre post hmacKey,
        hist ++ [e] = pre ++ ⟨.app (.registerUseToken key token), ()⟩ :: post ∧
        (⟨.app (.auditCommit params hmacKey), .ok ()⟩ : Event NodeOp) ∈ pre := by
      intro hin
      obtain ⟨pre, post, hmacKey, rfl, hcommit⟩ := ih hin
      exact ⟨pre, post ++ [e], hmacKey, by simp, hcommit⟩
    obtain ⟨op, res⟩ := e
    cases op with
    | vault op => exact hold h
    | app op =>
      cases op with
      | registerUseToken key' token' =>
        rcases List.mem_append.mp h with h | h
        · exact hold h
        · obtain ⟨params', hp, heq⟩ := Option.map_eq_some_iff.mp (Option.mem_toList.mp h)
          obtain ⟨rfl, rfl, rfl⟩ : key' = key ∧ token' = token ∧ params' = params := by
            simpa using heq
          obtain ⟨hmacKey, hcommit⟩ := recorded_hist hp
          exact ⟨hist, [], hmacKey, rfl, hcommit⟩
      | auditCommit params' key' =>
        cases res with
        | ok u => exact hold h
        | error err => exact hold h
      | port p =>
        cases p with
        | randomBytes32 => exact hold h
        | _ => exact hold h
      | _ => exact hold h

end Histories

/-! ### Runs -/

/-- The token was issued for the handle by a running or ended program, which committed its entry
before it registered it; the token is not expired and the entry is in the persisted chain. -/
def Justified (c : Config (Node × List TokenEvent) NodeOp (Except NodeError NodeReply)) (key : String)
    (handle : Handle) (now : Rfc3339Timestamp) : Prop :=
  ∃ t ∈ c.tasks, ∃ token params hmacKey pre post,
    t.hist = pre ++ ⟨.app (.registerUseToken key token), ()⟩ :: post ∧
    (⟨.app (.auditCommit params hmacKey), .ok ()⟩ : Event NodeOp) ∈ pre ∧
    IssueEntry params handle ∧ token.handle = handle ∧ now.lt token.expiresAt = true ∧
    ∃ e ∈ c.state.1.app.store.auditEntries, Records e params

/-- **Single-use tokens.**  In every run, restarts included, a token is consumed at most once.  An
attempt that succeeds is the first for its token, which was issued for the handle, is not expired and
has its entry in the persisted chain; an attempt that is refused changes nothing. -/
theorem tokens_single_use (W : World) (hW : Function.Injective (tokenText W.toEnv)) (n₀ : Node)
    (h₀ : n₀.app.useTokens = [])
    (c : Config (Node × List TokenEvent) NodeOp (Except NodeError NodeReply))
    (h : Reachable (tokenSystem W) freshDraws (n₀, []) c) :
    (∀ key, c.state.2.count (.consumed key) ≤ 1) ∧
    ∀ key handle now s',
      (consumeUseTokenSection key handle now c.state.1.app = (.ok (), s') →
        .consumed key ∉ c.state.2 ∧ Justified c key handle now) ∧
      ∀ e, consumeUseTokenSection key handle now c.state.1.app = (.error e, s') →
        s' = c.state.1.app := by
  obtain ⟨htracked, -⟩ := h.rule (issuance W.toEnv) (fun _ _ _ => True)
    (fun s ms => Tracked W.toEnv s.1.app s.2 ms)
    ⟨by simp, by simp [Apart, drawnAt], by simp [Registered], by simp, by simp,
      by rw [h₀]; simp⟩
    (fun p hp => TokenClient.conforms hp)
    (by
      intro s ms hI
      exact hI.start)
    (by
      intro β op hist s s' r ms i hI hi hallowed hx hg
      rw [hx.2]
      exact ⟨trivial, hI.step hW hi hallowed hx.1 fun bytes hb => hg bytes hb⟩)
    (by
      intro s s' ms hI hr
      obtain ⟨hboot, htrace⟩ := hr
      have happ : s'.1 = s.1.rebooted := hboot
      rw [htrace]
      exact hI.restart (by rw [happ]; rfl))
  refine ⟨htracked.once, fun key handle now s' => ⟨fun hok => ?_, fun e he => ?_⟩⟩
  · obtain ⟨token, hin, rfl, htime, hunused, -⟩ := consumeUseTokenSection_ok hok
    have hheld := htracked.held _ hin
    refine ⟨hheld.unspent hunused, ?_⟩
    obtain ⟨m, hm, params, hissued⟩ := hheld.issued
    obtain ⟨t, ht, rfl⟩ := List.mem_map.mp hm
    obtain ⟨hentry, hrec⟩ := (htracked.sound _ hm).issued _ _ _ hissued
    obtain ⟨pre, post, hmacKey, hhist, hcommit⟩ := issued_hist hissued
    exact ⟨t, ht, _, params, hmacKey, pre, post, hhist, hcommit, hentry, rfl, htime, hrec⟩
  · exact consumeUseTokenSection_error he

/-- A vault with one secret. -/
def sampleHolder : Node where
  app := { sampleState with store := { Store.empty with
    secrets := [⟨⟨sampleUuid 5⟩, ⟨sampleUuid 1⟩, sampleHandle, .database, .medium, [], ⟨none, false⟩,
      epoch, ⟨sampleUuid 6⟩⟩] } }
  keychain _ := none
  files _ := none
  recoveryPubkey := "age1"
  backups := []
  restorePlans := []
  initLocked := false

/-- A request for a token. -/
def sampleIssue : UseTokenCommand := ⟨⟨sampleUuid 1⟩, sampleHandle, sampleUuid 2⟩

/-- Later than `epoch`. -/
def sampleExpiry : Rfc3339Timestamp := .ofSeconds 60

theorem sampleText_injective : Function.Injective (tokenText (sampleWorld ⟨none, []⟩).toEnv) := by
  intro a b h
  have hhex := hexBytes_injective (String.ofList_injective h)
  exact Vector.toList_inj.mp hhex

theorem issued_token_consumable :
    ∃ (c : Config (Node × List TokenEvent) NodeOp (Except NodeError NodeReply)) (s' : AppState),
      Reachable (tokenSystem (sampleWorld ⟨none, []⟩)) freshDraws (sampleHolder, []) c ∧
      Function.Injective (tokenText (sampleWorld ⟨none, []⟩).toEnv) ∧
      consumeUseTokenSection (tokenText (sampleWorld ⟨none, []⟩).toEnv sampleKey) sampleHandle epoch
        c.state.1.app = (.ok (), s') ∧
      .consumed (tokenText (sampleWorld ⟨none, []⟩).toEnv sampleKey) ∉ c.state.2 ∧
      Justified c (tokenText (sampleWorld ⟨none, []⟩).toEnv sampleKey) sampleHandle epoch := by
  let W := sampleWorld ⟨none, []⟩
  let n := sampleHolder
  let drawn : List TokenEvent := [.drawn sampleKey]
  obtain ⟨s, hx, -⟩ := first_commit W.toCrates (used .use ⟨sampleUuid 1⟩ sampleHandle .medium)
    sampleKey (sampleCall 1).draw n.app rfl
  let token : UseToken := ⟨⟨sampleUuid 5⟩, sampleUuid 2, sampleHandle, epoch, sampleExpiry, false⟩
  let key := tokenText W.toEnv sampleKey
  let s' : AppState := { s with useTokens := insertToken key token s.useTokens }
  have h₀ := Reachable.here (tokenSystem W) freshDraws (n, [])
  have h₁ := h₀.start _ (.issue sampleIssue)
  have h₂ := h₁.act 0 rfl true (n, []) ⟨⟨rfl, rfl⟩, rfl⟩ (fun _ h => nomatch h)
  have h₃ := h₂.act 0 rfl (.ok n.app.store.secrets.head?) (n, []) ⟨⟨⟨rfl, none, rfl⟩, rfl⟩, rfl⟩
    (fun _ h => nomatch h)
  have h₄ := h₃.act 0 rfl (.ok (n.app.store.loadVersionsForSecret ⟨sampleUuid 5⟩)) (n, [])
    ⟨⟨⟨rfl, none, rfl⟩, rfl⟩, rfl⟩ (fun _ h => nomatch h)
  have h₅ := h₄.act 0 rfl sampleKey (n, drawn) ⟨rfl, rfl⟩ (fun _ _ => List.not_mem_nil)
  have h₆ := h₅.act 0 rfl epoch (n, drawn) ⟨rfl, rfl⟩ (fun _ h => nomatch h)
  have h₇ := h₆.act 0 rfl (.ok sampleExpiry) (n, drawn) ⟨rfl, rfl⟩ (fun _ h => nomatch h)
  have h₈ := h₇.act 0 rfl (some sampleKey) (n, drawn) ⟨⟨⟨rfl, rfl⟩, rfl⟩, rfl⟩ (fun _ h => nomatch h)
  have h₉ := h₈.act 0 rfl (.ok ()) ({ n with app := s }, drawn) ⟨⟨⟨_, _, hx⟩, rfl⟩, rfl⟩
    (fun _ h => nomatch h)
  have h₁₀ := h₉.act 0 rfl () ({ n with app := s' }, drawn ++ [.registered key token])
    ⟨⟨rfl, rfl⟩, rfl⟩ (fun _ h => nomatch h)
  have hlookup : s'.useTokens.lookup key = some token := List.lookup_cons_self
  have hok : consumeUseTokenSection key sampleHandle epoch s' =
      (.ok (), { s' with useTokens := spend key s'.useTokens }) := by
    unfold consumeUseTokenSection
    rw [hlookup]
    rfl
  obtain ⟨-, hattempt⟩ := tokens_single_use W sampleText_injective n rfl _ h₁₀
  obtain ⟨hunspent, hjust⟩ := (hattempt key sampleHandle epoch _).1 hok
  exact ⟨_, _, h₁₀, sampleText_injective, hok, hunspent, hjust⟩

end MerkleVault.App.UseTokens
