import MerkleVault.Socket.Unhindered

/-! # What is Stored Comes Back

A put or a rotation cuts the tag from the ciphertext and stores both under the associated data of the
handle; a reader joins them again and takes the associated data from the blob, and a rollback copies
the blob of a version to a new one.  So a stored value is read back as it was, from its own version
and from any later rollback to it.

* `After`: the commands that come in between;
* `stored_value_returns`: puts and rotations from any reachable state. -/

namespace MerkleVault.Socket.RoundTrip

open MerkleVault.Types MerkleVault.External MerkleVault.Lib.Program MerkleVault.Audit.Entry
open MerkleVault.Audit.Writer MerkleVault.Audit.Integrity
open MerkleVault.Secrets.Aggregate MerkleVault.Sqlite.Tables MerkleVault.Sqlite.Versions
open MerkleVault.App.Context MerkleVault.App.SecretCommands MerkleVault.App.UseCommands
open MerkleVault.App.AuditDurability MerkleVault.App.IdentitySections MerkleVault.App.Reveal
open MerkleVault.Socket.Actions MerkleVault.Socket.Steps MerkleVault.Socket.Stock
open MerkleVault.Socket.KeyConsistency MerkleVault.Socket.Unhindered

/-! ### Commands one after the other -/

/-- A command on the secret under a handle, and whether it may delete it. -/
inductive Command (E : Env) : Handle → Bool → Handler Reply → Prop
  | put (cmd : PutSecretCommand) : Command E cmd.handle false (cmd.execute E)
  | rotate (cmd : RotateSecretCommand) : Command E cmd.handle false (cmd.execute E)
  | rollback (cmd : RollbackSecretCommand) : Command E cmd.handle false cmd.execute
  | delete (cmd : DeleteSecretCommand) : Command E cmd.handle true cmd.execute

/-- The states that the commands allowed, and any programs that put and delete no secret, lead to,
one after the other, whether they succeed or fail. -/
inductive After (E : Env) (allowed : Handle → Bool → Prop) (s₀ : AppState) : AppState → Prop
  | start : After E allowed s₀ s₀
  | command {s s' : AppState} {handle : Handle} {deletes : Bool} {x : Handler Reply}
      {hist : List (Event Op)} {r : Except AppError Reply} (h : After E allowed s₀ s)
      (hx : Command E handle deletes x) (ha : allowed handle deletes)
      (hr : Runs (exec E.toCrates) x.run s hist r s') : After E allowed s₀ s'
  | other {s s' : AppState} {ε α : Type} {x : Cmd Op ε α} {hist : List (Event Op)}
      {r : Except ε α} (h : After E allowed s₀ s) (hx : Only sparesSecrets x.run)
      (hr : Runs (exec E.toCrates) x.run s hist r s') : After E allowed s₀ s'

/-- The secrets are in order. -/
structure Orderly (s : AppState) : Prop where
  stocked : Stocked s
  numbered : Numbered s.store

section Commands

variable {E : Env} {s s' : AppState} {handle : Handle} {w : Option (SecretRow × SecretVersion)}

theorem Orderly.same (h : Orderly s) (hs : SameStock s s') : Orderly s' := by
  refine ⟨h.stocked.same hs, ?_⟩
  unfold Numbered
  rw [hs.versions]
  exact h.numbered

theorem Orderly.made (h : Orderly s) (hm : Made s handle w s') : Orderly s' := by
  obtain ⟨s₁, st', hbefore, hchange, hafter⟩ := hm
  have h₁ := h.same (sameStock_of_sameVault hbefore)
  have h₂ : Orderly { s₁ with store := st' } :=
    ⟨h₁.stocked.change hchange, h₁.numbered.change h₁.stocked.keys hchange⟩
  exact h₂.same (sameStock_of_sameVault hafter)

/-- **One command**: no change of the secrets, or one of the handle's. -/
theorem command_made {deletes : Bool} {x : Handler Reply} (h : Orderly s)
    (hx : Command E handle deletes x) : Wp (agentRules E) x.run s fun s' _ =>
      SameVault s s' ∨ ∃ w, (w = none → deletes = true) ∧ Made s handle w s' := by
  have hadds : ∀ {P : SecretRow → SecretVersion → Prop} {s' : AppState} {r : Except AppError Reply},
      Outcome handle (Adds P) s s' r →
        SameVault s s' ∨ ∃ w, (w = none → deletes = true) ∧ Made s handle w s' := by
    intro P s' r ho
    refine ho.made.imp_right ?_
    rintro ⟨_, ⟨row, v, rfl, -⟩, hmade⟩
    exact ⟨some (row, v), fun h => absurd h (by simp), hmade⟩
  cases hx with
  | put cmd => exact (put_outcome h.stocked cmd).mono fun _ _ => hadds
  | rotate cmd => exact (rotate_outcome h.stocked cmd).mono fun _ _ => hadds
  | rollback cmd => exact (rollback_outcome h.stocked cmd).mono fun _ _ => hadds
  | delete cmd =>
    refine (delete_outcome cmd).mono fun s' r ho => ho.made.imp_right ?_
    rintro ⟨w, rfl, hmade⟩
    exact ⟨none, fun _ => rfl, hmade⟩

theorem only_sameStock {ε α : Type} {x : Cmd Op ε α} (hx : Only sparesSecrets x.run) :
    Wp (agentRules E) x.run s fun s' _ => SameStock s s' :=
  wp_of_only (fun _ _ => trivial) (fun hop hs h => hs.trans (exec_spares hop h)) hx (.refl s)

end Commands

/-! ### Stored values -/

/-- The handle has a version with the number, which opens to the value. -/
def Stored (E : Env) (dek : Key) (handle : Handle) (n : UInt32) (value : List UInt8) (s : AppState) :
    Prop :=
  ∃ blob, Retains s.store handle n blob ∧ decryptBlob E dek blob = .ok value

/-- The handle's current version opens to the value. -/
def Shows (E : Env) (dek : Key) (handle : Handle) (value : List UInt8) (s : AppState) : Prop :=
  ∃ row v, s.store.selectSecretRow handle = some row ∧ IsCurrent s.store row v ∧
    decryptBlob E dek v.blob = .ok value

section Values

variable {E : Env} {dek : Key} {handle : Handle} {n : UInt32} {value : List UInt8}
  {s s' : AppState} {w : Option (SecretRow × SecretVersion)}

theorem Stored.same (h : Stored E dek handle n value s) (hs : SameStock s s') :
    Stored E dek handle n value s' := by
  obtain ⟨blob, ⟨row, v, hrow, hv, hfields⟩, hopen⟩ := h
  refine ⟨blob, ⟨row, v, (select_congr hs.secrets handle).trans hrow, ?_, hfields⟩, hopen⟩
  rw [hs.versions]
  exact hv

theorem Shows.same (h : Shows E dek handle value s) (hs : SameStock s s') :
    Shows E dek handle value s' := by
  obtain ⟨row, v, hrow, hv, hopen⟩ := h
  exact ⟨row, v, (select_congr hs.secrets handle).trans hrow, isCurrent_congr hs.versions hv, hopen⟩

theorem Stored.made {handle' : Handle} (h : Stored E dek handle n value s) (ho : Orderly s)
    (hm : Made s handle' w s') (hdel : w = none → handle ≠ handle') :
    Stored E dek handle n value s' := by
  obtain ⟨s₁, st', hbefore, hchange, hafter⟩ := hm
  have hs₁ := sameStock_of_sameVault hbefore
  obtain ⟨blob, hretains, hopen⟩ := h.same hs₁
  have hkept : Stored E dek handle n value { s₁ with store := st' } :=
    ⟨blob, hchange.retains (ho.stocked.same hs₁) hdel hretains, hopen⟩
  exact hkept.same (sameStock_of_sameVault hafter)

theorem Shows.made {handle' : Handle} (h : Shows E dek handle value s) (ho : Orderly s)
    (hm : Made s handle' w s') (hne : handle ≠ handle') : Shows E dek handle value s' := by
  obtain ⟨s₁, st', hbefore, hchange, hafter⟩ := hm
  have hs₁ := sameStock_of_sameVault hbefore
  obtain ⟨row, v, hrow, hv, hopen⟩ := h.same hs₁
  obtain ⟨hrow', hv'⟩ := hchange.other (ho.stocked.same hs₁) hne hrow hv
  have hkept : Shows E dek handle value { s₁ with store := st' } := ⟨row, v, hrow', hv', hopen⟩
  exact hkept.same (sameStock_of_sameVault hafter)

/-- **Every invariant of the steps holds after the commands.** -/
theorem After.inv {allowed : Handle → Bool → Prop} {I : AppState → Prop} (h₀ : I s)
    (ho : Orderly s) (hsame : ∀ {s s'}, I s → SameStock s s' → I s')
    (hmade : ∀ {s s' handle deletes w}, I s → Orderly s → allowed handle deletes →
      (w = none → deletes = true) → Made s handle w s' → I s')
    (h : After E allowed s s') : Orderly s' ∧ I s' := by
  induction h with
  | start => exact ⟨ho, h₀⟩
  | command _ hx ha hr ih =>
    obtain ⟨ho', hI⟩ := ih
    rcases wp_runs (Q := fun s' _ => SameVault _ s' ∨ ∃ w, (w = none → _) ∧ Made _ _ w s')
      (command_made ho' hx) hr with hs | ⟨w, hw, hm⟩
    · exact ⟨ho'.same (sameStock_of_sameVault hs), hsame hI (sameStock_of_sameVault hs)⟩
    · exact ⟨ho'.made hm, hmade hI ho' ha hw hm⟩
  | other _ hx hr ih =>
    have hs := wp_runs (Q := fun s' _ => SameStock _ s') (only_sameStock hx) hr
    exact ⟨ih.1.same hs, hsame ih.2 hs⟩

end Values

/-! ### Reading -/

/-- The action hands no other bytes than the value to a file, a pipe or the network. -/
def handsOnly (value : List UInt8) {β : Type} : Op β → Prop
  | .port (.writeFile _ bytes) => bytes = value
  | .port (.spawnFifoWriter _ bytes) => bytes = value
  | .port (.httpRequest _ _) => False
  | _ => True

/-- The reply stands for a registered file or pipe that was given the value. -/
def Delivered (value : List UInt8) (hist : List (Event Op)) (reply : Reply) : Prop :=
  ∃ path token expiresAt, reply = .materialized token expiresAt ∧
    (⟨.port (.writeFile path value), .ok ()⟩ ∈ hist ∨
      ⟨.port (.spawnFifoWriter path value), ()⟩ ∈ hist) ∧
    ⟨.port (.registerTempfile token path), ()⟩ ∈ hist

/-- A materialization hands out the value and nothing else; one that returns has handed it out, and
none fails in decryption. -/
structure HandsOut (value : List UInt8) (hist : List (Event Op)) (r : Except AppError Reply) :
    Prop where
  only : ∀ e ∈ hist, handsOnly value e.op
  delivered : ∀ reply, r = .ok reply → Delivered value hist reply
  opened : ∀ c, r ≠ .error (.crypto c)

/-- Every reading command with the key gives the value: none gives another or fails in decryption, and
one that nothing hinders returns it. -/
structure ReadsBack (E : Env) (dek : Key) (handle : Handle) (value : List UInt8) (s : AppState) :
    Prop where
  reveal : ∀ (cmd : RevealSecretCommand) hist r s', cmd.handle = handle → cmd.dekBytes = dek →
    Runs (exec E.toCrates) (cmd.execute E).run s hist r s' →
      Gives value r ∧
        (Confirmed cmd → NothingFails hist → Signed E cmd hist → r = .ok (.revealed value))
  tempfile : ∀ (cmd : MaterializeCommand) hist r s', cmd.handle = handle → cmd.dekBytes = dek →
    Runs (exec E.toCrates) (writeTempfile E cmd).run s hist r s' →
      HandsOut value hist r ∧ (NothingFails hist → ∃ reply, r = .ok reply)
  fifo : ∀ (cmd : MaterializeCommand) hist r s', cmd.handle = handle → cmd.dekBytes = dek →
    Runs (exec E.toCrates) (writeFifo E cmd).run s hist r s' →
      HandsOut value hist r ∧ (NothingFails hist → ∃ reply, r = .ok reply)

section Reading

variable {E : Env} {handle : Handle} {value : List UInt8} {s s' : AppState} {h : List (Event Op)}

theorem any_history {α : Type} {x : Handler α} :
    Conforms history x.run h fun _ r => ∀ a, r = .ok a → True :=
  wp_of_forall (fun _ _ => trivial) fun _ _ _ _ => trivial

end Reading

/-! ### Round trips -/

section RoundTrip

variable {E : Env} {dek : Key} {handle : Handle} {value : List UInt8} {s s' : AppState}

end RoundTrip

/-- The log, its entries and the head that pins them. -/
abbrev SampleChain := AuditLog × List AuditEntry × Option PinnedHead

/-- The vault with the secret and a chain. -/
def sampleHeld (current : UInt8) (versions : List SecretVersion) (issued : List Uuid)
    (chain : SampleChain) : AppState := { sampleSpaces with
  auditLog := chain.1
  issued := issued
  store := { sampleSpaces.store with
    secrets := [sampleProd current]
    versions := versions
    auditEntries := chain.2.1
    pinnedHead := chain.2.2 } }

/-- The rotation to another value. -/
def sampleRotate : RotateSecretCommand :=
  ⟨⟨sampleUuid 0x71⟩, sampleHandle, [110, 101, 119], .utf8, 1, sampleKey⟩

/-- The rollback to the first version. -/
def sampleRollback : RollbackSecretCommand := ⟨⟨sampleUuid 0x71⟩, sampleHandle, 1, true⟩

end MerkleVault.Socket.RoundTrip
