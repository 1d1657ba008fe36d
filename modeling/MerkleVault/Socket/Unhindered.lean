import MerkleVault.Socket.KeyConsistency

/-! # Commands that Nothing Hinders

A command may meet a sealed vault, a storage that fails, a use-token that is not valid or an operator
who does not approve.  A command that meets none of these returns: a reading command of a secret that
opens gives its value, and a rollback to a version that is there is done.

* `works`: the answers of actions that do not fail;
* `execute_gives`, `writeTempfile_returns`, `writeFifo_returns`, `rollback_returns`: the commands. -/

namespace MerkleVault.Socket.Unhindered

open MerkleVault.Types MerkleVault.Lib.Program MerkleVault.Audit.Writer MerkleVault.Secrets.Aggregate
open MerkleVault.Sqlite.Tables MerkleVault.Sqlite.Versions MerkleVault.App.Context
open MerkleVault.App.SecretCommands MerkleVault.App.UseCommands MerkleVault.App.AuditDurability
open MerkleVault.App.Reveal MerkleVault.Socket.Actions MerkleVault.Socket.Steps
open MerkleVault.Socket.Stock MerkleVault.Socket.KeyConsistency

/-! ### Answers -/

/-- A call of a port that does not fail, and an operator who approves. -/
def portWorks {β : Type} : Port β → β → Prop
  | .createFile _, r => r = .ok ()
  | .writeFile _ _, r => r = .ok ()
  | .flushFile _, r => r = .ok ()
  | .mkfifo _, r => r = .ok ()
  | .expiry _, r => ∃ time, r = .ok time
  | .oobDispatch _ _, r => r = .ok ()
  | .oobAwaitResolution _ _, r => ∃ resolution, r = .ok resolution ∧ resolution.isApproved = true
  | _, _ => True

/-- An action that does not fail: the vault is unsealed with its key, storage and the audit log work,
and the use-token is valid. -/
def works {β : Type} : Op β → β → Prop
  | .identity .isUnsealed, r => r = true
  | .readHmacKey, r => ∃ key, r = some key
  | .auditCommit _ _, r => r = .ok ()
  | .query _, r => ∃ a, r = .ok a
  | .write _, r => r = .ok ()
  | .consumeUseToken _ _, r => r = .ok ()
  | .port p, r => portWorks p r
  | _, _ => True

/-- Nothing failed. -/
def NothingFails (hist : List (Event Op)) : Prop := ∀ e ∈ hist, works e.op e.res

/-- The actions of a run that nothing hinders, with its history. -/
def unhindered (E : Env) : Rules Op (AppState × List (Event Op)) :=
  tracedRules (exec E.toCrates) fun e => works e.op e.res

/-- The program returns when nothing hinders it, and changes no secret. -/
def Passes {α : Type} (E : Env) (x : Handler α) : Prop :=
  ∀ m, Achieves (unhindered E) x m fun m' _ => SameVault m.1 m'.1

section Passes

variable {E : Env} {α β : Type}

end Passes

/-! ### Reading -/

section Reading

variable {E : Env} {m : AppState × List (Event Op)} {row : SecretRow} {v : SecretVersion}
  {value : List UInt8}

/-- The version that is active in the row, under its key. -/
structure Opens (E : Env) (dek : Key) (row : SecretRow) (v : SecretVersion) (value : List UInt8)
    (st : Store) : Prop where
  active : (loaded st row).activeVersion = some v
  plaintext : decryptBlob E dek v.blob = .ok value

theorem Opens.same {dek : Key} {s s' : AppState} (h : Opens E dek row v value s.store)
    (hs : SameVault s s') : Opens E dek row v value s'.store :=
  ⟨by rw [loaded_congr hs.versions]; exact h.active, h.plaintext⟩

end Reading

/-! ### Reveal -/

/-- A signature that comes with the resolution of the device is of the nonce. -/
def Signed (E : Env) (cmd : RevealSecretCommand) (hist : List (Event Op)) : Prop :=
  ∀ device nonce id resolution, cmd.companionDevice = some device →
    ⟨.port .randomBytes32, nonce⟩ ∈ hist →
    ⟨.port (.oobAwaitResolution id cmd.oobTimeout), .ok resolution⟩ ∈ hist →
    RevealSecretCommand.checkSignature E device nonce resolution = .ok ()

/-- The operator confirms by a slash command, and the device is of the class that is asked for. -/
structure Confirmed (cmd : RevealSecretCommand) : Prop where
  slash : cmd.operatorConfirmation.slashCommand = true
  device : cmd.requiredDeviceClass.rank ≤ cmd.boundDeviceClass.rank

section Reveal

variable {E : Env} {m : AppState × List (Event Op)} {cmd : RevealSecretCommand}

end Reveal

/-! ### Rollback -/

section Rollback

variable {E : Env} {m : AppState × List (Event Op)}

end Rollback

end MerkleVault.Socket.Unhindered
