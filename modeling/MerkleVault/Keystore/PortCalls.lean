import MerkleVault.App.Host
import MerkleVault.Keystore.FileKeystore
import Mathlib

/-! # The File Keystore Behind the Port

The commands call the keychain through a port, which the model of the node answers for any adapter.
The file keystore is one: each of its calls is a call that the port may answer so.  A store or delete
that fails once the entry was changed in memory is one that failed after its effect.

* `Shows`: the keychain of a node is what the adapter has in memory;
* `call_performed`: one call of the adapter is one call of the port;
* `calls_performed`: a run of calls is a run of the port. -/

namespace MerkleVault.Keystore.PortCalls

open MerkleVault.App.Context hiding Reply
open MerkleVault.App.Host MerkleVault.App.Lifecycle MerkleVault.Keystore.FileKeystore

/-- The keychain has what the adapter has in memory, but for the accounts of its index. -/
def Shows (n : Node) (st : FileKeystoreAdapter) : Prop :=
  ∀ service account, isReserved account = false →
    n.keychain (service, account) = st.inner.lookup (service, account)

/-- What the caller of a port sees of a store or a delete. -/
def seen (r : Except KeychainFailure Unit) : Except KeychainError Reply :=
  (r.mapError (·.error)).map fun _ => .done

/-- A call of the adapter as a call of the port.  Listing the accounts and opening the file are no calls
of commands. -/
inductive Performed (W : World) (n : Node) : Call → Except KeychainError Reply → Node → Prop
  | store {service account : String} {secret : List UInt8} {io : Io} {r : Except KeychainFailure Unit}
      {n' : Node} (h : portExec W (.keychainStore service account secret) n r n') :
      Performed W n (.store service account secret io) (seen r) n'
  | delete {service account : String} {io : Io} {r : Except KeychainFailure Unit} {n' : Node}
      (h : portExec W (.keychainDelete service account) n r n') :
      Performed W n (.delete service account io) (seen r) n'
  | retrieve {service account : String} {r : Except KeychainError (List UInt8)} {n' : Node}
      (h : portExec W (.keychainRetrieve service account) n r n') :
      Performed W n (.retrieve service account) (r.map .secret) n'
  | list {service : String} {r : Except KeychainError Reply} : Performed W n (.list service) r n
  | reopen {fault : Option String} {r : Except KeychainError Reply} : Performed W n (.reopen fault) r n

section

variable {C : Codecs} {passphrase : String} {W : World} {n : Node} {st : FileKeystoreAdapter}

theorem account_ne_sentinel {account : String} (h : isReserved account = false) (service s : String) :
    (s, account) ≠ (service, sentinelAccount service) := fun heq =>
  ne_sentinel h service (Prod.mk.inj heq).2

/-- Keeping the index changes no other account. -/
theorem lookup_indexed {change : List String → Bool × List String} {service account : String}
    {m m' : Entries} (h : indexed C change service account m = .ok m') {s a : String}
    (ha : isReserved a = false) : m'.lookup (s, a) = m.lookup (s, a) := by
  unfold indexed at h
  split at h
  · rw [Except.ok.inj h]
  · split at h
    · cases h
    · split at h
      · rw [Except.ok.inj h]
      · split at h
        · cases h
        · rw [← Except.ok.inj h]
          exact AList.lookup_insert_ne (account_ne_sentinel ha service s)

/-- The rest of a mutation leaves the entries that it was given. -/
theorem lookup_commit {io : Io} {m : Entries} {file : Option (List UInt8)}
    {r : Except KeychainError Entries} (hr : ∀ m', r = .ok m' → ∀ s a, isReserved a = false →
      m'.lookup (s, a) = m.lookup (s, a)) {s a : String} (ha : isReserved a = false) :
    (commit C passphrase io m file r).2.inner.lookup (s, a) = m.lookup (s, a) := by
  cases r with
  | error e => rfl
  | ok m' => exact hr m' rfl s a ha

theorem Shows.insert (h : Shows n st) (service account : String) (secret : List UInt8) {s a : String}
    (ha : isReserved a = false) : (n.setKeychain (service, account) (some secret)).keychain (s, a) =
      (st.inner.insert (service, account) secret).lookup (s, a) := by
  change Function.update n.keychain (service, account) (some secret) (s, a) = _
  by_cases hkey : (s, a) = (service, account)
  · rw [hkey, Function.update_self, AList.lookup_insert]
  · rw [Function.update_of_ne hkey, AList.lookup_insert_ne hkey]
    exact h s a ha

theorem Shows.erase (h : Shows n st) (service account : String) {s a : String}
    (ha : isReserved a = false) : (n.setKeychain (service, account) none).keychain (s, a) =
      (st.inner.erase (service, account)).lookup (s, a) := by
  change Function.update n.keychain (service, account) none (s, a) = _
  by_cases hkey : (s, a) = (service, account)
  · rw [hkey, Function.update_self, AList.lookup_erase]
  · rw [Function.update_of_ne hkey, AList.lookup_erase_ne hkey]
    exact h s a ha

/-- A failure after the entry was changed. -/
def late (r : Except KeychainError Unit) : Except KeychainFailure Unit := r.mapError fun e => ⟨e, true⟩

theorem tookEffect_late (r : Except KeychainError Unit) : tookEffect (late r) = true := by
  cases r <;> rfl

theorem seen_late (r : Except KeychainError Unit) : seen (late r) = r.map fun _ => .done := by
  cases r <;> rfl

/-- **A store** changes the entry whether or not the file is written. -/
theorem store_performed (h : Shows n st) (service account : String) (secret : List UInt8) (io : Io) :
    Performed W n (.store service account secret io)
        ((store C passphrase io service account secret st).1.map fun _ => .done)
        (n.setKeychain (service, account) (some secret)) ∧
      Shows (n.setKeychain (service, account) (some secret))
        (store C passphrase io service account secret st).2 := by
  constructor
  · rw [← seen_late]
    exact .store (.inl ⟨tookEffect_late _, rfl⟩)
  · intro s a ha
    have hstored : ∀ m', storedMap C service account secret st.inner = .ok m' → ∀ s a,
        isReserved a = false → m'.lookup (s, a) =
          (st.inner.insert (service, account) secret).lookup (s, a) :=
      fun m' hm' s a ha => lookup_indexed hm' ha
    rw [h.insert service account secret ha]
    exact (lookup_commit hstored ha).symm

/-- **A delete** of an account that is not there changes nothing; another changes the entry whether or
not the file is written. -/
theorem delete_performed (h : Shows n st) (service account : String) (io : Io) : ∃ n',
    Performed W n (.delete service account io)
        ((delete C passphrase io service account st).1.map fun _ => .done) n' ∧
      Shows n' (delete C passphrase io service account st).2 := by
  unfold delete
  by_cases habsent : (st.inner.lookup (service, account)).isNone = true
  · rw [if_pos habsent]
    have hfailed : Performed W n (.delete service account io) (seen (.error ⟨.notFound, false⟩)) n :=
      .delete (.inr ⟨rfl, rfl⟩)
    exact ⟨n, hfailed, h⟩
  · rw [if_neg habsent]
    refine ⟨n.setKeychain (service, account) none, ?_, fun s a ha => ?_⟩
    · rw [← seen_late]
      exact .delete (.inl ⟨tookEffect_late _, rfl⟩)
    · have hdeleted : ∀ m', deletedMap C service account st.inner = .ok m' → ∀ s a,
          isReserved a = false → m'.lookup (s, a) = (st.inner.erase (service, account)).lookup (s, a) :=
        fun m' hm' s a ha => lookup_indexed hm' ha
      rw [h.erase service account ha]
      exact (lookup_commit hdeleted ha).symm

theorem retrieve_performed (h : Shows n st) {service account : String}
    (hregular : isReserved account = false) :
    Performed W n (.retrieve service account) ((retrieve service account st).map .secret) n := by
  refine .retrieve (.inl ⟨rfl, ?_⟩)
  rw [h service account hregular]
  unfold retrieve
  cases st.inner.lookup (service, account) <;> rfl

/-- No index is read as a secret, and no file opened that lags behind. -/
def Plain (C : Codecs) (passphrase : String) (st : FileKeystoreAdapter) : Call → Prop
  | .retrieve _ account => isReserved account = false
  | .reopen _ => Synced C passphrase st
  | _ => True

/-- **One call of the adapter is one call of the port.** -/
theorem call_performed (h : Shows n st) {call : Call} (hplain : Plain C passphrase st call) : ∃ n',
    Performed W n call (call.apply C passphrase st).1 n' ∧ Shows n' (call.apply C passphrase st).2 := by
  cases call with
  | store service account secret io => exact ⟨_, store_performed h service account secret io⟩
  | delete service account io => exact delete_performed h service account io
  | retrieve service account => exact ⟨n, retrieve_performed h hplain, h⟩
  | list service => exact ⟨n, .list, h⟩
  | reopen fault =>
    refine ⟨n, .reopen, fun s a ha => ?_⟩
    obtain ⟨m, hm, hsame⟩ := hplain
    rw [h s a ha]
    change _ = (reopen C passphrase fault st).2.inner.lookup (s, a)
    unfold reopen
    split
    · rfl
    · next m' hm' =>
      have hfile : openFile C passphrase none st.file = .ok m' := by
        unfold openFile at hm' ⊢
        split at hm'
        · exact hm'
        · split at hm'
          · cases hm'
          · exact hm'
      rw [hm] at hfile
      rw [← Except.ok.inj hfile]
      exact (hsame (s, a)).symm

/-- Calls of the port, one after the other. -/
inductive PerformedAll (W : World) : Node → List Visit → Node → Prop
  | nil {n : Node} : PerformedAll W n [] n
  | cons {n n₁ n' : Node} {v : Visit} {vs : List Visit} (h : Performed W n v.call v.result n₁)
      (hrest : PerformedAll W n₁ vs n') : PerformedAll W n (v :: vs) n'

/-- The adapter after some calls. -/
def afterCalls (C : Codecs) (passphrase : String) (st : FileKeystoreAdapter) (calls : List Call) :
    FileKeystoreAdapter :=
  calls.foldl (fun st call => (call.apply C passphrase st).2) st

/-- **A run of the adapter is a run of the port**, whichever writes of the file fail, as long as the file
is not opened again while it lags behind. -/
theorem calls_performed : ∀ {calls : List Call} {n : Node} {st : FileKeystoreAdapter}
    (stored : StoreKey → Option (List UInt8)), Shows n st →
    (∀ v ∈ visits C passphrase calls st stored, Plain C passphrase v.before v.call) →
    ∃ n', PerformedAll W n (visits C passphrase calls st stored) n' ∧
      Shows n' (afterCalls C passphrase st calls)
  | [], n, st, _, h, _ => ⟨n, .nil, h⟩
  | call :: calls, n, st, stored, h, hplain => by
    obtain ⟨hhead, hrest⟩ := List.forall_mem_cons.mp hplain
    obtain ⟨n₁, hcall, hshows⟩ := call_performed (W := W) h hhead
    obtain ⟨n', hcalls, hshows'⟩ := calls_performed _ hshows hrest
    exact ⟨n', .cons hcall hcalls, hshows'⟩

end

/-- The accounts of the vault are none of the index. -/
theorem vault_accounts_regular : ∀ account ∈ [accountMasterKey, accountVrkMaster, accountVrkRecovery,
    accountMasterPassphraseWrap], isReserved account = false := by decide

end MerkleVault.Keystore.PortCalls
