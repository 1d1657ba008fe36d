import MerkleVault.App.BackupScheduler
import MerkleVault.Lib.FormUrlencoded

/-! # The Key Pair of Backups

Backups are encrypted to a master recipient.  The recipient and its identity are two items of the
keychain: a call that finds no recipient generates a pair and stores the identity, then the recipient.
Nothing keeps two calls from doing that at once.

* `ensureMasterRecipient_yields`: what a call stores, and where the recipient that it returns is from;
* `Paired.step`: what keeps the two items a pair;
* `recipients_agree`: in runs where no other call comes between the stores of a pair, the items agree
  and every recipient returned is that of the stored identity. -/

namespace MerkleVault.App.BackupKeys

open MerkleVault.Types MerkleVault.Lib.Program MerkleVault.App.Context MerkleVault.App.Lifecycle
open MerkleVault.App.Host MerkleVault.App.BackupCommands MerkleVault.App.BackupScheduler
open MerkleVault.App.Restore MerkleVault.App.AuditDurability MerkleVault.External

/-! ### The two items -/

/-- The item of the backup master recipient. -/
def recipientItem : String × String := (keychainService, accountBackupMasterRecipient)

/-- The item of the backup master identity. -/
def identityItem : String × String := (keychainService, accountBackupMasterIdentity)

theorem items_differ : identityItem ≠ recipientItem := by decide

/-- `str::as_bytes`. -/
def asBytes (s : String) : List UInt8 := s.toUTF8.data.toList

theorem asBytes_injective : Function.Injective asBytes := Lib.Ascii.utf8_injective

/-! ### The calls -/

/-- What a call for backup keys returns. -/
inductive KeyReply
  | recipients (master recovery : String)
  | identity (identity : String)
deriving DecidableEq

/-- A program that answers with backup keys. -/
abbrev KeyHandler := NodeHandler KeyReply

variable (W : World)

/-- The recipients of a backup. -/
def resolved : KeyHandler := do
  let (master, recovery) ← resolveDualRecipients W
  return .recipients master recovery

/-- The identity that opens a backup. -/
def loaded : KeyHandler := do
  return .identity (← loadMasterIdentity W)

/-- The calls that run in any order. -/
inductive KeyCall : Prog NodeOp (Except NodeError KeyReply) → Prop
  | resolve : KeyCall (resolved W).run
  | load : KeyCall (loaded W).run

/-- Any number of calls over one keychain. -/
def keyCalls : System Node NodeOp (Except NodeError KeyReply) where
  exec := nodeExec W
  starts := KeyCall W
  restart _ _ := False

/-- The host, the calls under way and what they have returned. -/
abbrev KeyConfig := Config Node NodeOp (Except NodeError KeyReply)

/-! ### What a call has done -/

/-- What a store has put into an item, also one that failed after its effect. -/
def storesItem (item : String × String) {β : Type} : Port β → β → Option (List UInt8)
  | .keychainStore service account value, r =>
    if tookEffect r = true ∧ (service, account) = item then some value else none
  | _, _ => none

/-- What a call has found in an item, or put there. -/
def showsItem (item : String × String) {β : Type} : Port β → β → Option (List UInt8)
  | .keychainRetrieve service account, .ok value =>
    if (service, account) = item then some value else none
  | p, r => storesItem item p r

/-- The values that were stored under an item. -/
def stored (item : String × String) (hist : List (Event NodeOp)) : List (List UInt8) :=
  collect (ofApp none (ofPort none (storesItem item))) hist

/-- The values that were read under an item. -/
def shown (item : String × String) (hist : List (Event NodeOp)) : List (List UInt8) :=
  collect (ofApp none (ofPort none (showsItem item))) hist

/-- The identity that the call has stored. -/
def ownIdentity (hist : List (Event NodeOp)) : Option (List UInt8) := (stored identityItem hist).getLast?

/-- No call comes between the stores of another: an identity is stored only while there is no
recipient, a recipient only while the identity there is the one that the call has stored.  A store
that fails after its effect has stored. -/
def undisturbed : Guard Node NodeOp := fun hist n e =>
  (ofApp none (ofPort none (storesItem identityItem)) e.op e.res ≠ none →
    n.keychain recipientItem = none) ∧
  (ofApp none (ofPort none (storesItem recipientItem)) e.op e.res ≠ none →
    n.keychain identityItem = ownIdentity hist)

/-! ### Conformance -/

/-- Which ports a call uses: the identity is stored first, and the recipient of that one after it. -/
def mayCall (hist : List (Event NodeOp)) {β : Type} : Port β → Prop
  | .keychainStore service account value => ∃ identity,
      (service, account) = identityItem ∧ value = asBytes identity ∨
      (service, account) = recipientItem ∧ ownIdentity hist = some (asBytes identity) ∧
        value = asBytes (W.agePublic identity)
  | .keychainRetrieve _ _ => True
  | .recoveryPubkey => True
  | _ => False

/-- The actions of the application that a call takes, by what it did before. -/
def mayTakeOp (hist : List (Event NodeOp)) {β : Type} : Op β → Prop
  | .port p => mayCall W hist p
  | _ => False

/-- The generation of an identity. -/
def generates {β : Type} : VaultOp β → Prop
  | .generateAgeIdentity => True
  | _ => False

/-- The actions that a call takes, by what it did before. -/
def mayTake (hist : List (Event NodeOp)) {β : Type} : NodeOp β → Prop
  | .app op => mayTakeOp W hist op
  | .vault op => generates op

/-- The rules of one call, over its own history. -/
def keyCall : Monitor NodeOp (List (Event NodeOp)) where
  init := []
  allowed hist op := mayTake W hist op
  expects _ _ _ := True
  next hist op r := hist ++ [⟨op, r⟩]

theorem keyCall_after (hist : List (Event NodeOp)) : (keyCall W).after hist = hist := by
  induction hist using List.reverseRecOn with
  | nil => rfl
  | append_singleton hist e ih =>
    rw [Monitor.after_concat, ih]
    rfl

/-- The recipient is what the call has found or put into its item. -/
def FromItem (hist : List (Event NodeOp)) (master : String) : Prop :=
  ∃ bytes ∈ shown recipientItem hist, bytes = asBytes master ∨
    ∃ text, W.fromUtf8 bytes = .ok text ∧ master = String.ofList (trim text.toList)

variable {W} {hist : List (Event NodeOp)}

theorem mem_shown_concat {item : String × String} {e : Event NodeOp} {bytes : List UInt8}
    (h : ofApp none (ofPort none (showsItem item)) e.op e.res = some bytes) :
    bytes ∈ shown item (hist ++ [e]) := by
  rw [shown, collect_concat, h]
  exact List.mem_append_right _ List.mem_cons_self

theorem ownIdentity_concat {e : Event NodeOp} {bytes : List UInt8}
    (h : ofApp none (ofPort none (storesItem identityItem)) e.op e.res = some bytes) :
    ownIdentity (hist ++ [e]) = some bytes := by
  rw [ownIdentity, stored, collect_concat, h]
  exact List.getLast?_concat

theorem ageText_yields {item start : String} {bytes : List UInt8}
    (h : bytes ∈ shown recipientItem hist) :
    Yields (keyCall W).rules (ageText W item start bytes) hist fun hist' master =>
      FromItem W hist' master := by
  refine yields_bind (yields_ofExcept (P := fun hist' text => hist' = hist ∧
    W.fromUtf8 bytes = .ok text) fun text htext => ⟨rfl, htext⟩) ?_
  rintro _ text ⟨rfl, htext⟩
  dsimp only
  split_ifs
  · exact yields_throw _
  · exact yields_pure ⟨bytes, h, .inr ⟨text, htext, rfl⟩⟩

/-- A generated pair: the recipient returned is the one stored. -/
theorem generateAndStoreMasterIdentity_yields :
    Yields (keyCall W).rules (generateAndStoreMasterIdentity W) hist fun hist' master =>
      FromItem W hist' master := by
  refine yields_bind (yields_call (P := fun _ _ => True) trivial fun _ _ _ => trivial) ?_
  rintro h₁ identity -
  refine yields_bind (yields_attempt (P := fun h₂ (_ : Unit) =>
    ownIdentity h₂ = some (asBytes identity)) ⟨identity, .inl ⟨rfl, rfl⟩⟩ ?_) ?_
  · rintro ⟨⟩ _ ⟨-, rfl⟩
    exact ownIdentity_concat rfl
  rintro h₂ ⟨⟩ hown
  refine yields_bind (yields_attempt (P := fun h₃ (_ : Unit) =>
    asBytes (W.agePublic identity) ∈ shown recipientItem h₃)
    ⟨identity, .inr ⟨rfl, hown, rfl⟩⟩ ?_) ?_
  · rintro ⟨⟩ _ ⟨-, rfl⟩
    exact mem_shown_concat rfl
  rintro h₃ ⟨⟩ hshown
  exact yields_pure ⟨_, hshown, .inl rfl⟩

theorem ensureMasterRecipient_yields :
    Yields (keyCall W).rules (ensureMasterRecipient W) hist fun hist' master =>
      FromItem W hist' master := by
  refine yields_bind (yields_call (P := fun h₁ r => ∀ bytes, r = .ok bytes →
    bytes ∈ shown recipientItem h₁) trivial ?_) ?_
  · rintro r _ ⟨-, rfl⟩ bytes rfl
    exact mem_shown_concat rfl
  intro h₁ r hr
  match r with
  | .ok bytes => exact ageText_yields (hr bytes rfl)
  | .error .notFound => exact generateAndStoreMasterIdentity_yields
  | .error .permissionDenied => exact yields_throw _
  | .error (.persistenceFailed _ _) => exact yields_throw _
  | .error (.backend _) => exact yields_throw _

theorem recoveryRecipient_yields :
    Yields (keyCall W).rules recoveryRecipient hist fun _ _ => True := by
  refine yields_bind (yields_call (P := fun _ _ => True) trivial fun _ _ _ => trivial) ?_
  rintro h₁ recovery -
  dsimp only
  split_ifs
  · exact yields_throw _
  · exact yields_pure trivial

/-- A returned pair of recipients is the master recipient of the item and the recovery one. -/
def Returns (hist : List (Event NodeOp)) (r : Except NodeError KeyReply) : Prop :=
  ∀ master recovery, r = .ok (.recipients master recovery) → FromItem W hist master

theorem resolved_conforms : Conforms (keyCall W) (resolved W).run hist (Returns (W := W)) := by
  have hresolve : Yields (keyCall W).rules (resolveDualRecipients W) hist fun hist' pair =>
      FromItem W hist' pair.1 := by
    refine yields_bind recoveryRecipient_yields ?_
    rintro h₁ recovery -
    refine yields_bind ensureMasterRecipient_yields ?_
    intro h₂ master hmaster
    split_ifs
    · exact yields_throw _
    · exact yields_pure hmaster
  have h : Yields (keyCall W).rules (resolved W) hist fun hist' reply => ∀ master recovery,
      reply = .recipients master recovery → FromItem W hist' master := by
    refine yields_bind hresolve ?_
    rintro h₁ ⟨master, recovery⟩ hmaster
    refine yields_pure ?_
    rintro _ _ h
    obtain ⟨rfl, -⟩ := KeyReply.recipients.inj h
    exact hmaster
  exact Wp.mono (fun _ r hr master recovery hret => hr _ hret master recovery rfl) h

theorem loaded_conforms : Conforms (keyCall W) (loaded W).run hist (Returns (W := W)) := by
  have hload : Yields (keyCall W).rules (loadMasterIdentity W) hist fun _ _ => True := by
    refine yields_bind ensureMasterRecipient_yields ?_
    rintro h₁ master -
    refine yields_bind (yields_call (P := fun _ _ => True) trivial fun _ _ _ => trivial) ?_
    rintro h₂ r -
    match r with
    | .ok bytes =>
      refine yields_bind (yields_ofExcept (P := fun _ _ => True) fun _ _ => trivial) ?_
      rintro h₃ text -
      dsimp only
      split_ifs
      · exact yields_throw _
      · exact yields_pure trivial
    | .error .notFound => exact yields_throw _
    | .error .permissionDenied => exact yields_throw _
    | .error (.persistenceFailed _ _) => exact yields_throw _
    | .error (.backend _) => exact yields_throw _
  have h : Yields (keyCall W).rules (loaded W) hist fun _ reply => ∀ master recovery,
      reply ≠ .recipients master recovery := by
    refine yields_bind hload ?_
    rintro h₁ identity -
    exact yields_pure fun _ _ h => nomatch h
  exact Wp.mono (fun _ r hr master recovery hret => absurd rfl (hr _ hret master recovery)) h

theorem call_conforms {p : Prog NodeOp (Except NodeError KeyReply)} (hp : KeyCall W p) :
    Conforms (keyCall W) p [] (Returns (W := W)) := by
  cases hp with
  | resolve => exact resolved_conforms
  | load => exact loaded_conforms

/-! ### The pair in the keychain -/

/-- A stored recipient is that of the stored identity. -/
def Agrees (W : World) (n : Node) : Prop := ∀ bytes, n.keychain recipientItem = some bytes →
  ∃ identity, bytes = asBytes (W.agePublic identity) ∧
    n.keychain identityItem = some (asBytes identity)

/-- The items agree, and what the calls have seen of the recipient is still there. -/
structure Paired (W : World) (n : Node) (hists : List (List (Event NodeOp))) : Prop where
  agrees : Agrees W n
  seen : ∀ h ∈ hists, ∀ bytes ∈ shown recipientItem h, n.keychain recipientItem = some bytes

variable {n n' : Node} {hists : List (List (Event NodeOp))} {β : Type} {i : ℕ}

theorem mem_shown {item : String × String} {e : Event NodeOp} {bytes : List UInt8}
    (h : bytes ∈ shown item (hist ++ [e])) : bytes ∈ shown item hist ∨
      ofApp none (ofPort none (showsItem item)) e.op e.res = some bytes := by
  rw [shown, collect_concat] at h
  exact (List.mem_append.mp h).imp_right Option.mem_toList.mp

/-- A step that leaves the keychain and shows what the recipient's item holds. -/
theorem Paired.same (h : Paired W n hists) (hi : hists[i]? = some hist) {e : Event NodeOp}
    (hkeychain : n'.keychain = n.keychain)
    (hshows : ∀ bytes, ofApp none (ofPort none (showsItem recipientItem)) e.op e.res = some bytes →
      n.keychain recipientItem = some bytes) : Paired W n' (hists.set i (hist ++ [e])) := by
  refine ⟨?_, fun hist' hmem bytes hbytes => ?_⟩
  · rw [Agrees, hkeychain]
    exact h.agrees
  rw [hkeychain]
  rcases List.mem_or_eq_of_mem_set hmem with hmem | rfl
  · exact h.seen hist' hmem bytes hbytes
  rcases mem_shown hbytes with hold | hnew
  · exact h.seen hist (List.mem_of_getElem? hi) bytes hold
  · exact hshows bytes hnew

/-- An identity stored while there is no recipient. -/
theorem Paired.storeIdentity (h : Paired W n hists) (hi : hists[i]? = some hist) {e : Event NodeOp}
    {bytes : List UInt8} (hnone : n.keychain recipientItem = none)
    (hkeychain : n'.keychain = Function.update n.keychain identityItem (some bytes))
    (hshows : ofApp none (ofPort none (showsItem recipientItem)) e.op e.res = none) :
    Paired W n' (hists.set i (hist ++ [e])) := by
  have hnone' : n'.keychain recipientItem = none := by
    rw [hkeychain, Function.update_of_ne items_differ.symm]
    exact hnone
  refine ⟨fun bytes hbytes => ?_, fun hist' hmem bytes hbytes => ?_⟩
  · rw [hnone'] at hbytes
    cases hbytes
  -- Nothing has been seen of a recipient that is not there.
  have hunseen : ∀ h' ∈ hists, bytes ∉ shown recipientItem h' := by
    intro h' hmem' hin
    have hsome := h.seen h' hmem' bytes hin
    rw [hnone] at hsome
    cases hsome
  rcases List.mem_or_eq_of_mem_set hmem with hmem | rfl
  · exact absurd hbytes (hunseen hist' hmem)
  rcases mem_shown hbytes with hold | hnew
  · exact absurd hold (hunseen hist (List.mem_of_getElem? hi))
  · rw [hshows] at hnew
    cases hnew

/-- The recipient of the identity that is there. -/
theorem Paired.storeRecipient (h : Paired W n hists) (hi : hists[i]? = some hist) {e : Event NodeOp}
    {identity : String} (hown : n.keychain identityItem = some (asBytes identity))
    (hkeychain : n'.keychain =
      Function.update n.keychain recipientItem (some (asBytes (W.agePublic identity))))
    (hshows : ofApp none (ofPort none (showsItem recipientItem)) e.op e.res =
      some (asBytes (W.agePublic identity))) : Paired W n' (hists.set i (hist ++ [e])) := by
  have hrecipient : n'.keychain recipientItem = some (asBytes (W.agePublic identity)) := by
    rw [hkeychain, Function.update_self]
  have hidentity : n'.keychain identityItem = some (asBytes identity) := by
    rw [hkeychain, Function.update_of_ne items_differ]
    exact hown
  refine ⟨fun bytes hbytes => ⟨identity, ?_, hidentity⟩, fun hist' hmem bytes hbytes => ?_⟩
  · exact Option.some.inj (hbytes.symm.trans hrecipient)
  rw [hrecipient]
  -- A recipient seen before is that of the same identity.
  have hsame : ∀ h' ∈ hists, bytes ∈ shown recipientItem h' →
      bytes = asBytes (W.agePublic identity) := by
    intro h' hmem' hin
    obtain ⟨identity', hbytes', hid⟩ := h.agrees bytes (h.seen h' hmem' bytes hin)
    have heq : asBytes identity = asBytes identity' := Option.some.inj (hown.symm.trans hid)
    rw [hbytes', asBytes_injective heq]
  rcases List.mem_or_eq_of_mem_set hmem with hmem | rfl
  · rw [hsame hist' hmem hbytes]
  rcases mem_shown hbytes with hold | hnew
  · rw [hsame hist (List.mem_of_getElem? hi) hold]
  · exact hshows.symm.trans hnew

/-- What a retrieve shows is there. -/
theorem shows_retrieved {service account : String} {r : Except KeychainError (List UInt8)}
    {item : String × String} {bytes : List UInt8}
    (hx : portExec W (.keychainRetrieve service account) n r n')
    (hshows : showsItem item (.keychainRetrieve service account) r = some bytes) :
    n.keychain item = some bytes := by
  cases r with
  | error e => cases hshows
  | ok value =>
    simp only [showsItem] at hshows
    split_ifs at hshows with hitem
    obtain rfl := Option.some.inj hshows
    rw [← hitem]
    obtain ⟨-, h⟩ | ⟨-, e, -, he⟩ := hx
    · split at h
      · next value' hvalue =>
        obtain rfl := Except.ok.inj h
        exact hvalue
      · cases h
    · cases he

/-- **What keeps the items a pair**: the steps of calls, none of which comes between the stores of
another. -/
theorem Paired.step (h : Paired W n hists) (hi : hists[i]? = some hist) {op : NodeOp β} {r : β}
    (hop : mayTake W hist op) (hx : nodeExec W op n r n') (hg : undisturbed hist n ⟨op, r⟩) :
    Paired W n' (hists.set i (hist ++ [⟨op, r⟩])) := by
  have hsilent : ∀ bytes, (none : Option (List UInt8)) = some bytes →
      n.keychain recipientItem = some bytes := fun _ hb => nomatch hb
  cases op with
  | vault op =>
    cases op with
    | generateAgeIdentity =>
      obtain rfl : n' = n := hx
      exact h.same hi rfl hsilent
    | _ => exact hop.elim
  | app op =>
    cases op with
    | port p =>
      cases p with
      | recoveryPubkey =>
        obtain rfl : n' = n := hx.1
        exact h.same hi rfl hsilent
      | keychainRetrieve service account =>
        change portExec W (.keychainRetrieve service account) n r n' at hx
        refine h.same hi (by rw [keychainRetrieve_same hx]) fun bytes hbytes => ?_
        exact shows_retrieved hx hbytes
      | keychainStore service account value =>
        change portExec W (.keychainStore service account value) n r n' at hx
        have hstores : ∀ {item : String × String}, tookEffect r = true → (service, account) = item →
            storesItem item (.keychainStore service account value) r = some value :=
          fun htook hitem => if_pos ⟨htook, hitem⟩
        have hother : ∀ {item : String × String}, ¬(tookEffect r = true ∧ (service, account) = item) →
            storesItem item (.keychainStore service account value) r = none := fun hitem => if_neg hitem
        rcases hx with ⟨htook, rfl⟩ | ⟨htook, rfl⟩
        · obtain ⟨identity, ⟨hitem, rfl⟩ | ⟨hitem, hown, rfl⟩⟩ := hop
          · have hnone := hg.1 (ne_of_eq_of_ne (hstores htook hitem) (Option.some_ne_none _))
            obtain ⟨rfl, rfl⟩ := Prod.mk.inj hitem
            exact h.storeIdentity hi hnone rfl (hother fun h => absurd h.2 items_differ)
          · have hthere := hg.2 (ne_of_eq_of_ne (hstores htook hitem) (Option.some_ne_none _))
            have hshows := hstores htook hitem
            obtain ⟨rfl, rfl⟩ := Prod.mk.inj hitem
            exact h.storeRecipient hi (hthere.trans hown) rfl hshows
        · refine h.same hi rfl fun bytes hbytes => ?_
          have hnone : storesItem recipientItem (.keychainStore service account value) r = none :=
            hother fun h => by simp [htook] at h
          exact absurd (hnone.symm.trans hbytes) (Option.some_ne_none bytes).symm
      | _ => exact hop.elim
    | _ => exact hop.elim

/-! ### Runs of the calls -/

/-- When no call is in progress and both items are there, the recipient is that of the identity; and
so is, at any time, every recipient that was returned. -/
structure KeysAgree (W : World) (c : KeyConfig) : Prop where
  items : ∀ identity recipient, c.state.keychain identityItem = some identity →
    c.state.keychain recipientItem = some recipient → (∀ t ∈ c.tasks, t.Ended) →
      ∃ text, identity = asBytes text ∧ recipient = asBytes (W.agePublic text)
  returned : ∀ t ∈ c.tasks, ∀ master recovery, t.prog = .ret (.ok (.recipients master recovery)) →
    ∃ text, c.state.keychain identityItem = some (asBytes text) ∧ master = W.agePublic text

theorem paired_of_reachable {n₀ : Node} (hempty : ∀ item, n₀.keychain item = none) {c : KeyConfig}
    (h : Reachable (keyCalls W) undisturbed n₀ c) :
    Paired W c.state (c.tasks.map (·.hist)) ∧
      ∀ t ∈ c.tasks, Conforms (keyCall W) t.prog t.hist (Returns (W := W)) := by
  have hrule := h.rule (keyCall W) (fun _ hist r => Returns (W := W) hist r) (Paired W)
    ⟨fun bytes hbytes => by simp [hempty] at hbytes, by simp⟩
    (fun p hp => call_conforms hp)
    (by
      intro n hists hpaired
      refine ⟨hpaired.agrees, fun hist hmem bytes hbytes => ?_⟩
      rcases List.mem_append.mp hmem with hmem | hmem
      · exact hpaired.seen hist hmem bytes hbytes
      · rw [List.mem_singleton.mp hmem] at hbytes
        cases hbytes)
    (by
      intro β op hist n n' r hists i hpaired hi hop hx hg
      refine ⟨trivial, ?_⟩
      simp only [keyCall_after] at hi hop ⊢
      exact hpaired.step hi hop hx hg)
    (fun _ h => False.elim h)
  simpa only [monitors, keyCall_after] using hrule

/-- **The key pair of backups.**  In every run of calls from an empty keychain where no call comes
between the stores of another, the items agree, and every recipient returned is that of the stored
identity. -/
theorem recipients_agree (W : World) (hutf8 : ∀ text, W.fromUtf8 (asBytes text) = .ok text)
    (htrim : ∀ identity, trim (W.agePublic identity).toList = (W.agePublic identity).toList)
    (n₀ : Node) (hempty : ∀ item, n₀.keychain item = none) (c : KeyConfig)
    (h : Reachable (keyCalls W) undisturbed n₀ c) : KeysAgree W c := by
  obtain ⟨hpaired, hconf⟩ := paired_of_reachable hempty h
  refine ⟨fun identity recipient hid hrec _ => ?_, fun t ht master recovery hend => ?_⟩
  · obtain ⟨text, hbytes, hstored⟩ := hpaired.agrees recipient hrec
    exact ⟨text, Option.some.inj (hid.symm.trans hstored), hbytes⟩
  have hreturns := hconf t ht
  rw [hend] at hreturns
  obtain ⟨bytes, hshown, hfrom⟩ := hreturns master recovery rfl
  have hrec := hpaired.seen t.hist (List.mem_map_of_mem ht) bytes hshown
  obtain ⟨text, rfl, hstored⟩ := hpaired.agrees bytes hrec
  refine ⟨text, hstored, ?_⟩
  rcases hfrom with hbytes | ⟨read, hread, rfl⟩
  · exact (asBytes_injective hbytes).symm
  · obtain rfl := Except.ok.inj ((hutf8 (W.agePublic text)).symm.trans hread)
    rw [htrim, String.ofList_toList]

/-! ### Calls that overlap -/

/-- Recipients without white space, and texts that are decoded as they were encoded. -/
def keyWorld : World := { sampleWorld samplePayload₀ with
  agePublic := fun identity =>
    String.ofList ("age1".toList ++ (identity.toList.drop 16).filter fun c => !isWhiteSpace c)
  fromUtf8 := fun bytes =>
    match String.fromUTF8? ⟨bytes.toArray⟩ with
    | some text => .ok text
    | none => .error "utf-8" }

theorem keyWorld_fromUtf8 (text : String) : keyWorld.fromUtf8 (asBytes text) = .ok text := by
  have h : String.fromUTF8? ⟨(asBytes text).toArray⟩ = some text := Lib.Ascii.fromUTF8?_toUTF8 text
  simp only [keyWorld, h]

theorem trim_of_forall {cs : List Char} (h : ∀ c ∈ cs, isWhiteSpace c = false) : trim cs = cs := by
  have hdrop : ∀ {ds : List Char}, (∀ c ∈ ds, isWhiteSpace c = false) →
      ds.dropWhile isWhiteSpace = ds := by
    intro ds hds
    cases ds with
    | nil => rfl
    | cons c ds =>
      have hc := hds c List.mem_cons_self
      rw [List.dropWhile_cons, hc]
      rfl
  have hrev : ∀ c ∈ cs.reverse, isWhiteSpace c = false := fun c hc => h c (List.mem_reverse.mp hc)
  rw [trim, hdrop h, hdrop hrev, List.reverse_reverse]

theorem keyWorld_trim (identity : String) :
    trim (keyWorld.agePublic identity).toList = (keyWorld.agePublic identity).toList := by
  refine trim_of_forall fun c hc => ?_
  simp only [keyWorld, String.toList_ofList, List.mem_append, List.mem_filter] at hc
  rcases hc with hc | ⟨-, hc⟩
  · have hprefix : "age1".toList.all (fun c => !isWhiteSpace c) = true := by decide +kernel
    simpa using List.all_eq_true.mp hprefix c hc
  · simpa using hc

/-- A new vault with a recovery recipient. -/
def sampleNew : Node where
  app := sampleState
  keychain _ := none
  files _ := none
  recoveryPubkey := "age1recovery"
  backups := []
  restorePlans := []
  initLocked := false

/-- An identity. -/
def sampleIdentity : String := "AGE-SECRET-KEY-1A"

/-- Another identity. -/
def sampleOther : String := "AGE-SECRET-KEY-1B"

theorem sample_recipients : keyWorld.agePublic sampleIdentity = "age1A" ∧
    keyWorld.agePublic sampleOther = "age1B" := by decide +kernel

/-- One call alone stores a pair and returns its recipient. -/
theorem one_call_agrees : ∃ (c : KeyConfig) (t : Task NodeOp (Except NodeError KeyReply)),
    Reachable (keyCalls keyWorld) undisturbed sampleNew c ∧ t ∈ c.tasks ∧
    t.prog = .ret (.ok (.recipients "age1A" "age1recovery")) ∧ KeysAgree keyWorld c := by
  let n₁ := sampleNew.setKeychain identityItem (some (asBytes sampleIdentity))
  let n₂ := n₁.setKeychain recipientItem (some (asBytes (keyWorld.agePublic sampleIdentity)))
  have hsilent : ∀ {n : Node} {hist : List (Event NodeOp)} {e : Event NodeOp},
      ofApp none (ofPort none (storesItem identityItem)) e.op e.res = none →
      ofApp none (ofPort none (storesItem recipientItem)) e.op e.res = none → undisturbed hist n e :=
    fun hi hr => ⟨fun h => absurd hi h, fun h => absurd hr h⟩
  have h₀ := Reachable.here (keyCalls keyWorld) undisturbed sampleNew
  have h₁ := h₀.start _ .resolve
  have h₂ := h₁.act 0 rfl "age1recovery" sampleNew ⟨rfl, rfl⟩ (hsilent rfl rfl)
  have h₃ := h₂.act 0 rfl (.error .notFound) sampleNew (.inl ⟨rfl, rfl⟩) (hsilent rfl rfl)
  have h₄ := h₃.act 0 rfl sampleIdentity sampleNew rfl (hsilent rfl rfl)
  have h₅ := h₄.act 0 rfl (.ok ()) n₁ (.inl ⟨rfl, rfl⟩) ⟨fun _ => rfl, fun h => absurd rfl h⟩
  have h₆ := h₅.act 0 rfl (.ok ()) n₂ (.inl ⟨rfl, rfl⟩) ⟨fun h => absurd rfl h, fun _ => rfl⟩
  refine ⟨_, _, h₆, List.mem_cons_self, ?_,
    recipients_agree keyWorld keyWorld_fromUtf8 keyWorld_trim sampleNew (fun _ => rfl) _ h₆⟩
  rfl

/-- **Two calls that overlap** store the identity of one and the recipient of the other, and the
backups encrypted to a recipient that was returned have no identity. -/
theorem overlapping_calls_disagree : ¬ ∀ (W : World),
    (∀ text, W.fromUtf8 (asBytes text) = .ok text) →
    (∀ identity, trim (W.agePublic identity).toList = (W.agePublic identity).toList) →
    ∀ n₀ : Node, (∀ item, n₀.keychain item = none) → ∀ c : KeyConfig,
      Reachable (keyCalls W) unguarded n₀ c → KeysAgree W c := by
  intro hagree
  let n₁ := sampleNew.setKeychain identityItem (some (asBytes sampleIdentity))
  let n₂ := n₁.setKeychain identityItem (some (asBytes sampleOther))
  let n₃ := n₂.setKeychain recipientItem (some (asBytes (keyWorld.agePublic sampleOther)))
  let n₄ := n₃.setKeychain recipientItem (some (asBytes (keyWorld.agePublic sampleIdentity)))
  have h₀ := Reachable.here (keyCalls keyWorld) unguarded sampleNew
  have h₁ := h₀.start _ .resolve
  have h₂ := h₁.start _ .resolve
  have h₃ := h₂.act 0 rfl "age1recovery" sampleNew ⟨rfl, rfl⟩ trivial
  have h₄ := h₃.act 1 rfl "age1recovery" sampleNew ⟨rfl, rfl⟩ trivial
  have h₅ := h₄.act 0 rfl (.error .notFound) sampleNew (.inl ⟨rfl, rfl⟩) trivial
  have h₆ := h₅.act 1 rfl (.error .notFound) sampleNew (.inl ⟨rfl, rfl⟩) trivial
  have h₇ := h₆.act 0 rfl sampleIdentity sampleNew rfl trivial
  have h₈ := h₇.act 1 rfl sampleOther sampleNew rfl trivial
  have h₉ := h₈.act 0 rfl (.ok ()) n₁ (.inl ⟨rfl, rfl⟩) trivial
  have h₁₀ := h₉.act 1 rfl (.ok ()) n₂ (.inl ⟨rfl, rfl⟩) trivial
  have h₁₁ := h₁₀.act 1 rfl (.ok ()) n₃ (.inl ⟨rfl, rfl⟩) trivial
  have h₁₂ := h₁₁.act 0 rfl (.ok ()) n₄ (.inl ⟨rfl, rfl⟩) trivial
  have h := hagree keyWorld keyWorld_fromUtf8 keyWorld_trim sampleNew (fun _ => rfl) _ h₁₂
  obtain ⟨text, hstored, hmaster⟩ := h.returned _ List.mem_cons_self "age1A" "age1recovery" rfl
  obtain rfl : sampleOther = text := asBytes_injective (Option.some.inj hstored)
  rw [sample_recipients.2] at hmaster
  exact absurd hmaster (by decide)

end MerkleVault.App.BackupKeys
