import MerkleVault.Policy.Agreement
import MerkleVault.Socket.Handlers

/-! # Reveals over the Socket and the Rego Policies

The agent runs neither the packages nor the evaluator that mirrors them: a reveal checks its slash
command, the seal, the policy of the namespace and its challenge one after the other, while other
clients change what it reads.

* `Cleared`: what a reveal that answered has gone through;
* `reveal_permitted`: the packages allow the document of what it read, and deny nothing. -/

namespace MerkleVault.Policy.Reveals

open MerkleVault.Types MerkleVault.External MerkleVault.Lib.Program MerkleVault.Identity
open MerkleVault.Sqlite.Tables MerkleVault.App.Context MerkleVault.App.SecretCommands
open MerkleVault.App.Reveal MerkleVault.Socket.Gate MerkleVault.Socket.Handlers
open MerkleVault.App.IdentitySections MerkleVault.App.AuditDurability MerkleVault.App.AuditCoverage
open MerkleVault.Audit.Integrity
open MerkleVault.Policy.Agreement (stateName sensitivityOrdinal_display)

/-! ### Documents -/

/-- What the two packages about reveals see of a request. -/
def document (q : RevealRequest) (sensitivity : Sensitivity) (policy : NamespacePolicy)
    (oobAck : Bool) : Rego.RevealInput :=
  ⟨AuditOp.reveal.display, sensitivity.display, q.slashCommand, oobAck, policy.reveal.allowed,
    some policy.reveal.requireOobAbove.display⟩

/-- The policy that governs a namespace: the balanced one where none is stored. -/
def governing (namespaceId : NamespaceId) (policy : Option NamespacePolicy) : NamespacePolicy :=
  policy.getD (.balanced namespaceId)

/-- What a reveal went through: the policy that it read lets secrets be revealed, and its challenge
was approved where one is needed. -/
structure Cleared (handle : Handle) (namespaceId : NamespaceId) (sensitivity : Sensitivity)
    (policy : Option NamespacePolicy) (oobAck : Bool) (h : List (Event Op)) : Prop where
  read : ⟨.query (.getNamespacePolicy namespaceId), .ok policy⟩ ∈ h
  allowed : (governing namespaceId policy).reveal.allowed = true
  asked : needsOob sensitivity (governing namespaceId policy).reveal.requireOobAbove
    (governing namespaceId policy).securityProfile = true → oobAck = true
  approved : oobAck = true → ∃ cmd : RevealSecretCommand, cmd.handle = handle ∧ OobApproved cmd h

/-- The seal was seen open, and the row of the secret was read. -/
structure Shown (q : RevealRequest) (row : SecretRow) (policy : Option NamespacePolicy)
    (oobAck : Bool) (h : List (Event Op)) : Prop where
  slash : q.slashCommand = true
  unsealed : ⟨.identity .isUnsealed, true⟩ ∈ h
  secret : ⟨.query (.selectSecretRow q.handle), .ok (some row)⟩ ∈ h
  cleared : Cleared q.handle row.namespaceId row.sensitivity policy oobAck h

variable {E : Env} {h h' : List (Event Op)} {q : RevealRequest} {row : SecretRow}
  {policy : Option NamespacePolicy} {oobAck : Bool}

/-! ### The history of a reveal -/

theorem runApp_history {α : Type} {x : Handler α} {F : List (Event Op) → α → Prop}
    (hx : Conforms history x.run h fun h' r => ∀ a, r = .ok a → F h' a) :
    Conforms history (runApp x).run h fun h' r => ∀ a, r = .ok a → F h' a := by
  rw [Conforms, runApp, wp_withError]
  refine hx.mono fun h' r hr a ha => ?_
  cases r with
  | ok b => exact hr a (by simpa [Except.mapError] using ha)
  | error e => cases ha

theorem any_history {ε α : Type} {x : Cmd Op ε α} :
    Conforms history x.run h fun _ r => ∀ a, r = .ok a → True :=
  wp_of_forall (fun _ _ => trivial) fun _ _ _ _ => trivial

theorem query_history {β : Type} (query' : Query β) :
    Conforms history (query query').run h fun h' r => ∀ b, r = .ok b →
      ⟨.query query', .ok b⟩ ∈ h' := by
  rw [Conforms, query, wp_attempt]
  refine ⟨trivial, ?_⟩
  rintro r _ ⟨-, rfl⟩ b hb
  cases r with
  | ok b' =>
    obtain rfl : b' = b := by simpa [Except.mapError] using hb
    exact List.mem_concat_self
  | error e => cases hb

theorem unsealed_history : Conforms history requireUnsealed.run h
    fun h' r => ∀ a, r = .ok a → ⟨.identity .isUnsealed, true⟩ ∈ h' := by
  unfold requireUnsealed
  rw [Conforms, wp_except_bind, wp_call]
  refine ⟨trivial, ?_⟩
  rintro b _ ⟨-, rfl⟩
  cases b with
  | true => exact fun _ _ => List.mem_concat_self
  | false => exact fun a ha => absurd ha error_ne_ok

/-- A secret that was loaded has its namespace and its sensitivity from the row that was read. -/
theorem loadSecret_history (handle : Handle) : Conforms history (loadSecret handle).run h
    fun h' r => ∀ secret, r = .ok secret → ∃ row : SecretRow,
      ⟨.query (.selectSecretRow handle), .ok (some row)⟩ ∈ h' ∧
        secret.namespaceId = row.namespaceId ∧ secret.sensitivity = row.sensitivity := by
  have hfound : Conforms history (getSecretByHandle handle).run h fun h' r => ∀ found, r = .ok found →
      ∀ secret, found = some secret → ∃ row : SecretRow,
        ⟨.query (.selectSecretRow handle), .ok (some row)⟩ ∈ h' ∧
          secret.namespaceId = row.namespaceId ∧ secret.sensitivity = row.sensitivity := by
    unfold getSecretByHandle
    refine history_bind (query_history _) (fun h₁ found _ hrow => ?_) fun _ _ _ => nofun
    cases found with
    | none =>
      intro found hr secret hsecret
      cases hr
      cases hsecret
    | some row =>
      refine history_bind (any_history (h := h₁)) (fun h₂ versions hp _ => ?_) fun _ _ _ => nofun
      intro found hr secret hsecret
      cases hr
      cases hsecret
      exact ⟨row, hp.subset hrow, rfl, rfl⟩
  unfold loadSecret
  refine history_bind hfound (fun h₁ found _ hsecret => ?_) fun _ _ _ => nofun
  rw [Conforms, wp_orThrow]
  exact ⟨fun secret hs a ha => hsecret a (by cases ha; exact hs), fun _ a ha => absurd ha error_ne_ok⟩

/-- A command that returned had its challenge approved where one is required. -/
theorem execute_approved {cmd : RevealSecretCommand} : Conforms history (cmd.execute E).run h
    fun h' r => ∀ a, r = .ok a → cmd.oobRequired = true → OobApproved cmd h' := by
  unfold RevealSecretCommand.execute
  refine history_bind any_history (fun h₁ _ _ _ => ?_) fun _ _ _ => nofun
  refine history_bind any_history (fun h₂ _ _ _ => ?_) fun _ _ _ => nofun
  refine history_bind effectiveConfirmation_history (fun h₃ c _ hc => ?_) fun _ _ _ => nofun
  split
  · exact refuse_fails
  · exact history_grows.mono fun h₄ r hp a _ hreq => (hc.2 hreq).mono hp

theorem executeReveal_cleared {handle : Handle} {namespaceId : NamespaceId}
    {sensitivity : Sensitivity} {oobChannel : OobChannel} {dekBytes : Key} :
    Conforms history (executeReveal E handle namespaceId sensitivity oobChannel dekBytes).run h
      fun h' r => ∀ response, r = .ok response →
        ∃ policy oobAck, Cleared handle namespaceId sensitivity policy oobAck h' := by
  unfold executeReveal
  refine history_bind (runApp_history (query_history _)) (fun h₁ policy _ hread => ?_)
    fun _ _ _ => nofun
  dsimp only
  split_ifs with hallowed
  · exact fun _ hr => absurd hr error_ne_ok
  refine history_bind any_history (fun h₂ devices hp₂ _ => ?_) fun _ _ _ => nofun
  refine history_bind (runApp_history execute_approved) (fun h₃ reply hp₃ happroved => ?_)
    fun _ _ _ => nofun
  refine history_grows.mono fun h₄ r hp₄ response _ => ?_
  refine ⟨policy, needsOob sensitivity (governing namespaceId policy).reveal.requireOobAbove
    (governing namespaceId policy).securityProfile, ?_, ?_, id, fun hreq => ?_⟩
  · exact (hp₂.trans (hp₃.trans hp₄)).subset hread
  · simpa [governing] using hallowed
  · exact ⟨_, rfl, (happroved hreq).mono hp₄⟩

/-- **A reveal that answered has seen** all that the packages ask for. -/
theorem reveal_shown (peer : PeerCredentials) (q : RevealRequest) :
    Conforms history (reveal E peer q).run [] fun h r => ∀ response, r = .ok response →
      ∃ row policy oobAck, Shown q row policy oobAck h := by
  unfold reveal
  split_ifs with hslash
  · exact fun _ hr => absurd hr error_ne_ok
  refine history_bind (runApp_history unsealed_history) (fun h₁ _ _ hunsealed => ?_)
    fun _ _ _ => nofun
  refine history_bind (runApp_history (loadSecret_history _)) (fun h₂ secret hp₂ hsecret => ?_)
    fun _ _ _ => nofun
  obtain ⟨row, hrow, hnamespace, hsensitivity⟩ := hsecret
  refine history_bind any_history (fun h₃ _ hp₃ _ => ?_) fun _ _ _ => nofun
  refine history_bind any_history (fun h₄ dekBytes hp₄ _ => ?_) fun _ _ _ => nofun
  refine (executeReveal_cleared.and history_grows).mono ?_
  rintro h₅ r ⟨hcleared, hp₅⟩ response hr
  obtain ⟨policy, oobAck, hcleared⟩ := hcleared response hr
  rw [hnamespace, hsensitivity] at hcleared
  have hp : h₂ <+: h₅ := hp₃.trans (hp₄.trans hp₅)
  exact ⟨row, policy, oobAck, by simpa using hslash, (hp₂.trans hp).subset hunsealed,
    hp.subset hrow, hcleared⟩

/-! ### The packages -/

/-- A package allows a document and has no denial for it. -/
structure Passes {I D : Type} (P : Rego.Package I D) (i : I) : Prop where
  allowed : P.allow i = true
  undenied : P.deny i = []

theorem Passes.of_allow {I D : Type} {P : Rego.Package I D} {i : I} (hconsistent : P.Consistent i)
    (hallow : P.allow i = true) : Passes P i :=
  ⟨hallow, hconsistent.mp hallow⟩

theorem document_decided (q : RevealRequest) (sensitivity : Sensitivity) (policy : NamespacePolicy)
    (oobAck : Bool) : Rego.Decided (document q sensitivity policy oobAck) := by
  have hlevel : (Rego.thresholdLevel (document q sensitivity policy oobAck)).isSome = true := by
    rw [show Rego.thresholdLevel (document q sensitivity policy oobAck) =
      Rego.sensitivityOrdinal policy.reveal.requireOobAbove.display from rfl,
      sensitivityOrdinal_display]
    rfl
  refine fun _ _ _ => ⟨fun _ => hlevel, fun _ _ => ?_⟩
  rw [show (document q sensitivity policy oobAck).sensitivity = sensitivity.display from rfl,
    sensitivityOrdinal_display]
  rfl

/-- What a reveal has seen is enough for both packages. -/
theorem Shown.confirmed (hs : Shown q row policy oobAck h) :
    Rego.confirmed (document q row.sensitivity (governing row.namespaceId policy) oobAck) = true := by
  have hbelow : Rego.belowThreshold
      (document q row.sensitivity (governing row.namespaceId policy) oobAck) =
      decide (row.sensitivity.rank < (governing row.namespaceId policy).reveal.requireOobAbove.rank) := by
    unfold Rego.belowThreshold
    rw [show Rego.thresholdLevel (document q row.sensitivity (governing row.namespaceId policy) oobAck)
      = Rego.sensitivityOrdinal (governing row.namespaceId policy).reveal.requireOobAbove.display
      from rfl, show (document q row.sensitivity (governing row.namespaceId policy) oobAck).sensitivity
      = row.sensitivity.display from rfl, sensitivityOrdinal_display, sensitivityOrdinal_display]
  unfold Rego.confirmed
  rw [hbelow]
  simp only [document, hs.slash, hs.cleared.allowed, AuditOp.display, decide_true, Bool.true_and,
    Bool.or_eq_true, decide_eq_true_eq]
  by_cases hlt : row.sensitivity.rank < (governing row.namespaceId policy).reveal.requireOobAbove.rank
  · exact .inl hlt
  · refine .inr (hs.cleared.asked ?_)
    simp [needsOob, Nat.le_of_not_lt hlt]

theorem Shown.revealAuthorization (hs : Shown q row policy oobAck h) : Passes Rego.revealAuthorization
    (document q row.sensitivity (governing row.namespaceId policy) oobAck) :=
  .of_allow ((Rego.revealAuthorization_consistent_iff _).mpr (document_decided _ _ _ _)) hs.confirmed

theorem Shown.sensitivityOob (hs : Shown q row policy oobAck h) : Passes Rego.sensitivityOob
    (document q row.sensitivity (governing row.namespaceId policy) oobAck) := by
  refine .of_allow ((Rego.sensitivityOob_consistent_iff _).mpr (document_decided _ _ _ _)) ?_
  simp [Rego.sensitivityOob, hs.confirmed]

/-! ### Runs -/

/-- Clients run any programs on the context, reveals over the socket among them. -/
def socketSystem (E : Env) : System AppState Op (Except Problem Response) where
  exec := exec E.toCrates
  starts _ := True
  restart s s' := s' = rebooted s

/-- The packages pass a reveal, on what it read in states of its own run: the seal, the row of its
secret, and the policy of the secret's namespace. -/
structure Permitted (q : RevealRequest) (trace : List (Transition AppState Op)) (row : SecretRow)
    (policy : NamespacePolicy) (oobAck : Bool) : Prop where
  secretRead : ∃ tr ∈ trace, tr.own = true ∧ tr.before.store.selectSecretRow q.handle = some row
  policyRead : ∃ tr ∈ trace, tr.own = true ∧
    governing row.namespaceId (tr.before.store.getNamespacePolicy row.namespaceId) = policy
  approved : oobAck = true →
    ∃ cmd : RevealSecretCommand, cmd.handle = q.handle ∧ OobApproved cmd (ownEvents trace)
  unsealRequired : ∃ tr ∈ trace, tr.own = true ∧
    Passes Rego.unsealRequired ⟨stateName tr.before.identity.state, AuditOp.reveal.display⟩
  revealAuthorization : Passes Rego.revealAuthorization (document q row.sensitivity policy oobAck)
  sensitivityOob : Passes Rego.sensitivityOob (document q row.sensitivity policy oobAck)

section Runs

variable {s₀ s s' : AppState} {trace : List (Transition AppState Op)} {tr : Transition AppState Op}

theorem exec_of_mem (hpath : Path ((socketSystem E).admitted unguarded) s trace s') (htr : tr ∈ trace) :
    exec E.toCrates tr.event.op tr.before tr.event.res tr.after := by
  obtain ⟨pre, post, rfl⟩ := List.append_of_mem htr
  obtain ⟨s₁, -, rfl, hx, -⟩ := path_append.mp hpath
  exact hx.1

theorem own_transition {e : Event Op} (he : e ∈ ownEvents trace) :
    ∃ tr ∈ trace, tr.own = true ∧ tr.event = e := by
  obtain ⟨tr, htr, rfl⟩ := List.mem_map.mp he
  obtain ⟨hmem, hown⟩ := List.mem_filter.mp htr
  exact ⟨tr, hmem, hown, rfl⟩

/-- What a query returned was stored when it ran. -/
theorem query_answer (hpath : Path ((socketSystem E).admitted unguarded) s trace s') {β : Type}
    {query' : Query β} {b : β} (he : ⟨.query query', .ok b⟩ ∈ ownEvents trace) :
    ∃ tr ∈ trace, tr.own = true ∧ query'.answer tr.before.store = b := by
  obtain ⟨⟨own, before, event, after⟩, htr, hown, rfl⟩ := own_transition he
  obtain ⟨-, fault, hr⟩ := exec_of_mem hpath htr
  exact ⟨_, htr, hown, Except.ok.inj (faulty_ok hr.symm).2⟩

theorem seal_open (hpath : Path ((socketSystem E).admitted unguarded) s trace s')
    (he : ⟨.identity .isUnsealed, true⟩ ∈ ownEvents trace) :
    ∃ tr ∈ trace, tr.own = true ∧ tr.before.identity.state = .unsealed := by
  obtain ⟨⟨own, before, event, after⟩, htr, hown, rfl⟩ := own_transition he
  have hx := exec_of_mem hpath htr
  have hopen : true = before.identity.isUnsealed := congrArg Prod.fst hx
  exact ⟨_, htr, hown, of_decide_eq_true hopen.symm⟩

/-- **The packages permit every reveal that answers**, whatever other clients run beside it: on the
row and the policy that were stored when it read them, its slash command and the approval of its
challenge, both packages about reveals allow it and deny nothing, and so does the one about the seal,
in a state of its run. -/
theorem reveal_permitted {c : Config AppState Op (Except Problem Response)}
    (hc : Reachable (socketSystem E) unguarded s₀ c) {t : Task Op (Except Problem Response)}
    (ht : t ∈ c.tasks) (peer : PeerCredentials) (q : RevealRequest)
    (hsource : t.source = (reveal E peer q).run) {response : Response}
    (hend : t.prog = .ret (.ok response)) : ∃ c₁ trace s' row policy oobAck,
      Reachable (socketSystem E) unguarded s₀ c₁ ∧
      RunsAmong ((socketSystem E).admitted unguarded) t.source c₁.state trace (.ok response) s' ∧
      ownEvents trace = t.hist ∧ Permitted q trace row policy oobAck := by
  obtain ⟨c₁, trace, s', -, hc₁, hown, hrun, -⟩ := Reachable.among_ended hc ht hend
  have hshown : ∃ row policy oobAck, Shown q row policy oobAck t.hist := by
    have hconf := hc.conforms history (fun p h r => p = (reveal E peer q).run →
      ∀ response, r = .ok response → ∃ row policy oobAck, Shown q row policy oobAck h)
      (fun p _ => ?_) (fun _ => trivial) t ht
    · rw [hend, history_after] at hconf
      exact hconf hsource response rfl
    · by_cases hp : p = (reveal E peer q).run
      · rw [hp]
        exact (reveal_shown peer q).mono fun _ _ hr _ => hr
      · exact wp_of_forall (fun _ _ => trivial) fun _ _ he => absurd he hp
  obtain ⟨row, policy, oobAck, hs⟩ := hshown
  rw [← hown] at hs
  obtain ⟨tr, htr, htrown, hopen⟩ := seal_open hrun.path hs.unsealed
  obtain ⟨tr', htr', htrown', hpolicy⟩ := query_answer hrun.path hs.cleared.read
  refine ⟨c₁, trace, s', row, governing row.namespaceId policy, oobAck, hc₁, hrun, hown,
    query_answer hrun.path hs.secret, ⟨tr', htr', htrown', congrArg _ hpolicy⟩, hs.cleared.approved,
    ⟨tr, htr, htrown, .of_allow (Rego.unsealRequired_consistent _) ?_⟩, hs.revealAuthorization,
    hs.sensitivityOob⟩
  rw [hopen]
  decide

end Runs

/-! ### A reveal behind a challenge -/

/-- A vault with one secret of high sensitivity, under the balanced policy. -/
def revealVault : AppState :=
  sampleVault 1 [sampleVersion 1 (sampleBlob (namespaceDek sampleEnv sampleKey ⟨sampleUuid 1⟩) [1, 2, 3])]

theorem sample_reveal_run : ∃ (c : Config AppState Op (Except Problem Response))
    (t : Task Op (Except Problem Response)) (response : Response),
    Reachable (socketSystem sampleEnv) unguarded revealVault c ∧ t ∈ c.tasks ∧
    t.source = (reveal sampleEnv ⟨none⟩ ⟨sampleHandle, true, none⟩).run ∧
    t.prog = .ret (.ok response) := by
  let peer : PeerCredentials := ⟨none⟩
  let q : RevealRequest := ⟨sampleHandle, true, none⟩
  let version := sampleVersion 1
    (sampleBlob (namespaceDek sampleEnv sampleKey ⟨sampleUuid 1⟩) [1, 2, 3])
  let policy : NamespacePolicy := .balanced sampleNamespace.id
  let s₀ := revealVault
  let s₁ : AppState := { s₀ with issued := sampleUuid 3 :: s₀.issued }
  let s₂ : AppState := { s₁ with issued := sampleUuid 4 :: s₁.issued }
  have hversions : s₂.store.loadVersionsForSecret (sampleRow 1).id = [version] := by
    simp [Store.loadVersionsForSecret, s₂, s₁, s₀, revealVault, sampleVault, version, sampleVersion,
      sampleRow]
  obtain ⟨s₃, hx, -⟩ := first_commit sampleCrates sampleReveal.allow sampleKey (sampleCall 1).draw
    s₂ rfl
  have h₀ := Reachable.here (socketSystem sampleEnv) unguarded s₀
  have h₁ := h₀.start (reveal sampleEnv peer q).run trivial
  have h₂ := h₁.alone true s₀ rfl trivial
  have h₃ := h₂.alone (.ok (some (sampleRow 1))) s₀ ⟨rfl, none, rfl⟩ trivial
  have h₄ := h₃.alone (.ok [version]) s₀ ⟨rfl, none, by rw [← hversions]; rfl⟩ trivial
  have h₅ := h₄.alone (.ok (some policy)) s₀ ⟨rfl, none, rfl⟩ trivial
  have h₆ := h₅.alone (some sampleKey) s₀ ⟨rfl, rfl⟩ trivial
  have h₇ := h₆.alone (.ok (some policy)) s₀ ⟨rfl, none, rfl⟩ trivial
  have hdevices : [] = s₀.store.listCompanionDevices :=
    (listCompanionDevices_of_sorted s₀.store .nil).symm
  have h₈ := h₇.alone (.ok []) s₀ ⟨rfl, none, congrArg Except.ok hdevices⟩ trivial
  have h₉ := h₈.alone true s₀ rfl trivial
  have h₁₀ := h₉.alone (sampleUuid 3) s₁ ⟨by decide, rfl⟩ trivial
  have h₁₁ := h₁₀.alone epoch s₁ rfl trivial
  have h₁₂ := h₁₁.alone (sampleUuid 4) s₂ ⟨by decide, rfl⟩ trivial
  have h₁₃ := h₁₂.alone epoch s₂ rfl trivial
  have h₁₄ := h₁₃.alone sampleKey s₂ rfl trivial
  have h₁₅ := h₁₄.alone (.ok ()) s₂ rfl trivial
  have h₁₆ := h₁₅.alone (.ok ⟨⟨sampleUuid 4⟩, .approved, none, none⟩) s₂ rfl trivial
  have h₁₇ := h₁₆.alone (.ok (some (sampleRow 1))) s₂ ⟨rfl, none, rfl⟩ trivial
  have h₁₈ := h₁₇.alone (.ok [version]) s₂ ⟨rfl, none, by rw [← hversions]; rfl⟩ trivial
  have h₁₉ := h₁₈.alone (some sampleKey) s₂ ⟨rfl, rfl⟩ trivial
  have h₂₀ := h₁₉.alone (.ok ()) s₃ ⟨_, _, hx⟩ trivial
  have h₂₁ := h₂₀.alone epoch s₃ rfl trivial
  exact ⟨_, _, _, h₂₁, List.mem_cons_self, rfl, rfl⟩

/-- A reveal whose challenge was approved. -/
theorem approved_reveal_permitted : ∃ (c : Config AppState Op (Except Problem Response))
    (t : Task Op (Except Problem Response)) (response : Response)
    (trace : List (Transition AppState Op)) (row : SecretRow) (policy : NamespacePolicy) (oobAck : Bool),
    Reachable (socketSystem sampleEnv) unguarded revealVault c ∧ t ∈ c.tasks ∧
    t.prog = .ret (.ok response) ∧ ownEvents trace = t.hist ∧
    Permitted ⟨sampleHandle, true, none⟩ trace row policy oobAck := by
  obtain ⟨c, t, response, hc, ht, hsource, hend⟩ := sample_reveal_run
  obtain ⟨-, trace, -, row, policy, oobAck, -, -, hown, hpermitted⟩ :=
    reveal_permitted hc ht ⟨none⟩ ⟨sampleHandle, true, none⟩ hsource hend
  exact ⟨c, t, response, trace, row, policy, oobAck, hc, ht, hend, hown, hpermitted⟩

end MerkleVault.Policy.Reveals
