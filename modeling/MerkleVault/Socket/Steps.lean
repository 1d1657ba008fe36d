import MerkleVault.Socket.Actions
import MerkleVault.Sqlite.Versions

/-! # What the Parts of a Handler Do

One lemma for each part that the handlers and commands are made of: what it leaves of the state and
what its result says, for all its runs.  Requests are served one after the other here, so the two
statements of `get_secret_by_handle` read one store. -/

namespace MerkleVault.Socket.Steps

open MerkleVault.Types MerkleVault.External MerkleVault.Lib.Program MerkleVault.Secrets.Aggregate
open MerkleVault.Sqlite.Tables MerkleVault.Sqlite.Versions MerkleVault.App.Context
open MerkleVault.App.SecretCommands MerkleVault.Socket.Gate MerkleVault.Socket.Handlers
open MerkleVault.Socket.Proxy MerkleVault.Socket.Actions

/-! ### Requests -/

theorem ofUuid_eq {u : Uuid} {id : NamespaceId} (h : NamespaceId.ofUuid u = some id) : id = ⟨u⟩ := by
  unfold NamespaceId.ofUuid at h
  split_ifs at h
  exact (Option.some.inj h).symm

theorem parseHandleEncoded_ok {raw : String} {handle : Handle}
    (h : parseHandleEncoded raw = .ok handle) : Handle.fromStr raw = some handle := by
  unfold parseHandleEncoded at h
  split at h
  · next handle' hparse => rw [hparse, Except.ok.inj h]
  · cases h

theorem parseHandleEncoded_of_some {raw : String} {handle : Handle}
    (h : Handle.fromStr raw = some handle) : parseHandleEncoded raw = .ok handle := by
  rw [parseHandleEncoded, h]

/-! ### Payloads -/

/-- The bytes that a payload stands for. -/
def payload (E : Env) (format : ValueFormat) (plaintext : List UInt8) : Option (List UInt8) :=
  match format with
  | .utf8 => some plaintext
  | .base64 => (E.base64Decode plaintext).toOption

theorem decodePayload_eq {E : Env} {M : Type*} {R : Rules Op M} {m : M} (format : ValueFormat)
    (plaintext : List UInt8) :
    Wp R (decodePayload E format plaintext).run m fun m' r => m' = m ∧
      ∀ value, r = .ok value → payload E format plaintext = some value := by
  cases format with
  | utf8 =>
    refine ⟨rfl, fun value hvalue => ?_⟩
    rw [Except.ok.inj hvalue]
    rfl
  | base64 =>
    rw [decodePayload, wp_ofExcept]
    refine ⟨fun value hvalue => ⟨rfl, fun value' h => ?_⟩, fun e _ => ⟨rfl, nofun⟩⟩
    rw [← Except.ok.inj h, payload, hvalue]
    rfl

/-! ### Actions of one client -/

/-- What the handlers may do, as rules. -/
abbrev agentRules (E : Env) : Rules Op AppState := execRules (exec E.toCrates)

section Actions

variable {E : Env} {k : Key} {s s' : AppState} {ε α β : Type}

theorem idle_isUnsealed : Idle (agentRules E) (.identity .isUnsealed) := by
  refine fun s => ⟨trivial, fun r s' hx => ?_⟩
  obtain ⟨-, rfl⟩ := Prod.mk.inj hx
  rfl

theorem idle_port {β : Type} (p : Port β) : Idle (agentRules E) (.port p) :=
  fun _ => ⟨trivial, fun _ _ hx => hx⟩

theorem idle_query {β : Type} (q : Query β) : Idle (agentRules E) (.query q) :=
  fun _ => ⟨trivial, fun _ _ hx => hx.1⟩

/-- A program of quiet actions leaves the vault as it is. -/
theorem wp_quiet {x : Cmd Op ε α} (h : Only quiet x.run) :
    Wp (agentRules E) x.run s fun s' _ => SameVault s s' :=
  wp_of_only (fun _ _ => trivial) (fun hq hs hx => hs.trans (exec_quiet hq hx)) h (SameVault.refl s)

theorem wp_newUuid {f : Uuid → Cmd Op ε α} {Q : AppState → Except ε α → Prop}
    (h : ∀ u, u ∉ s.issued → Wp (agentRules E) (f u).run { s with issued := u :: s.issued } Q) :
    Wp (agentRules E) (call .newUuid >>= f).run s Q := by
  rw [wp_except_bind, wp_call]
  refine ⟨trivial, ?_⟩
  rintro u _ ⟨hu, rfl⟩
  exact h u hu

/-- The two statements read one store. -/
theorem getSecretByHandle_eq (handle : Handle) :
    Wp (agentRules E) (getSecretByHandle handle).run s fun s' r => s' = s ∧
      ∀ sec, r = .ok sec → s.store.getSecretByHandle handle = sec := by
  unfold getSecretByHandle
  rw [wp_except_bind, query, wp_attempt]
  refine ⟨trivial, ?_⟩
  rintro r _ ⟨rfl, fault, rfl⟩
  cases fault with
  | some e => exact ⟨rfl, fun _ h => nomatch h⟩
  | none =>
    unfold Store.getSecretByHandle
    simp only [faulty, Except.mapError, Query.answer]
    cases hrow : Store.selectSecretRow _ handle with
    | none => exact ⟨rfl, fun sec hsec => Except.ok.inj hsec⟩
    | some row =>
      rw [wp_except_bind, query, wp_attempt]
      refine ⟨trivial, ?_⟩
      rintro r _ ⟨rfl, fault, rfl⟩
      cases fault with
      | some e => exact ⟨rfl, fun _ h => nomatch h⟩
      | none => exact ⟨rfl, fun sec hsec => Except.ok.inj hsec⟩

theorem loadSecret_eq (handle : Handle) :
    Wp (agentRules E) (loadSecret handle).run s fun s' r => s' = s ∧
      ∀ sec, r = .ok sec → ∃ row, s.store.selectSecretRow handle = some row ∧
        sec = loaded s.store row := by
  unfold loadSecret
  rw [wp_except_bind]
  refine (getSecretByHandle_eq handle).mono ?_
  rintro s' r ⟨rfl, hr⟩
  cases r with
  | error e => exact ⟨rfl, fun _ h => nomatch h⟩
  | ok sec =>
    show Wp (agentRules E) (orThrow _ _ : Handler Secret).run _ _
    rw [wp_orThrow]
    refine ⟨fun a ha => ⟨rfl, fun a' ha' => ?_⟩, fun _ => ⟨rfl, fun _ h => nomatch h⟩⟩
    obtain rfl := Except.ok.inj ha'
    have hsec := (hr sec rfl).trans ha
    rw [Store.getSecretByHandle, Option.map_eq_some_iff] at hsec
    obtain ⟨row, hrow, rfl⟩ := hsec
    exact ⟨row, hrow, rfl⟩

theorem still_secretVersionCount {handle : Handle} :
    Still (agentRules E) (secretVersionCount handle) := by
  refine still_bind (still_withError (still_resultOf ?_)) fun r => ?_
  · exact fun s => (getSecretByHandle_eq handle).mono fun _ _ h => h.1
  · match r with
    | .ok (some secret) => exact still_pure _
    | .ok none => exact still_pure 0
    | .error e => exact still_pure 0

theorem requireHmacKey_eq :
    Wp (agentRules E) requireHmacKey.run s fun s' r => s' = s ∧
      ∀ key, r = .ok key → s.hmacKey = some key := by
  unfold requireHmacKey
  rw [wp_except_bind, wp_call]
  refine ⟨trivial, ?_⟩
  rintro r _ ⟨rfl, rfl⟩
  show Wp (agentRules E) (orThrow _ _ : Handler Key).run _ _
  rw [wp_orThrow]
  refine ⟨fun key hkey => ⟨rfl, fun key' h => ?_⟩, fun _ => ⟨rfl, fun _ h => nomatch h⟩⟩
  rw [hkey, Except.ok.inj h]

theorem deriveDekBytes_eq (namespaceId : NamespaceId) :
    Wp (agentRules E) (deriveDekBytes E namespaceId).run s fun s' r => s' = s ∧
      ∀ dek, r = .ok dek → ∃ k, s.hmacKey = some k ∧ dek = namespaceDek E k namespaceId := by
  unfold deriveDekBytes
  rw [wp_except_bind, runApp, wp_withError]
  refine requireHmacKey_eq.mono ?_
  rintro s' r ⟨rfl, hr⟩
  cases r with
  | error e => exact ⟨rfl, fun _ h => nomatch h⟩
  | ok key =>
    refine ⟨rfl, fun dek hdek => ⟨key, hr key rfl, ?_⟩⟩
    exact (Except.ok.inj hdek).symm

theorem still_check (namespaceId : NamespaceId) (peer : PeerCredentials) :
    Still (agentRules E) (check namespaceId peer) := by
  refine still_bind (still_call (idle_query _)) fun r => ?_
  match r with
  | .ok (some policy) => exact still_ofExcept _ _
  | .ok none => exact still_pure ()
  | .error e => exact still_throw _

theorem sameVault_drawn (s : AppState) (u : Uuid) :
    SameVault s { s with issued := u :: s.issued } :=
  ⟨rfl, rfl, rfl, List.subset_cons_self u s.issued⟩

theorem still_requireSlash (slashCommand : Bool) (operation command purpose : String) :
    Still (agentRules E) (requireSlash slashCommand operation command purpose) := by
  unfold requireSlash
  split_ifs
  · exact still_pure ()
  · exact still_throw _

/-- A transaction and the entry after it: what the transaction leaves stays. -/
theorem wp_write_record {w : Write} {params : Audit.Writer.AppendParams} {reply : Reply}
    {I : AppState → Prop} {J : AppState → Prop} (hI : I s)
    (hwrite : ∀ store, w.apply s.store = .ok store →
      I { s with store := store } ∧ J { s with store := store })
    (hIsame : ∀ {s s'}, I s → SameVault s s' → I s') (hJsame : ∀ {s s'}, J s → SameVault s s' → J s') :
    Wp (agentRules E) (do
      write w
      let hmacKey ← requireHmacKey
      auditCommit params hmacKey
      return reply : Handler Reply).run s fun s' r => I s' ∧ ∀ a, r = .ok a → J s' := by
  rw [wp_except_bind, write, wp_attempt]
  refine ⟨trivial, ?_⟩
  rintro r s₁ ⟨fault, hx⟩
  rcases writeSection_eq hx with ⟨rfl, store, hstore, rfl⟩ | ⟨⟨e, rfl⟩, rfl⟩
  · obtain ⟨hI', hJ'⟩ := hwrite store hstore
    refine (wp_quiet (only_record inert_quiet params (only_pure reply))).mono fun s' r hs => ?_
    exact ⟨hIsame hI' hs, fun _ _ => hJsame hJ' hs⟩
  · exact ⟨hI, fun _ h => absurd h error_ne_ok⟩

theorem requireUnsealed_eq :
    Wp (agentRules E) requireUnsealed.run s fun s' r => s' = s ∧
      ∀ a, r = .ok a → s.identity.isUnsealed = true := by
  unfold requireUnsealed
  rw [wp_except_bind, wp_call]
  refine ⟨trivial, fun b s' hx => ?_⟩
  obtain ⟨hb, rfl⟩ := Prod.mk.inj hx
  cases b with
  | true => exact ⟨rfl, fun _ _ => hb.symm⟩
  | false => exact ⟨rfl, fun _ h => nomatch h⟩

/-- The peer passes the gate of the namespace. -/
def Passes (s : AppState) (namespaceId : NamespaceId) (peer : PeerCredentials) : Prop :=
  ∀ policy, s.store.getNamespacePolicy namespaceId = some policy →
    enforceConsumerAllowlist policy peer = .ok ()

theorem check_eq (namespaceId : NamespaceId) (peer : PeerCredentials) :
    Wp (agentRules E) (check namespaceId peer).run s fun s' r => s' = s ∧
      ∀ a, r = .ok a → Passes s namespaceId peer := by
  unfold check
  rw [wp_except_bind, wp_call]
  refine ⟨trivial, ?_⟩
  rintro r _ ⟨rfl, fault, rfl⟩
  cases fault with
  | some e => exact ⟨rfl, fun _ h => absurd h error_ne_ok⟩
  | none =>
    simp only [faulty, Query.answer]
    cases hpolicy : Store.getNamespacePolicy _ namespaceId with
    | none => exact ⟨rfl, fun _ _ policy h => absurd (hpolicy.symm.trans h) (by simp)⟩
    | some policy =>
      rw [wp_ofExcept]
      refine ⟨fun a ha => ⟨rfl, fun _ _ policy' h => ?_⟩,
        fun e _ => ⟨rfl, fun _ h => absurd h error_ne_ok⟩⟩
      rw [← Option.some.inj (hpolicy.symm.trans h)]
      exact ha

end Actions

/-! ### Results -/

/-- Every value that the program returns is as given. -/
def Returns {ε α : Type} (E : Env) (x : Cmd Op ε α) (P : α → Prop) : Prop :=
  ∀ s, Wp (agentRules E) x.run s fun _ r => ∀ a, r = .ok a → P a

section Returns

variable {E : Env} {ε δ α β : Type} {P : β → Prop}

theorem returns_pure {b : β} (h : P b) : Returns E (pure b : Cmd Op ε β) P := by
  intro s b' hb
  obtain rfl := Except.ok.inj hb
  exact h

theorem returns_throw (e : ε) : Returns E (throw e : Cmd Op ε β) P := fun _ _ h => nomatch h

theorem returns_bind {x : Cmd Op ε α} {f : α → Cmd Op ε β} {F : α → Prop} (hx : Returns E x F)
    (hf : ∀ a, F a → Returns E (f a) P) : Returns E (x >>= f) P := by
  intro s
  rw [wp_except_bind]
  refine (hx s).mono fun s' r hr => ?_
  cases r with
  | ok a => exact hf a (hr a rfl) s'
  | error e => exact fun _ h => nomatch h

/-- What a program returns is what its end returns. -/
theorem returns_last {x : Cmd Op ε α} {f : α → Cmd Op ε β} (hf : ∀ a, Returns E (f a) P) :
    Returns E (x >>= f) P :=
  returns_bind (F := fun _ => True) (fun _ => wp_of_forall (fun _ _ => trivial) fun _ _ _ _ => trivial)
    fun a _ => hf a

theorem returns_withError {f : δ → ε} {x : Cmd Op δ β} (hx : Returns E x P) :
    Returns E (withError f x) P := by
  intro s
  rw [wp_withError]
  refine (hx s).mono fun s' r hr b hb => ?_
  cases r with
  | ok a => exact hr b (congrArg Except.ok (Except.ok.inj hb))
  | error e => cases hb

end Returns

/-! ### Runs -/

/-- Every port may answer. -/
theorem port_answers {β : Type} (p : Port β) : Nonempty β := by
  cases p <;> first
    | exact ⟨()⟩
    | exact ⟨⟨0, 0, by decide, by decide⟩⟩
    | exact ⟨Vector.replicate _ 0⟩
    | exact ⟨""⟩
    | exact ⟨("", "")⟩
    | exact ⟨.error ""⟩
    | exact ⟨.error (.backend "")⟩
    | exact ⟨.ok ()⟩

theorem exec_total {K : Crates} {β : Type} {op : Op β} (h : drawless op) (s : AppState) :
    ∃ r s', exec K op s r s' := by
  cases op with
  | identity o => exact ⟨_, _, rfl⟩
  | readHmacKey => exact ⟨_, _, rfl, rfl⟩
  | writeHmacKey key => exact ⟨(), _, rfl⟩
  | auditCommit params key =>
    exact ⟨_, _, ⟨⟨Vector.replicate 16 0⟩, ⟨0, 0, by decide, by decide⟩⟩, none, rfl⟩
  | installHead pinned => exact ⟨(), _, rfl⟩
  | query q => exact ⟨_, _, rfl, none, rfl⟩
  | write w => exact ⟨_, _, none, rfl⟩
  | newUuid => exact h.elim
  | registerUseToken key token => exact ⟨(), _, rfl⟩
  | consumeUseToken key handle => exact ⟨_, _, ⟨0, 0, by decide, by decide⟩, rfl⟩
  | port p =>
    obtain ⟨r⟩ := port_answers p
    exact ⟨r, s, rfl⟩

/-- Actions that neither write nor draw. -/
def settled {β : Type} (op : Op β) : Prop := quiet op ∧ drawless op

theorem inert_settled {β : Type} {op : Op β} (h : inert op) : settled op :=
  ⟨inert_quiet h, inert_drawless h⟩

theorem reads_settled {β : Type} {op : Op β} {handle : Handle} (h : reads handle op) : settled op :=
  ⟨reads_quiet h, reads_drawless h⟩

section Runs

variable {E : Env} {k : Key} {s s₁ : AppState} {ε α β : Type}

/-- After a run of the first part, whatever its result, the rest has a run, and changes nothing. -/
theorem runs_before {x : Cmd Op ε α} {f : α → Cmd Op ε β} {h₁ : List (Event Op)} {r : Except ε α}
    (hx : Runs (exec E.toCrates) x.run s h₁ r s₁) (hf : ∀ a, Only settled (f a).run) :
    ∃ h₂ b s', Runs (exec E.toCrates) (x >>= f).run s (h₁ ++ h₂) b s' ∧ SameVault s₁ s' := by
  cases r with
  | error e =>
    refine ⟨[], .error e, s₁, ?_, SameVault.refl s₁⟩
    rw [List.append_nil]
    exact runs_except_bind.mpr (.inl ⟨e, rfl, hx⟩)
  | ok a =>
    obtain ⟨h₂, b, s', hr⟩ := exists_runs (fun h => exec_total h.2) (hf a) s₁
    exact ⟨h₂, b, s', runs_ok_bind hx hr,
      wp_runs (Q := fun s' _ => SameVault s₁ s') (wp_quiet ((hf a).mono And.left)) hr⟩

theorem runs_runApp {x : Handler α} {h₁ : List (Event Op)} {r : Except AppError α}
    (hx : Runs (exec E.toCrates) x.run s h₁ r s₁) :
    Runs (exec E.toCrates) (runApp x).run s h₁ (r.mapError .app) s₁ :=
  runs_withError.mpr ⟨r, rfl, hx⟩

theorem runs_requireUnsealed (h : s.identity.isUnsealed = true) :
    Runs (exec E.toCrates) requireUnsealed.run s [⟨.identity .isUnsealed, true⟩] (.ok ()) s := by
  have hx : exec E.toCrates (.identity .isUnsealed) s true s := by
    rw [← h]
    rfl
  exact runs_ok_bind (runs_call hx) runs_pure

theorem runs_query (q : Query β) : Runs (exec E.toCrates) (query q).run s
    [⟨.query q, .ok (q.answer s.store)⟩] (.ok (q.answer s.store)) s :=
  runs_attempt ⟨rfl, none, rfl⟩

/-- The events of a lookup. -/
def lookup (st : Store) (handle : Handle) (row : SecretRow) : List (Event Op) :=
  [⟨.query (.selectSecretRow handle), .ok (some row)⟩,
    ⟨.query (.loadVersionsForSecret row.id), .ok (st.loadVersionsForSecret row.id)⟩]

theorem runs_getSecretByHandle {handle : Handle} {row : SecretRow}
    (h : s.store.selectSecretRow handle = some row) :
    Runs (exec E.toCrates) (getSecretByHandle handle).run s (lookup s.store handle row)
      (.ok (some (loaded s.store row))) s := by
  have hrow : Runs (exec E.toCrates) (query (.selectSecretRow handle)).run s
      [⟨.query (.selectSecretRow handle), .ok (some row)⟩] (.ok (some row)) s := by
    rw [← h]
    exact runs_query _
  exact runs_ok_bind hrow (runs_ok_bind (runs_query _) runs_pure)

theorem runs_loadSecret {handle : Handle} {row : SecretRow}
    (h : s.store.selectSecretRow handle = some row) :
    Runs (exec E.toCrates) (loadSecret handle).run s (lookup s.store handle row)
      (.ok (loaded s.store row)) s :=
  runs_ok_bind (runs_getSecretByHandle h) runs_pure

theorem runs_check {namespaceId : NamespaceId} {peer : PeerCredentials}
    (h : Passes s namespaceId peer) : Runs (exec E.toCrates) (check namespaceId peer).run s
      [⟨.query (.getNamespacePolicy namespaceId), .ok (s.store.getNamespacePolicy namespaceId)⟩]
      (.ok ()) s := by
  have hx : exec E.toCrates (.query (.getNamespacePolicy namespaceId)) s
      (.ok (s.store.getNamespacePolicy namespaceId)) s := ⟨rfl, none, rfl⟩
  revert hx
  cases hpolicy : s.store.getNamespacePolicy namespaceId with
  | none => exact fun hx => runs_ok_bind (runs_call hx) runs_pure
  | some policy => exact fun hx => runs_ok_bind (runs_call hx) (runs_ofExcept (h policy hpolicy))

theorem runs_requireHmacKey (h : s.hmacKey = some k) :
    Runs (exec E.toCrates) requireHmacKey.run s [⟨.readHmacKey, some k⟩] (.ok k) s :=
  runs_ok_bind (runs_call ⟨h.symm, rfl⟩) runs_pure

theorem runs_deriveDekBytes (h : s.hmacKey = some k) (namespaceId : NamespaceId) :
    Runs (exec E.toCrates) (deriveDekBytes E namespaceId).run s [⟨.readHmacKey, some k⟩]
      (.ok (namespaceDek E k namespaceId)) s :=
  runs_ok_bind (runs_runApp (runs_requireHmacKey h)) runs_pure

theorem runs_decodePayload {format : ValueFormat} {plaintext value : List UInt8}
    (h : payload E format plaintext = some value) :
    Runs (exec E.toCrates) (decodePayload E format plaintext).run s [] (.ok value) s := by
  cases format with
  | utf8 =>
    obtain rfl := Option.some.inj h
    exact runs_pure
  | base64 =>
    refine runs_ofExcept ?_
    rw [payload] at h
    cases hd : E.base64Decode plaintext with
    | ok v =>
      rw [hd] at h
      exact congrArg Except.ok (Option.some.inj h)
    | error e =>
      rw [hd] at h
      cases h

end Runs

end MerkleVault.Socket.Steps
