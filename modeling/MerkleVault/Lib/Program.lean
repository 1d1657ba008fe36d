import Mathlib

/-! # Interleaved Programs over Atomic Actions

A program is a tree of atomic actions: an action of type `Op β` answers with a `β`, and the program
goes on with the answer.  Any number of programs run against one shared state, each action in one
step, in any order; clients may start new programs, and a restart kills the running ones.

`Wp` is the weakest precondition of one program: every action is allowed when it is taken and the
postcondition holds at the end, whatever the answers.  Against the actions of a system it speaks of
the runs of the program alone (`wp_runs`); against a monitor that watches the program it is
`Conforms`, and `Reachable.rule` lifts that to every interleaving: the invariant relates the shared
state to the monitors of all programs.  `Only` says which actions a program can take at all.

* `wp_bind`, `wp_except_bind`: composition;
* `yields_bind`: composition, for what a program returns;
* `wp_embedded`: programs among more actions;
* `wp_runs`, `wp_traced_runs`, `runs_except_bind`, `only_runs`: runs of one program alone;
* `Reachable.inv`: invariants of the shared state alone;
* `Reachable.rule`, `Overseen.rule`: invariants over the state and the monitors;
* `Reachable.among`: each program of an interleaving, alone among the others. -/

namespace MerkleVault.Lib.Program

universe u

variable {Op : Type → Type u} {α β ε δ : Type}

/-! ### Programs -/

/-- A program: a value, or an action and what follows on its result. -/
inductive Prog (Op : Type → Type u) (α : Type) : Type (max 1 u)
  | ret (a : α) : Prog Op α
  | act {β : Type} (op : Op β) (k : β → Prog Op α) : Prog Op α

namespace Prog

/-- One program after another. -/
def bind : Prog Op α → (α → Prog Op β) → Prog Op β
  | ret a, f => f a
  | act op k, f => act op fun r => bind (k r) f

instance : Monad (Prog Op) where
  pure := ret
  bind := bind

end Prog

/-- What failed returned nothing. -/
theorem error_ne_ok {ε α : Type*} {e : ε} {a : α} : (Except.error e : Except ε α) ≠ .ok a := nofun

/-- The program of one action. -/
def perform (op : Op β) : Prog Op β := .act op .ret

/-- A program that may fail. -/
abbrev Cmd (Op : Type → Type u) (ε α : Type) := ExceptT ε (Prog Op) α

/-- One action inside a program that may fail. -/
def call (op : Op β) : Cmd Op ε β := ExceptT.lift (perform op)

/-- The result of a program or its error, as a value. -/
def resultOf (x : Cmd Op ε α) : Cmd Op ε (Except ε α) := ExceptT.lift x.run

/-- The program of one action that may fail, its error converted. -/
def attempt (f : δ → ε) (op : Op (Except δ β)) : Cmd Op ε β :=
  ExceptT.mk (.act op fun r => .ret (r.mapError f))

/-- The program with its error converted. -/
def withError (f : δ → ε) (x : Cmd Op δ α) : Cmd Op ε α :=
  ExceptT.mk (x.run >>= fun r => pure (r.mapError f))

/-- The program that gives a value that may be missing, or fails. -/
def orThrow (e : ε) : Option α → Cmd Op ε α
  | some a => pure a
  | none => throw e

/-- The program that gives a result or its converted error. -/
def ofExcept (f : δ → ε) : Except δ α → Cmd Op ε α
  | .ok a => pure a
  | .error e => throw (f e)

/-! ### Weakest preconditions -/

/-- Which actions may be taken from a position, and which answers and positions follow. -/
structure Rules (Op : Type → Type u) (M : Type*) where
  allowed : ∀ {β : Type}, M → Op β → Prop
  moves : ∀ {β : Type}, M → Op β → β → M → Prop

variable {M : Type*} {R : Rules Op M}

/-- Every action is allowed when it is taken and `Q` holds at the end. -/
def Wp (R : Rules Op M) : Prog Op α → M → (M → α → Prop) → Prop
  | .ret a, m, Q => Q m a
  | .act op k, m, Q => R.allowed m op ∧ ∀ r m', R.moves m op r m' → Wp R (k r) m' Q

@[simp] theorem wp_pure {a : α} {m : M} {Q : M → α → Prop} :
    Wp R (pure a) m Q ↔ Q m a := Iff.rfl

@[simp] theorem wp_perform {op : Op β} {m : M} {Q : M → β → Prop} :
    Wp R (perform op) m Q ↔ R.allowed m op ∧ ∀ r m', R.moves m op r m' → Q m' r := Iff.rfl

theorem Wp.mono {Q Q' : M → α → Prop} (h : ∀ m a, Q m a → Q' m a) :
    ∀ {p : Prog Op α} {m : M}, Wp R p m Q → Wp R p m Q'
  | .ret a, m, hp => h m a hp
  | .act _ _, _, hp => ⟨hp.1, fun r m' hr => (hp.2 r m' hr).mono h⟩

/-- Where every action is allowed, nothing is to be shown for the trivial postcondition. -/
theorem wp_of_forall (hallowed : ∀ {β : Type} (m : M) (op : Op β), R.allowed m op)
    {Q : M → α → Prop} (hQ : ∀ m a, Q m a) : ∀ {p : Prog Op α} {m : M}, Wp R p m Q
  | .ret a, m => hQ m a
  | .act op _, m => ⟨hallowed m op, fun _ _ _ => wp_of_forall hallowed hQ⟩

@[simp] theorem wp_bind {f : α → Prog Op β} {Q : M → β → Prop} :
    ∀ {p : Prog Op α} {m : M}, Wp R (p >>= f) m Q ↔ Wp R p m fun m' a => Wp R (f a) m' Q
  | .ret a, m => Iff.rfl
  | .act op k, m => by
    show (R.allowed m op ∧ ∀ r m', R.moves m op r m' → Wp R (k r >>= f) m' Q) ↔ _
    simp only [Wp]
    refine and_congr_right fun _ => forall_congr' fun r => forall_congr' fun m' => ?_
    exact forall_congr' fun _ => wp_bind

@[simp] theorem wp_except_pure {a : α} {m : M} {Q : M → Except ε α → Prop} :
    Wp R (pure a : Cmd Op ε α).run m Q ↔ Q m (.ok a) := Iff.rfl

@[simp] theorem wp_throw {e : ε} {m : M} {Q : M → Except ε α → Prop} :
    Wp R (throw e : Cmd Op ε α).run m Q ↔ Q m (.error e) := Iff.rfl

@[simp] theorem wp_attempt {f : δ → ε} {op : Op (Except δ β)} {m : M}
    {Q : M → Except ε β → Prop} :
    Wp R (attempt f op).run m Q ↔
      R.allowed m op ∧ ∀ r m', R.moves m op r m' → Q m' (r.mapError f) := Iff.rfl

@[simp] theorem wp_orThrow {e : ε} {o : Option α} {m : M} {Q : M → Except ε α → Prop} :
    Wp R (orThrow e o : Cmd Op ε α).run m Q ↔
      (∀ a, o = some a → Q m (.ok a)) ∧ (o = none → Q m (.error e)) := by
  cases o with
  | none => simp [orThrow]
  | some a => simp [orThrow]

@[simp] theorem wp_ofExcept {f : δ → ε} {x : Except δ α} {m : M} {Q : M → Except ε α → Prop} :
    Wp R (ofExcept f x : Cmd Op ε α).run m Q ↔
      (∀ a, x = .ok a → Q m (.ok a)) ∧ ∀ e, x = .error e → Q m (.error (f e)) := by
  cases x with
  | ok a => simp [ofExcept]
  | error e => simp [ofExcept]

theorem wp_lift {p : Prog Op α} {m : M} {Q : M → Except ε α → Prop} :
    Wp R (ExceptT.lift p : Cmd Op ε α).run m Q ↔ Wp R p m fun m' a => Q m' (.ok a) := by
  show Wp R (p >>= fun a => pure (.ok a)) m Q ↔ _
  rw [wp_bind]
  rfl

@[simp] theorem wp_call {op : Op β} {m : M} {Q : M → Except ε β → Prop} :
    Wp R (call op : Cmd Op ε β).run m Q ↔
      R.allowed m op ∧ ∀ r m', R.moves m op r m' → Q m' (.ok r) := by
  rw [call, wp_lift, wp_perform]

@[simp] theorem wp_resultOf {x : Cmd Op ε α} {m : M} {Q : M → Except ε (Except ε α) → Prop} :
    Wp R (resultOf x).run m Q ↔ Wp R x.run m fun m' r => Q m' (.ok r) := wp_lift

@[simp] theorem wp_withError {f : δ → ε} {x : Cmd Op δ α} {m : M} {Q : M → Except ε α → Prop} :
    Wp R (withError f x).run m Q ↔ Wp R x.run m fun m' r => Q m' (r.mapError f) := wp_bind

@[simp] theorem wp_except_bind {x : Cmd Op ε α} {f : α → Cmd Op ε β} {m : M}
    {Q : M → Except ε β → Prop} :
    Wp R (x >>= f).run m Q ↔ Wp R x.run m fun m' r => match r with
      | .ok a => Wp R (f a).run m' Q
      | .error e => Q m' (.error e) := by
  show Wp R (x.run >>= ExceptT.bindCont f) m Q ↔ _
  rw [wp_bind]
  constructor
  · refine Wp.mono fun m' r h => ?_
    cases r with
    | ok a => exact h
    | error e => exact h
  · refine Wp.mono fun m' r h => ?_
    cases r with
    | ok a => exact h
    | error e => exact h

/-! ### Programs that do not move -/

/-- The program leaves the position where it is, whatever comes back. -/
def Still (R : Rules Op M) (x : Cmd Op ε α) : Prop := ∀ m, Wp R x.run m fun m' _ => m' = m

theorem still_pure (a : α) : Still R (pure a : Cmd Op ε α) := fun _ => rfl

theorem still_throw (e : ε) : Still R (throw e : Cmd Op ε α) := fun _ => rfl

theorem still_orThrow (e : ε) (o : Option α) : Still R (orThrow e o : Cmd Op ε α) := by
  intro m
  simp

theorem still_ofExcept (f : δ → ε) (x : Except δ α) : Still R (ofExcept f x : Cmd Op ε α) := by
  intro m
  simp

/-- The action is allowed everywhere and moves nowhere. -/
def Idle (R : Rules Op M) (op : Op β) : Prop :=
  ∀ m, R.allowed m op ∧ ∀ r m', R.moves m op r m' → m' = m

theorem still_call {op : Op β} (h : Idle R op) : Still R (call op : Cmd Op ε β) := by
  intro m
  rw [wp_call]
  exact h m

theorem still_withError {f : δ → ε} {x : Cmd Op δ α} (h : Still R x) : Still R (withError f x) := by
  intro m
  rw [wp_withError]
  exact h m

theorem still_resultOf {x : Cmd Op ε α} (h : Still R x) : Still R (resultOf x) := by
  intro m
  rw [wp_resultOf]
  exact h m

theorem still_attempt {f : δ → ε} {op : Op (Except δ β)} (h : Idle R op) :
    Still R (attempt f op) := by
  intro m
  rw [wp_attempt]
  exact h m

/-- **Composition after a program that does not move.** -/
theorem wp_still_bind {x : Cmd Op ε α} {f : α → Cmd Op ε β} {m : M} {Q : M → Except ε β → Prop}
    (hx : Still R x) (hok : ∀ a, Wp R (f a).run m Q) (herr : ∀ e, Q m (.error e)) :
    Wp R (x >>= f).run m Q := by
  rw [wp_except_bind]
  refine (hx m).mono ?_
  rintro m' r rfl
  cases r with
  | ok a => exact hok a
  | error e => exact herr e

/-- **Composition after a program with a known result** that does not move. -/
theorem wp_spec_bind {x : Cmd Op ε α} {f : α → Cmd Op ε β} {m : M} {P : α → Prop}
    {Q : M → Except ε β → Prop} (hx : Wp R x.run m fun m' r => m' = m ∧ ∀ a, r = .ok a → P a)
    (hok : ∀ a, P a → Wp R (f a).run m Q) (herr : ∀ e, Q m (.error e)) :
    Wp R (x >>= f).run m Q := by
  rw [wp_except_bind]
  refine hx.mono ?_
  rintro m' r ⟨rfl, hP⟩
  cases r with
  | ok a => exact hok a (hP a rfl)
  | error e => exact herr e

theorem still_bind {x : Cmd Op ε α} {f : α → Cmd Op ε β} (hx : Still R x)
    (hf : ∀ a, Still R (f a)) : Still R (x >>= f) :=
  fun m => wp_still_bind hx (fun a => hf a m) fun _ => rfl

/-! ### What a program returns -/

/-- When the program returns a value, the value and the position satisfy `P`. -/
def Yields (R : Rules Op M) (x : Cmd Op ε α) (m : M) (P : M → α → Prop) : Prop :=
  Wp R x.run m fun m' r => ∀ a, r = .ok a → P m' a

section Yields

variable {P : M → α → Prop} {m : M}

theorem yields_pure {a : α} (h : P m a) : Yields R (pure a : Cmd Op ε α) m P := by
  intro b hb
  obtain rfl := Except.ok.inj hb
  exact h

theorem yields_throw (e : ε) : Yields R (throw e : Cmd Op ε α) m P := fun _ h => nomatch h

theorem yields_orThrow {e : ε} {o : Option α} (h : ∀ a, o = some a → P m a) :
    Yields R (orThrow e o : Cmd Op ε α) m P := by
  cases o with
  | none => exact yields_throw e
  | some a => exact yields_pure (h a rfl)

theorem yields_ofExcept {f : δ → ε} {x : Except δ α} (h : ∀ a, x = .ok a → P m a) :
    Yields R (ofExcept f x : Cmd Op ε α) m P := by
  cases x with
  | error e => exact yields_throw (f e)
  | ok a => exact yields_pure (h a rfl)

theorem yields_call {op : Op α} (ha : R.allowed m op) (h : ∀ r m', R.moves m op r m' → P m' r) :
    Yields R (call op : Cmd Op ε α) m P := by
  rw [Yields, wp_call]
  refine ⟨ha, fun r m' hr b hb => ?_⟩
  obtain rfl := Except.ok.inj hb
  exact h r m' hr

theorem yields_attempt {f : δ → ε} {op : Op (Except δ α)} (ha : R.allowed m op)
    (h : ∀ a m', R.moves m op (.ok a) m' → P m' a) : Yields R (attempt f op) m P := by
  rw [Yields, wp_attempt]
  refine ⟨ha, fun r m' hr b hb => ?_⟩
  cases r with
  | error e => cases hb
  | ok a =>
    obtain rfl := Except.ok.inj hb
    exact h a m' hr

/-- **Composition.** -/
theorem yields_bind {x : Cmd Op ε α} {f : α → Cmd Op ε β} {Q : M → β → Prop} (hx : Yields R x m P)
    (hf : ∀ m' a, P m' a → Yields R (f a) m' Q) : Yields R (x >>= f) m Q := by
  rw [Yields, wp_except_bind]
  refine Wp.mono ?_ hx
  intro m' r hr
  cases r with
  | ok a => exact hf m' a (hr a rfl)
  | error e => exact fun _ h => nomatch h

theorem Yields.mono {P' : M → α → Prop} {x : Cmd Op ε α} (hx : Yields R x m P)
    (h : ∀ m' a, P m' a → P' m' a) : Yields R x m P' :=
  Wp.mono (fun m' _ hr a ha => h m' a (hr a ha)) hx

theorem yields_withError {f : δ → ε} {x : Cmd Op δ α} (h : Yields R x m P) :
    Yields R (withError f x) m P := by
  rw [Yields, wp_withError]
  refine Wp.mono ?_ h
  intro m' r hr a ha
  cases r with
  | ok b =>
    obtain rfl := Except.ok.inj ha
    exact hr b rfl
  | error e => cases ha

/-- A program that does not move gives something, where it is. -/
theorem Still.yields {x : Cmd Op ε α} (h : Still R x) : Yields R x m fun m' _ => m' = m :=
  (h m).mono fun _ _ hm _ _ => hm

end Yields

/-! ### Programs that return -/

/-- The program returns a value, which with the position satisfies `P`. -/
def Achieves (R : Rules Op M) (x : Cmd Op ε α) (m : M) (P : M → α → Prop) : Prop :=
  Wp R x.run m fun m' r => ∃ a, r = .ok a ∧ P m' a

section Achieves

variable {P : M → α → Prop} {m : M}

end Achieves

/-! ### Monitors -/

/-- A monitor watches the actions of one program: which are allowed, which answers it may count on,
and how its own state moves on. -/
structure Monitor (Op : Type → Type u) (M : Type*) where
  init : M
  allowed : ∀ {β : Type}, M → Op β → Prop
  expects : ∀ {β : Type}, M → Op β → β → Prop
  next : ∀ {β : Type}, M → Op β → β → M

/-- The rules of a monitor. -/
def Monitor.rules (P : Monitor Op M) : Rules Op M where
  allowed := P.allowed
  moves m op r m' := P.expects m op r ∧ P.next m op r = m'

/-- A program obeys a monitor and ends as the predicate says. -/
abbrev Conforms (P : Monitor Op M) : Prog Op α → M → (M → α → Prop) → Prop := Wp P.rules

@[simp] theorem Monitor.rules_allowed {P : Monitor Op M} {m : M} {op : Op β} :
    P.rules.allowed m op ↔ P.allowed m op := Iff.rfl

@[simp] theorem Monitor.rules_moves {P : Monitor Op M} {m m' : M} {op : Op β} {r : β} :
    P.rules.moves m op r m' ↔ P.expects m op r ∧ P.next m op r = m' := Iff.rfl

/-! ### Events -/

/-- One action and its answer. -/
structure Event (Op : Type → Type u) : Type (max 1 u) where
  {Res : Type}
  op : Op Res
  res : Res

/-! ### Runs of one program alone -/

variable {σ : Type}

/-- The program takes its actions one after the other, with nothing in between, and leaves the given
events. -/
def Runs (exec : ∀ {β : Type}, Op β → σ → β → σ → Prop) :
    Prog Op α → σ → List (Event Op) → α → σ → Prop
  | .ret a, s, hist, b, s' => a = b ∧ s = s' ∧ hist = []
  | .act op k, s, hist, b, s' =>
    ∃ r s₁ rest, exec op s r s₁ ∧ hist = ⟨op, r⟩ :: rest ∧ Runs exec (k r) s₁ rest b s'

/-- The actions of a system, all allowed. -/
def execRules (exec : ∀ {β : Type}, Op β → σ → β → σ → Prop) : Rules Op σ where
  allowed _ _ := True
  moves s op r s' := exec op s r s'

/-- The actions of a system, those of one kind allowed. -/
def guardedRules (exec : ∀ {β : Type}, Op β → σ → β → σ → Prop)
    (A : ∀ {β : Type}, Op β → Prop) : Rules Op σ where
  allowed _ op := A op
  moves s op r s' := exec op s r s'

section Runs

variable {exec : ∀ {β : Type}, Op β → σ → β → σ → Prop}

/-- A run is built from its end, one action before the other. -/
theorem exists_runs_ret {p : Prog Op α} {s : σ} {a : α} (hp : p = .ret a) :
    ∃ hist, Runs exec p s hist a s := by
  subst hp
  exact ⟨[], rfl, rfl, rfl⟩

theorem exists_runs_act {p : Prog Op α} {op : Op β} {k : β → Prog Op α} {s s' : σ} {a : α}
    (hp : p = .act op k) (r : β) (s₁ : σ) (hx : exec op s r s₁)
    (h : ∃ hist, Runs exec (k r) s₁ hist a s') : ∃ hist, Runs exec p s hist a s' := by
  subst hp
  obtain ⟨rest, hrest⟩ := h
  exact ⟨⟨op, r⟩ :: rest, r, s₁, rest, hx, rfl, hrest⟩

/-- The same, with a condition that the events meet. -/
theorem exists_runs_ret_all {E : Event Op → Prop} {p : Prog Op α} {s : σ} {a : α}
    (hp : p = .ret a) : ∃ hist, Runs exec p s hist a s ∧ ∀ e ∈ hist, E e := by
  subst hp
  exact ⟨[], ⟨rfl, rfl, rfl⟩, nofun⟩

theorem exists_runs_act_all {E : Event Op → Prop} {p : Prog Op α} {op : Op β} {k : β → Prog Op α}
    {s s' : σ} {a : α} (hp : p = .act op k) (r : β) (s₁ : σ) (hx : exec op s r s₁) (he : E ⟨op, r⟩)
    (h : ∃ hist, Runs exec (k r) s₁ hist a s' ∧ ∀ e ∈ hist, E e) :
    ∃ hist, Runs exec p s hist a s' ∧ ∀ e ∈ hist, E e := by
  subst hp
  obtain ⟨rest, hrest, hE⟩ := h
  exact ⟨⟨op, r⟩ :: rest, ⟨r, s₁, rest, hx, rfl, hrest⟩, List.forall_mem_cons.mpr ⟨he, hE⟩⟩

/-- The same, with a condition on the whole history. -/
theorem exists_runs_ret_with {P : List (Event Op) → Prop} {p : Prog Op α} {s : σ} {a : α}
    (hp : p = .ret a) (h : P []) : ∃ hist, Runs exec p s hist a s ∧ P hist := by
  subst hp
  exact ⟨[], ⟨rfl, rfl, rfl⟩, h⟩

theorem exists_runs_act_with {P : List (Event Op) → Prop} {p : Prog Op α} {op : Op β}
    {k : β → Prog Op α} {s s' : σ} {a : α} (hp : p = .act op k) (r : β) (s₁ : σ)
    (hx : exec op s r s₁) (h : ∃ hist, Runs exec (k r) s₁ hist a s' ∧ P (⟨op, r⟩ :: hist)) :
    ∃ hist, Runs exec p s hist a s' ∧ P hist := by
  subst hp
  obtain ⟨rest, hrest, hP⟩ := h
  exact ⟨⟨op, r⟩ :: rest, ⟨r, s₁, rest, hx, rfl, hrest⟩, hP⟩

/-- What the weakest precondition promises holds after every run. -/
theorem wp_runs {Q : σ → α → Prop} : ∀ {p : Prog Op α} {s s' : σ} {hist : List (Event Op)} {a : α},
    Wp (execRules exec) p s Q → Runs exec p s hist a s' → Q s' a
  | .ret _, _, _, _, _, hp, hr => by
    obtain ⟨rfl, rfl, -⟩ := hr
    exact hp
  | .act _ _, _, _, _, _, hp, ⟨r, s₁, _, hx, _, hr⟩ => wp_runs (hp.2 r s₁ hx) hr

/-- The same for the actions of one kind, which are then all that the run takes. -/
theorem wp_guarded_runs {A : ∀ {β : Type}, Op β → Prop} {Q : σ → α → Prop} :
    ∀ {p : Prog Op α} {s s' : σ} {hist : List (Event Op)} {a : α},
      Wp (guardedRules exec A) p s Q → Runs exec p s hist a s' → Q s' a ∧ ∀ e ∈ hist, A e.op
  | .ret _, _, _, _, _, hp, hr => by
    obtain ⟨rfl, rfl, rfl⟩ := hr
    exact ⟨hp, nofun⟩
  | .act _ _, _, _, _, _, hp, ⟨r, s₁, _, hx, hh, hr⟩ => by
    obtain ⟨hQ, hA⟩ := wp_guarded_runs (hp.2 r s₁ hx) hr
    subst hh
    exact ⟨hQ, List.forall_mem_cons.mpr ⟨hp.1, hA⟩⟩

/-- Runs of a composition. -/
theorem runs_bind {f : α → Prog Op β} {b : β} : ∀ {p : Prog Op α} {s s' : σ}
    {hist : List (Event Op)}, Runs exec (p >>= f) s hist b s' ↔
      ∃ a s₁ h₁ h₂, Runs exec p s h₁ a s₁ ∧ hist = h₁ ++ h₂ ∧ Runs exec (f a) s₁ h₂ b s'
  | .ret a, s, s', hist => by
    constructor
    · exact fun h => ⟨a, s, [], hist, ⟨rfl, rfl, rfl⟩, rfl, h⟩
    · rintro ⟨_, _, _, h₂, ⟨rfl, rfl, rfl⟩, rfl, h⟩
      exact h
  | .act op k, s, s', hist => by
    constructor
    · rintro ⟨r, s₁, rest, hx, rfl, h⟩
      obtain ⟨a, s₂, h₁, h₂, hp, rfl, hf⟩ := runs_bind.mp h
      exact ⟨a, s₂, ⟨op, r⟩ :: h₁, h₂, ⟨r, s₁, h₁, hx, rfl, hp⟩, rfl, hf⟩
    · rintro ⟨a, s₂, _, h₂, ⟨r, s₁, h₁, hx, rfl, hp⟩, rfl, hf⟩
      exact ⟨r, s₁, h₁ ++ h₂, hx, rfl, runs_bind.mpr ⟨a, s₂, h₁, h₂, hp, rfl, hf⟩⟩

/-- **Runs of a composition that may fail.** -/
theorem runs_except_bind {x : Cmd Op ε α} {f : α → Cmd Op ε β} {s s' : σ}
    {hist : List (Event Op)} {b : Except ε β} : Runs exec (x >>= f).run s hist b s' ↔
      (∃ e, b = .error e ∧ Runs exec x.run s hist (.error e) s') ∨
      ∃ a s₁ h₁ h₂, Runs exec x.run s h₁ (.ok a) s₁ ∧ hist = h₁ ++ h₂ ∧
        Runs exec (f a).run s₁ h₂ b s' := by
  show Runs exec (x.run >>= ExceptT.bindCont f) s hist b s' ↔ _
  rw [runs_bind]
  constructor
  · rintro ⟨r, s₁, h₁, h₂, hx, rfl, hf⟩
    cases r with
    | ok a => exact .inr ⟨a, s₁, h₁, h₂, hx, rfl, hf⟩
    | error e =>
      obtain ⟨rfl, rfl, rfl⟩ := hf
      rw [List.append_nil]
      exact .inl ⟨e, rfl, hx⟩
  · rintro (⟨e, rfl, hx⟩ | ⟨a, s₁, h₁, h₂, hx, rfl, hf⟩)
    · exact ⟨.error e, s', hist, [], hx, (List.append_nil hist).symm, rfl, rfl, rfl⟩
    · exact ⟨.ok a, s₁, h₁, h₂, hx, rfl, hf⟩

theorem runs_ok_bind {x : Cmd Op ε α} {f : α → Cmd Op ε β} {s s₁ s' : σ}
    {h₁ h₂ : List (Event Op)} {a : α} {b : Except ε β} (hx : Runs exec x.run s h₁ (.ok a) s₁)
    (hf : Runs exec (f a).run s₁ h₂ b s') : Runs exec (x >>= f).run s (h₁ ++ h₂) b s' :=
  runs_except_bind.mpr (.inr ⟨a, s₁, h₁, h₂, hx, rfl, hf⟩)

theorem exists_runs_ok_bind {x : Cmd Op ε α} {f : α → Cmd Op ε β} {s s₁ s' : σ}
    {h₁ : List (Event Op)} {a : α} {b : Except ε β} (hx : Runs exec x.run s h₁ (.ok a) s₁)
    (hf : ∃ h₂, Runs exec (f a).run s₁ h₂ b s') : ∃ hist, Runs exec (x >>= f).run s hist b s' := by
  obtain ⟨h₂, hf⟩ := hf
  exact ⟨_, runs_ok_bind hx hf⟩

theorem runs_pure {a : α} {s : σ} : Runs exec (pure a : Cmd Op ε α).run s [] (.ok a) s :=
  ⟨rfl, rfl, rfl⟩

theorem runs_orThrow {e : ε} {o : Option α} {a : α} {s : σ} (h : o = some a) :
    Runs exec (orThrow e o : Cmd Op ε α).run s [] (.ok a) s := by
  subst h
  exact runs_pure

theorem runs_ofExcept {f : δ → ε} {x : Except δ α} {a : α} {s : σ} (h : x = .ok a) :
    Runs exec (ofExcept f x : Cmd Op ε α).run s [] (.ok a) s := by
  subst h
  exact runs_pure

theorem runs_call {op : Op β} {r : β} {s s' : σ} (h : exec op s r s') :
    Runs exec (call op : Cmd Op ε β).run s [⟨op, r⟩] (.ok r) s' :=
  ⟨r, s', [], h, rfl, rfl, rfl, rfl⟩

theorem runs_attempt {f : δ → ε} {op : Op (Except δ β)} {r : Except δ β} {s s' : σ}
    (h : exec op s r s') : Runs exec (attempt f op).run s [⟨op, r⟩] (r.mapError f) s' :=
  ⟨r, s', [], h, rfl, rfl, rfl, rfl⟩

theorem runs_resultOf {x : Cmd Op ε α} {r : Except ε α} {s s' : σ} {hist : List (Event Op)}
    (h : Runs exec x.run s hist r s') : Runs exec (resultOf x).run s hist (.ok r) s' := by
  show Runs exec (x.run >>= fun a => pure (Except.ok a)) s hist (Except.ok r) s'
  exact runs_bind.mpr ⟨r, s', hist, [], h, (List.append_nil hist).symm, rfl, rfl, rfl⟩

theorem runs_withError {f : δ → ε} {x : Cmd Op δ α} {s s' : σ} {hist : List (Event Op)}
    {b : Except ε α} : Runs exec (withError f x).run s hist b s' ↔
      ∃ r, b = r.mapError f ∧ Runs exec x.run s hist r s' := by
  show Runs exec (x.run >>= fun r => pure (r.mapError f)) s hist b s' ↔ _
  rw [runs_bind]
  constructor
  · rintro ⟨r, s₁, h₁, _, hx, rfl, rfl, rfl, rfl⟩
    rw [List.append_nil]
    exact ⟨r, rfl, hx⟩
  · rintro ⟨r, rfl, hx⟩
    exact ⟨r, s', hist, [], hx, (List.append_nil hist).symm, rfl, rfl, rfl⟩

/-- The actions of a system whose events meet a condition, with the events so far. -/
def tracedRules (exec : ∀ {β : Type}, Op β → σ → β → σ → Prop) (E : Event Op → Prop) :
    Rules Op (σ × List (Event Op)) where
  allowed _ _ := True
  moves m op r m' := exec op m.1 r m'.1 ∧ E ⟨op, r⟩ ∧ m'.2 = m.2 ++ [⟨op, r⟩]

/-- What the weakest precondition promises holds after every run, of its events too. -/
theorem wp_traced_runs {E : Event Op → Prop} {Q : σ × List (Event Op) → α → Prop} :
    ∀ {p : Prog Op α} {s s' : σ} {past hist : List (Event Op)} {a : α},
      Wp (tracedRules exec E) p (s, past) Q → Runs exec p s hist a s' → (∀ e ∈ hist, E e) →
      Q (s', past ++ hist) a
  | .ret _, _, _, _, _, _, hp, hr, _ => by
    obtain ⟨rfl, rfl, rfl⟩ := hr
    rw [List.append_nil]
    exact hp
  | .act _ _, _, _, past, _, _, hp, ⟨r, s₁, rest, hx, hh, hr⟩, hE => by
    subst hh
    obtain ⟨he, hE⟩ := List.forall_mem_cons.mp hE
    have h := wp_traced_runs (hp.2 r (s₁, past ++ [⟨_, r⟩]) ⟨hx, he, rfl⟩) hr hE
    rwa [List.append_assoc] at h

/-- What holds of the actions of a system holds of them with their events. -/
theorem Wp.traced {E : Event Op → Prop} {Q : σ → α → Prop} :
    ∀ {p : Prog Op α} {m : σ × List (Event Op)}, Wp (execRules exec) p m.1 Q →
      Wp (tracedRules exec E) p m fun m' a => Q m'.1 a
  | .ret _, _, hp => hp
  | .act _ _, _, hp => ⟨trivial, fun r m' hx => (hp.2 r m'.1 hx.1).traced⟩

/-- The program gets to a state, running alone and not necessarily to its end. -/
def Visits (exec : ∀ {β : Type}, Op β → σ → β → σ → Prop) : Prog Op α → σ → σ → Prop
  | .ret _, s, s' => s = s'
  | .act op k, s, s' => s = s' ∨ ∃ r s₁, exec op s r s₁ ∧ Visits exec (k r) s₁ s'

/-- The actions of a system, allowed while the state meets a condition. -/
def watchedRules (exec : ∀ {β : Type}, Op β → σ → β → σ → Prop) (I : σ → Prop) : Rules Op σ where
  allowed s _ := I s
  moves s op r s' := exec op s r s'

/-- A condition that is watched holds in every state that the program gets to. -/
theorem wp_visits {I : σ → Prop} : ∀ {p : Prog Op α} {s s' : σ},
    Wp (watchedRules exec I) p s (fun s _ => I s) → Visits exec p s s' → I s'
  | .ret _, _, _, hp, hv => by
    obtain rfl : _ = _ := hv
    exact hp
  | .act _ _, _, _, hp, hv => by
    rcases hv with rfl | ⟨r, s₁, hx, hv⟩
    · exact hp.1
    · exact wp_visits (hp.2 r s₁ hx) hv

theorem visits_here : ∀ {p : Prog Op α} {s : σ}, Visits exec p s s
  | .ret _, _ => rfl
  | .act _ _, _ => .inl rfl

theorem visits_bind {f : α → Prog Op β} : ∀ {p : Prog Op α} {s s₁ s' : σ} {hist : List (Event Op)}
    {a : α}, Runs exec p s hist a s₁ → Visits exec (f a) s₁ s' → Visits exec (p >>= f) s s'
  | .ret _, _, _, _, _, _, hr, hv => by
    obtain ⟨rfl, rfl, -⟩ := hr
    exact hv
  | .act _ _, _, _, _, _, _, ⟨r, s₂, _, hx, _, hr⟩, hv => .inr ⟨r, s₂, hx, visits_bind hr hv⟩

/-- A program gets to where its continuation gets to. -/
theorem visits_ok_bind {x : Cmd Op ε α} {f : α → Cmd Op ε β} {s s₁ s' : σ}
    {hist : List (Event Op)} {a : α} (hx : Runs exec x.run s hist (.ok a) s₁)
    (hf : Visits exec (f a).run s₁ s') : Visits exec (x >>= f).run s s' :=
  visits_bind (f := ExceptT.bindCont f) hx hf

end Runs

/-! ### Programs of given actions -/

/-- Every action that the program can take is of the given kind. -/
def Only (A : ∀ {β : Type}, Op β → Prop) : Prog Op α → Prop
  | .ret _ => True
  | .act op k => A op ∧ ∀ r, Only A (k r)

section Only

variable {A : ∀ {β : Type}, Op β → Prop}

theorem Only.mono {B : ∀ {β : Type}, Op β → Prop} (h : ∀ {β : Type} {op : Op β}, A op → B op) :
    ∀ {p : Prog Op α}, Only A p → Only B p
  | .ret _, _ => trivial
  | .act _ _, hp => ⟨h hp.1, fun r => (hp.2 r).mono h⟩

theorem only_bind {f : α → Prog Op β} (hf : ∀ a, Only A (f a)) :
    ∀ {p : Prog Op α}, Only A p → Only A (p >>= f)
  | .ret a, _ => hf a
  | .act _ _, hp => ⟨hp.1, fun r => only_bind hf (hp.2 r)⟩

theorem only_except_bind {x : Cmd Op ε α} {f : α → Cmd Op ε β} (hx : Only A x.run)
    (hf : ∀ a, Only A (f a).run) : Only A (x >>= f).run := by
  refine only_bind (fun r => ?_) hx
  cases r with
  | ok a => exact hf a
  | error e => exact trivial

theorem only_pure (a : α) : Only A (pure a : Cmd Op ε α).run := trivial

theorem only_throw (e : ε) : Only A (throw e : Cmd Op ε α).run := trivial

theorem only_call {op : Op β} (h : A op) : Only A (call op : Cmd Op ε β).run :=
  ⟨h, fun _ => trivial⟩

theorem only_attempt {f : δ → ε} {op : Op (Except δ β)} (h : A op) : Only A (attempt f op).run :=
  ⟨h, fun _ => trivial⟩

theorem only_orThrow (e : ε) (o : Option α) : Only A (orThrow e o : Cmd Op ε α).run := by
  cases o with
  | none => exact trivial
  | some a => exact trivial

theorem only_ofExcept (f : δ → ε) (x : Except δ α) : Only A (ofExcept f x : Cmd Op ε α).run := by
  cases x with
  | ok a => exact trivial
  | error e => exact trivial

theorem only_resultOf {x : Cmd Op ε α} (h : Only A x.run) : Only A (resultOf x).run := by
  have hf : ∀ r : Except ε α, Only A (pure (.ok r) : Prog Op (Except ε (Except ε α))) :=
    fun _ => trivial
  exact only_bind hf h

theorem only_withError {f : δ → ε} {x : Cmd Op δ α} (h : Only A x.run) :
    Only A (withError f x).run := by
  have hf : ∀ r : Except δ α, Only A (pure (r.mapError f) : Prog Op (Except ε α)) := fun _ => trivial
  exact only_bind hf h

/-- A program of actions that keep an invariant keeps it. -/
theorem wp_of_only {R : Rules Op M} {I : M → Prop} (hall : ∀ {β : Type} {m : M} {op : Op β},
      A op → I m → R.allowed m op)
    (h : ∀ {β : Type} {op : Op β} {m m' : M} {r : β}, A op → I m → R.moves m op r m' → I m') :
    ∀ {p : Prog Op α} {m : M}, Only A p → I m → Wp R p m fun m' _ => I m' := by
  intro p
  induction p with
  | ret a => exact fun _ hm => hm
  | act op k ih =>
    exact fun hp hm => ⟨hall hp.1 hm, fun r m' hr => ih r (hp.2 r) (h hp.1 hm hr)⟩

/-- A program of actions that move nowhere does not move. -/
theorem still_of_only {R : Rules Op M} {x : Cmd Op ε α}
    (h : ∀ {β : Type} {op : Op β}, A op → Idle R op) (hx : Only A x.run) : Still R x := by
  intro m
  refine wp_of_only (I := fun m' => m' = m) (fun ha _ => (h ha _).1) ?_ hx rfl
  rintro β op m' m'' r ha rfl hr
  exact (h ha m').2 r m'' hr

theorem only_of_forall (h : ∀ {β : Type} (op : Op β), A op) : ∀ {p : Prog Op α}, Only A p
  | .ret _ => trivial
  | .act op _ => ⟨h op, fun _ => only_of_forall h⟩

/-- What holds of the actions of a system holds of its actions of one kind. -/
theorem Wp.guard {exec : ∀ {β : Type}, Op β → σ → β → σ → Prop} {Q : σ → α → Prop} :
    ∀ {p : Prog Op α} {s : σ}, Only A p → Wp (execRules exec) p s Q →
      Wp (guardedRules exec A) p s Q
  | .ret _, _, _, hQ => hQ
  | .act _ _, _, hp, hQ => ⟨hp.1, fun r s' hr => (hQ.2 r s' hr).guard (hp.2 r)⟩

theorem Still.guard {exec : ∀ {β : Type}, Op β → σ → β → σ → Prop} {x : Cmd Op ε α}
    (h : Still (execRules exec) x) (hx : Only A x.run) : Still (guardedRules exec A) x :=
  fun s => (h s).guard hx

/-- A program whose actions always have an answer has a run. -/
theorem exists_runs {exec : ∀ {β : Type}, Op β → σ → β → σ → Prop}
    (h : ∀ {β : Type} {op : Op β}, A op → ∀ s, ∃ r s', exec op s r s') :
    ∀ {p : Prog Op α}, Only A p → ∀ s, ∃ hist a s', Runs exec p s hist a s'
  | .ret a, _, s => ⟨[], a, s, rfl, rfl, rfl⟩
  | .act _ _, hp, s => by
    obtain ⟨r, s₁, hx⟩ := h hp.1 s
    obtain ⟨hist, a, s', hr⟩ := exists_runs h (hp.2 r) s₁
    exact ⟨_, a, s', r, s₁, hist, hx, rfl, hr⟩

/-- **Invariants of the actions of one kind**, with what each event then shows. -/
theorem only_runs {exec : ∀ {β : Type}, Op β → σ → β → σ → Prop} {I : σ → Prop}
    {E : Event Op → Prop}
    (h : ∀ {β : Type} {op : Op β} {s s' : σ} {r : β}, A op → I s → exec op s r s' →
      I s' ∧ E ⟨op, r⟩) :
    ∀ {p : Prog Op α} {s s' : σ} {hist : List (Event Op)} {a : α}, Only A p → I s →
      Runs exec p s hist a s' → I s' ∧ ∀ e ∈ hist, E e := by
  intro p
  induction p with
  | ret b =>
    rintro s s' hist a - hs ⟨-, rfl, rfl⟩
    exact ⟨hs, nofun⟩
  | act op k ih =>
    rintro s s' hist a hp hs ⟨r, s₁, rest, hx, rfl, hr⟩
    obtain ⟨hs₁, he⟩ := h hp.1 hs hx
    obtain ⟨hs', hrest⟩ := ih r (hp.2 r) hs₁ hr
    exact ⟨hs', List.forall_mem_cons.mpr ⟨he, hrest⟩⟩

end Only

/-! ### Programs over more actions -/

/-- The program with its actions embedded among others. -/
def Prog.embed {Op' : Type → Type u} (f : ∀ {β : Type}, Op β → Op' β) : Prog Op α → Prog Op' α
  | .ret a => .ret a
  | .act op k => .act (f op) fun r => (k r).embed f

/-- The embedded program, with its error converted. -/
def embedded {Op' : Type → Type u} (f : ∀ {β : Type}, Op β → Op' β) (g : δ → ε) (x : Cmd Op δ α) :
    Cmd Op' ε α :=
  withError g (ExceptT.mk (x.run.embed f))

section Embed

variable {Op' : Type → Type u} {f : ∀ {β : Type}, Op β → Op' β}

/-- The rules of the embedding actions for the embedded ones. -/
def Rules.pull (R : Rules Op' M) (f : ∀ {β : Type}, Op β → Op' β) : Rules Op M where
  allowed m op := R.allowed m (f op)
  moves m op r m' := R.moves m (f op) r m'

theorem wp_embed {R : Rules Op' M} {Q : M → α → Prop} : ∀ {p : Prog Op α} {m : M},
    Wp R (p.embed f) m Q ↔ Wp (R.pull f) p m Q
  | .ret _, _ => Iff.rfl
  | .act _ _, _ => by
    refine and_congr_right fun _ => forall_congr' fun r => forall_congr' fun m' => ?_
    exact forall_congr' fun _ => wp_embed

/-- **An embedded program** has the weakest preconditions of the program. -/
theorem wp_embedded {R : Rules Op' M} {g : δ → ε} {x : Cmd Op δ α} {m : M}
    {Q : M → Except ε α → Prop} : Wp R (embedded f g x).run m Q ↔
      Wp (R.pull f) x.run m fun m' r => Q m' (r.mapError g) := by
  rw [embedded, wp_withError]
  exact wp_embed

theorem yields_embedded {R : Rules Op' M} {g : δ → ε} {x : Cmd Op δ α} {m : M} {P : M → α → Prop}
    (h : Yields (R.pull f) x m P) : Yields R (embedded f g x) m P := by
  rw [Yields, wp_embedded]
  refine Wp.mono ?_ h
  intro m' r hr a ha
  cases r with
  | ok b =>
    obtain rfl := Except.ok.inj ha
    exact hr b rfl
  | error e => cases ha

theorem still_embedded {R : Rules Op' M} {g : δ → ε} {x : Cmd Op δ α} (h : Still (R.pull f) x) :
    Still R (embedded f g x) := by
  intro m
  rw [wp_embedded]
  exact h m

theorem only_embed {A : ∀ {β : Type}, Op' β → Prop} : ∀ {p : Prog Op α},
    Only (fun op => A (f op)) p → Only A (p.embed f)
  | .ret _, _ => trivial
  | .act _ _, hp => ⟨hp.1, fun r => only_embed (hp.2 r)⟩

theorem only_embedded {A : ∀ {β : Type}, Op' β → Prop} {g : δ → ε} {x : Cmd Op δ α}
    (h : Only (fun op => A (f op)) x.run) : Only A (embedded f g x).run :=
  only_withError (only_embed h)

theorem runs_embed {exec' : ∀ {β : Type}, Op' β → σ → β → σ → Prop} {b : α} :
    ∀ {p : Prog Op α} {s s' : σ} {hist : List (Event Op')},
      Runs exec' (p.embed f) s hist b s' ↔ ∃ hist', hist = hist'.map (fun e => ⟨f e.op, e.res⟩) ∧
        Runs (fun op s r s' => exec' (f op) s r s') p s hist' b s'
  | .ret a, s, s', hist => by
    constructor
    · rintro ⟨rfl, rfl, rfl⟩
      exact ⟨[], rfl, rfl, rfl, rfl⟩
    · rintro ⟨_, rfl, rfl, rfl, rfl⟩
      exact ⟨rfl, rfl, rfl⟩
  | .act op k, s, s', hist => by
    constructor
    · rintro ⟨r, s₁, rest, hx, rfl, hr⟩
      obtain ⟨hist', rfl, hr'⟩ := runs_embed.mp hr
      exact ⟨⟨op, r⟩ :: hist', rfl, r, s₁, hist', hx, rfl, hr'⟩
    · rintro ⟨_, rfl, r, s₁, rest, hx, rfl, hr⟩
      exact ⟨r, s₁, _, hx, rfl, runs_embed.mpr ⟨rest, rfl, hr⟩⟩

end Embed

/-! ### Interleavings -/

/-- The monitor after a history. -/
def Monitor.after (P : Monitor Op M) (hist : List (Event Op)) : M :=
  hist.foldl (fun m e => P.next m e.op e.res) P.init

@[simp] theorem Monitor.after_nil (P : Monitor Op M) : P.after [] = P.init := rfl

@[simp] theorem Monitor.after_concat (P : Monitor Op M) (hist : List (Event Op)) (e : Event Op) :
    P.after (hist ++ [e]) = P.next (P.after hist) e.op e.res := by
  simp [Monitor.after]

/-- What each action of a history shows, where it shows something. -/
def collect {γ : Type*} (f : ∀ {β : Type}, Op β → β → Option γ) (hist : List (Event Op)) : List γ :=
  hist.filterMap fun e => f e.op e.res

theorem collect_concat {γ : Type*} (f : ∀ {β : Type}, Op β → β → Option γ)
    (hist : List (Event Op)) (e : Event Op) :
    collect f (hist ++ [e]) = collect f hist ++ (f e.op e.res).toList := by
  unfold collect
  rw [List.filterMap_append]
  cases h : f e.op e.res <;> simp [h]

/-! ### Histories -/

/-- The monitor that allows everything and remembers it. -/
def history : Monitor Op (List (Event Op)) where
  init := []
  allowed _ _ := True
  expects _ _ _ := True
  next h op r := h ++ [⟨op, r⟩]

theorem history_after (hist : List (Event Op)) : history.after hist = hist := by
  induction hist using List.reverseRecOn with
  | nil => rfl
  | append_singleton hist e ih =>
    rw [Monitor.after_concat, ih]
    rfl

theorem history_grows : ∀ {p : Prog Op α} {h : List (Event Op)},
    Conforms history p h fun h' _ => h <+: h'
  | .ret _, h => List.prefix_refl h
  | .act op _, h => by
    refine ⟨trivial, ?_⟩
    rintro r _ ⟨-, rfl⟩
    exact history_grows.mono fun h' _ hp => (List.prefix_append h [⟨op, r⟩]).trans hp

theorem Wp.and {Q Q' : M → α → Prop} : ∀ {p : Prog Op α} {m : M}, Wp R p m Q → Wp R p m Q' →
    Wp R p m fun m a => Q m a ∧ Q' m a
  | .ret _, _, hQ, hQ' => ⟨hQ, hQ'⟩
  | .act _ _, _, hQ, hQ' => ⟨hQ.1, fun r m' hr => (hQ.2 r m' hr).and (hQ'.2 r m' hr)⟩

theorem Wp.forall {ι : Type*} {Q : ι → M → α → Prop} {p : Prog Op α} {m : M} (h : Wp R p m fun _ _ => True)
    (hQ : ∀ i, Wp R p m (Q i)) : Wp R p m fun m a => ∀ i, Q i m a := by
  induction p generalizing m with
  | ret a => exact hQ
  | act op k ih => exact ⟨h.1, fun r m' hr => ih r (h.2 r m' hr) fun i => (hQ i).2 r m' hr⟩

/-- **Composition along a history**: what the first program says of its history is there for the
second, whose history goes on from it. -/
theorem history_bind {x : Cmd Op ε α} {f : α → Cmd Op ε β} {h : List (Event Op)}
    {F : List (Event Op) → α → Prop} {Q : List (Event Op) → Except ε β → Prop}
    (hx : Conforms history x.run h fun h' r => ∀ a, r = .ok a → F h' a)
    (hok : ∀ h' a, h <+: h' → F h' a → Conforms history (f a).run h' Q)
    (herr : ∀ h' e, Q h' (.error e)) : Conforms history (x >>= f).run h Q := by
  rw [Conforms, wp_except_bind]
  refine (hx.and history_grows).mono ?_
  rintro h' r ⟨hF, hp⟩
  cases r with
  | ok a => exact hok h' a hp (hF a rfl)
  | error e => exact herr h' e

/-! ### A run among other programs -/

/-- One action with the states around it; `own` tells the actions of the program from those of
others. -/
structure Transition (σ : Type) (Op : Type → Type u) : Type (max 1 u) where
  own : Bool
  before : σ
  event : Event Op
  after : σ

/-- The transitions follow one another. -/
def Path (exec : ∀ {β : Type}, Op β → σ → β → σ → Prop) : σ → List (Transition σ Op) → σ → Prop
  | s, [], s' => s = s'
  | s, t :: ts, s' => t.before = s ∧ exec t.event.op s t.event.res t.after ∧ Path exec t.after ts s'

/-- Other programs take actions, one after the other. -/
def Others (exec : ∀ {β : Type}, Op β → σ → β → σ → Prop) (s : σ) (ts : List (Transition σ Op))
    (s' : σ) : Prop := Path exec s ts s' ∧ ∀ t ∈ ts, t.own = false

/-- The program runs, and before each of its actions other programs take any number of theirs. -/
def RunsAmong (exec : ∀ {β : Type}, Op β → σ → β → σ → Prop) :
    Prog Op α → σ → List (Transition σ Op) → α → σ → Prop
  | .ret a, s, trace, b, s' => a = b ∧ s = s' ∧ trace = []
  | .act op k, s, trace, b, s' => ∃ others s₁ r s₂ rest, Others exec s others s₁ ∧
    exec op s₁ r s₂ ∧ trace = others ++ ⟨true, s₁, ⟨op, r⟩, s₂⟩ :: rest ∧
    RunsAmong exec (k r) s₂ rest b s'

/-- The actions of a program among those of others, with what was done so far. -/
def amongRules (exec : ∀ {β : Type}, Op β → σ → β → σ → Prop) :
    Rules Op (σ × List (Transition σ Op)) where
  allowed _ _ := True
  moves m op r m' := ∃ others s₁ s₂, Others exec m.1 others s₁ ∧ exec op s₁ r s₂ ∧
    m' = (s₂, m.2 ++ others ++ [⟨true, s₁, ⟨op, r⟩, s₂⟩])

section Among

variable {exec : ∀ {β : Type}, Op β → σ → β → σ → Prop}

theorem path_append : ∀ {ts us : List (Transition σ Op)} {s s' : σ},
    Path exec s (ts ++ us) s' ↔ ∃ s₁, Path exec s ts s₁ ∧ Path exec s₁ us s'
  | [], us, s, s' => by
    constructor
    · exact fun h => ⟨s, rfl, h⟩
    · rintro ⟨_, rfl, h⟩
      exact h
  | t :: ts, us, s, s' => by
    constructor
    · rintro ⟨hbefore, hx, h⟩
      obtain ⟨s₁, hts, hus⟩ := path_append.mp h
      exact ⟨s₁, ⟨hbefore, hx, hts⟩, hus⟩
    · rintro ⟨s₁, ⟨hbefore, hx, hts⟩, hus⟩
      exact ⟨hbefore, hx, path_append.mpr ⟨s₁, hts, hus⟩⟩

/-- **Invariants along a path**, whose transitions may be known to meet a condition. -/
theorem Path.inv {I : σ → Prop} {E : Transition σ Op → Prop}
    (h : ∀ t : Transition σ Op, I t.before → exec t.event.op t.before t.event.res t.after →
      E t → I t.after) : ∀ {ts : List (Transition σ Op)} {s s' : σ}, I s → Path exec s ts s' →
      (∀ t ∈ ts, E t) → I s'
  | [], _, _, hs, hts, _ => by
    obtain rfl : _ = _ := hts
    exact hs
  | t :: ts, _, _, hs, ⟨hbefore, hx, hts⟩, hE => by
    obtain ⟨ht, hE⟩ := List.forall_mem_cons.mp hE
    subst hbefore
    exact Path.inv h (h t hs hx ht) hts hE

theorem Others.concat {s s₁ : σ} {ts : List (Transition σ Op)} {t : Transition σ Op}
    (h : Others exec s ts s₁) (hown : t.own = false) (hbefore : t.before = s₁)
    (hx : exec t.event.op s₁ t.event.res t.after) : Others exec s (ts ++ [t]) t.after := by
  refine ⟨path_append.mpr ⟨s₁, h.1, hbefore, hx, rfl⟩, fun t' ht' => ?_⟩
  rcases List.mem_append.mp ht' with ht' | ht'
  · exact h.2 t' ht'
  · rw [List.mem_singleton.mp ht']
    exact hown

/-- All that was done, by the program and by the others. -/
theorem RunsAmong.path : ∀ {p : Prog Op α} {s s' : σ} {trace : List (Transition σ Op)} {a : α},
    RunsAmong exec p s trace a s' → Path exec s trace s'
  | .ret _, _, _, _, _, ⟨_, hs, htrace⟩ => by
    subst htrace
    exact hs
  | .act _ _, _, _, _, _, ⟨_, s₁, _, _, _, hothers, hx, htrace, hr⟩ => by
    subst htrace
    exact path_append.mpr ⟨s₁, hothers.1, rfl, hx, hr.path⟩

/-- What the weakest precondition promises holds after every run among others. -/
theorem wp_runsAmong {Q : σ × List (Transition σ Op) → α → Prop} : ∀ {p : Prog Op α} {s s' : σ}
    {past trace : List (Transition σ Op)} {a : α}, Wp (amongRules exec) p (s, past) Q →
    RunsAmong exec p s trace a s' → Q (s', past ++ trace) a
  | .ret _, _, _, _, _, _, hp, hr => by
    obtain ⟨rfl, rfl, rfl⟩ := hr
    rw [List.append_nil]
    exact hp
  | .act _ _, _, _, past, _, _, hp, ⟨others, s₁, r, s₂, rest, hothers, hx, htrace, hr⟩ => by
    have h := wp_runsAmong (hp.2 r (s₂, past ++ others ++ [⟨true, s₁, ⟨_, r⟩, s₂⟩])
      ⟨others, s₁, s₂, hothers, hx, rfl⟩) hr
    rw [htrace]
    simpa only [List.append_assoc, List.cons_append, List.nil_append] using h

end Among

/-! ### Configurations -/

/-- A running or ended program: as it was started, what is left of it, and the actions it has
taken. -/
structure Task (Op : Type → Type u) (α : Type) : Type (max 1 u) where
  source : Prog Op α
  prog : Prog Op α
  hist : List (Event Op)

/-- The state and the programs under way. -/
structure Config (σ : Type) (Op : Type → Type u) (α : Type) : Type (max 1 u) where
  state : σ
  tasks : List (Task Op α)

theorem getElem?_set_some {γ : Type*} {l : List γ} {i j : ℕ} {a b : γ} (h : (l.set i a)[j]? = some b) :
    j = i ∧ b = a ∨ j ≠ i ∧ l[j]? = some b := by
  by_cases hij : j = i
  · subst hij
    rw [List.getElem?_set_self'] at h
    obtain ⟨_, _, hb⟩ := Option.map_eq_some_iff.mp h
    exact .inl ⟨rfl, hb.symm⟩
  · rw [List.getElem?_set_ne fun h => hij h.symm] at h
    exact .inr ⟨hij, h⟩

theorem getElem?_concat_some {γ : Type*} {l : List γ} {j : ℕ} {a b : γ} (h : (l ++ [a])[j]? = some b) :
    l[j]? = some b ∨ b = a := by
  rcases Nat.lt_or_ge j l.length with hlt | hge
  · rw [List.getElem?_append_left hlt] at h
    exact .inl h
  · rw [List.getElem?_append_right hge] at h
    exact .inr (List.mem_singleton.mp (List.mem_of_getElem? h))

/-- What actions do, which programs clients start and what a restart leaves. -/
structure System (σ : Type) (Op : Type → Type u) (α : Type) where
  exec : ∀ {β : Type}, Op β → σ → β → σ → Prop
  starts : Prog Op α → Prop
  restart : σ → σ → Prop

/-- The system that also writes down what its actions show, across restarts. -/
def System.observed {γ : Type} (S : System σ Op α) (f : ∀ {β : Type}, Op β → β → Option γ) :
    System (σ × List γ) Op α where
  exec op s r s' := S.exec op s.1 r s'.1 ∧ s'.2 = s.2 ++ (f op r).toList
  starts := S.starts
  restart s s' := S.restart s.1 s'.1 ∧ s'.2 = s.2

/-- A condition on a step: the history of the program, the state before, and the action with its
answer. -/
abbrev Guard (σ : Type) (Op : Type → Type u) := List (Event Op) → σ → Event Op → Prop

/-- The guard that admits every step. -/
def unguarded {σ : Type} {Op : Type → Type u} : Guard σ Op := fun _ _ _ => True

variable (S : System σ Op α) (G : Guard σ Op)

/-- A program starts, one of them takes an action, or a restart ends them all. -/
inductive Step : Config σ Op α → Config σ Op α → Prop
  | start {c : Config σ Op α} (p : Prog Op α) (hp : S.starts p) :
      Step c ⟨c.state, c.tasks ++ [⟨p, p, []⟩]⟩
  | act {c : Config σ Op α} {β : Type} (i : ℕ) (p : Prog Op α) (op : Op β) (k : β → Prog Op α)
      (hist : List (Event Op)) (r : β) (s' : σ) (hi : c.tasks[i]? = some ⟨p, .act op k, hist⟩)
      (hx : S.exec op c.state r s') (hg : G hist c.state ⟨op, r⟩) :
      Step c ⟨s', c.tasks.set i ⟨p, k r, hist ++ [⟨op, r⟩]⟩⟩
  | restart {c : Config σ Op α} (s' : σ) (hr : S.restart c.state s') : Step c ⟨s', []⟩

/-- The configurations that a run from `s₀` with no program running gets to. -/
def Reachable (s₀ : σ) (c : Config σ Op α) : Prop :=
  Relation.ReflTransGen (Step S G) ⟨s₀, []⟩ c

variable {S G}

theorem Reachable.here (S : System σ Op α) (G : Guard σ Op) (s₀ : σ) : Reachable S G s₀ ⟨s₀, []⟩ :=
  Relation.ReflTransGen.refl

theorem Reachable.start {s₀ : σ} {c : Config σ Op α} (h : Reachable S G s₀ c) (p : Prog Op α)
    (hp : S.starts p) : Reachable S G s₀ ⟨c.state, c.tasks ++ [⟨p, p, []⟩]⟩ :=
  h.tail (.start p hp)

theorem Reachable.act {s₀ : σ} {c : Config σ Op α} (h : Reachable S G s₀ c) (i : ℕ)
    {p : Prog Op α} {op : Op β} {k : β → Prog Op α} {hist : List (Event Op)}
    (hi : c.tasks[i]? = some ⟨p, .act op k, hist⟩) (r : β) (s' : σ) (hx : S.exec op c.state r s')
    (hg : G hist c.state ⟨op, r⟩) :
    Reachable S G s₀ ⟨s', c.tasks.set i ⟨p, k r, hist ++ [⟨op, r⟩]⟩⟩ :=
  h.tail (.act i p op k hist r s' hi hx hg)

/-- The only task takes a step. -/
theorem Reachable.alone {s₀ s : σ} {p : Prog Op α} {op : Op β} {k : β → Prog Op α}
    {hist : List (Event Op)} (h : Reachable S G s₀ ⟨s, [⟨p, .act op k, hist⟩]⟩) (r : β) (s' : σ)
    (hx : S.exec op s r s') (hg : G hist s ⟨op, r⟩) :
    Reachable S G s₀ ⟨s', [⟨p, k r, hist ++ [⟨op, r⟩]⟩]⟩ :=
  h.act 0 rfl r s' hx hg

/-- The first of two tasks takes a step. -/
theorem Reachable.first {s₀ s : σ} {t : Task Op α} {p : Prog Op α} {op : Op β} {k : β → Prog Op α}
    {hist : List (Event Op)} (h : Reachable S G s₀ ⟨s, [⟨p, .act op k, hist⟩, t]⟩) (r : β) (s' : σ)
    (hx : S.exec op s r s') (hg : G hist s ⟨op, r⟩) :
    Reachable S G s₀ ⟨s', [⟨p, k r, hist ++ [⟨op, r⟩]⟩, t]⟩ :=
  h.act 0 rfl r s' hx hg

/-- The second of them does. -/
theorem Reachable.second {s₀ s : σ} {t : Task Op α} {p : Prog Op α} {op : Op β} {k : β → Prog Op α}
    {hist : List (Event Op)} (h : Reachable S G s₀ ⟨s, [t, ⟨p, .act op k, hist⟩]⟩) (r : β) (s' : σ)
    (hx : S.exec op s r s') (hg : G hist s ⟨op, r⟩) :
    Reachable S G s₀ ⟨s', [t, ⟨p, k r, hist ++ [⟨op, r⟩]⟩]⟩ :=
  h.act 1 rfl r s' hx hg

theorem Reachable.runs_on {s₀ : σ} {ts : List (Task Op α)} {p : Prog Op α} {a : α} :
    ∀ {q : Prog Op α} {s s' : σ} {past hist : List (Event Op)},
      Reachable S G s₀ ⟨s, ts ++ [⟨p, q, past⟩]⟩ → Runs S.exec q s hist a s' →
      (∀ e ∈ hist, ∀ past s, G past s e) → Reachable S G s₀ ⟨s', ts ++ [⟨p, .ret a, past ++ hist⟩]⟩
  | .ret b, s, s', past, hist, h, hr, _ => by
    obtain ⟨rfl, rfl, rfl⟩ := hr
    rwa [List.append_nil]
  | .act op k, s, s', past, hist, h, hr, hG => by
    obtain ⟨r, s₁, rest, hx, rfl, hrest⟩ := hr
    obtain ⟨hg, hG⟩ := List.forall_mem_cons.mp hG
    have hlast : (ts ++ [⟨p, .act op k, past⟩])[ts.length]? = some (⟨p, .act op k, past⟩ : Task Op α) := by
      rw [List.getElem?_append_right le_rfl, Nat.sub_self]
      rfl
    have hstep := h.act ts.length hlast r s₁ hx (hg past s)
    rw [show (⟨s, ts ++ [⟨p, .act op k, past⟩]⟩ : Config σ Op α).tasks = _ from rfl,
      List.set_append_right _ _ le_rfl, Nat.sub_self] at hstep
    have hdone := hstep.runs_on hrest hG
    rwa [List.append_assoc] at hdone

/-- A program that starts and ends with no step of the others in between. -/
theorem Reachable.runs {s₀ s' : σ} {c : Config σ Op α} (h : Reachable S G s₀ c) {p : Prog Op α}
    (hp : S.starts p) {hist : List (Event Op)} {a : α} (hr : Runs S.exec p c.state hist a s')
    (hG : ∀ e ∈ hist, ∀ past s, G past s e) :
    Reachable S G s₀ ⟨s', c.tasks ++ [⟨p, .ret a, hist⟩]⟩ :=
  (h.start p hp).runs_on hr hG

/-- **Invariants of the shared state**: kept by every action and every restart. -/
theorem Reachable.inv {s₀ : σ} {c : Config σ Op α} (I : σ → Prop) (h₀ : I s₀)
    (hact : ∀ {β : Type} {op : Op β} {hist : List (Event Op)} {s s' : σ} {r : β}, I s →
      S.exec op s r s' → G hist s ⟨op, r⟩ → I s')
    (hrestart : ∀ {s s' : σ}, I s → S.restart s s' → I s') (h : Reachable S G s₀ c) :
    I c.state := by
  induction h with
  | refl => exact h₀
  | tail _ hstep ih =>
    cases hstep with
    | start p hp => exact ih
    | act i p op k hist r s' hi hx hg => exact hact ih hx hg
    | restart s' hr => exact hrestart ih hr

/-- The monitors of all programs. -/
def monitors (P : Monitor Op M) (ts : List (Task Op α)) : List M := ts.map fun t => P.after t.hist

/-- The configurations that a run gets to under a guard that sees all of them. -/
def Overseen (S : System σ Op α) (G : Config σ Op α → Guard σ Op) (s₀ : σ) (c : Config σ Op α) : Prop :=
  Relation.ReflTransGen (fun c c' => Step S (G c) c c') ⟨s₀, []⟩ c

section Overseen

variable {H : Config σ Op α → Guard σ Op}

theorem Overseen.here (S : System σ Op α) (H : Config σ Op α → Guard σ Op) (s₀ : σ) :
    Overseen S H s₀ ⟨s₀, []⟩ :=
  Relation.ReflTransGen.refl

theorem Overseen.start {s₀ : σ} {c : Config σ Op α} (h : Overseen S H s₀ c) (p : Prog Op α)
    (hp : S.starts p) : Overseen S H s₀ ⟨c.state, c.tasks ++ [⟨p, p, []⟩]⟩ :=
  h.tail (.start p hp)

theorem Overseen.act {s₀ : σ} {c : Config σ Op α} (h : Overseen S H s₀ c) (i : ℕ)
    {p : Prog Op α} {op : Op β} {k : β → Prog Op α} {hist : List (Event Op)}
    (hi : c.tasks[i]? = some ⟨p, .act op k, hist⟩) (r : β) (s' : σ) (hx : S.exec op c.state r s')
    (hg : H c hist c.state ⟨op, r⟩) :
    Overseen S H s₀ ⟨s', c.tasks.set i ⟨p, k r, hist ++ [⟨op, r⟩]⟩⟩ :=
  h.tail (.act i p op k hist r s' hi hx hg)

/-- **Invariants over the state and the monitors.**  Started programs conform; a step of one program
may use that its action is allowed and must bring the answer that its monitor expects. -/
theorem Overseen.rule {s₀ : σ} {c : Config σ Op α} (P : Monitor Op M)
    (Q : Prog Op α → M → α → Prop) (I : σ → List M → Prop) (h₀ : I s₀ [])
    (hstarts : ∀ p, S.starts p → Conforms P p P.init (Q p))
    (hnew : ∀ {s : σ} {ms : List M}, I s ms → I s (ms ++ [P.init]))
    (hact : ∀ {β : Type} {op : Op β} {hist : List (Event Op)} {c : Config σ Op α} {s' : σ} {r : β}
      {i : ℕ}, I c.state (monitors P c.tasks) → (monitors P c.tasks)[i]? = some (P.after hist) →
      P.allowed (P.after hist) op → S.exec op c.state r s' → H c hist c.state ⟨op, r⟩ →
      P.expects (P.after hist) op r ∧
        I s' ((monitors P c.tasks).set i (P.next (P.after hist) op r)))
    (hrestart : ∀ {s s' : σ} {ms : List M}, I s ms → S.restart s s' → I s' [])
    (h : Overseen S H s₀ c) :
    I c.state (monitors P c.tasks) ∧
      ∀ t ∈ c.tasks, Conforms P t.prog (P.after t.hist) (Q t.source) := by
  induction h with
  | refl => exact ⟨h₀, by simp⟩
  | tail _ hstep ih =>
    obtain ⟨hI, hconf⟩ := ih
    cases hstep with
    | start p hp =>
      refine ⟨by simpa [monitors] using hnew hI, ?_⟩
      intro t ht
      rcases List.mem_append.mp ht with ht | ht
      · exact hconf t ht
      · rw [List.mem_singleton.mp ht]
        exact hstarts p hp
    | act i p op k hist r s' hi hx hg =>
      have hmem := List.mem_of_getElem? hi
      obtain ⟨hallowed, hcont⟩ := hconf _ hmem
      obtain ⟨hexp, hI'⟩ := hact (i := i) hI (by simp [monitors, hi]) hallowed hx hg
      refine ⟨by simpa [monitors, List.map_set] using hI', ?_⟩
      intro t ht
      rcases List.mem_or_eq_of_mem_set ht with ht | rfl
      · exact hconf t ht
      · rw [Monitor.after_concat]
        exact hcont r _ ⟨hexp, rfl⟩
    | restart s' hr => exact ⟨hrestart hI hr, by simp⟩

end Overseen

/-- The same under a guard that sees the state and the history. -/
theorem Reachable.rule {s₀ : σ} {c : Config σ Op α} (P : Monitor Op M)
    (Q : Prog Op α → M → α → Prop) (I : σ → List M → Prop) (h₀ : I s₀ [])
    (hstarts : ∀ p, S.starts p → Conforms P p P.init (Q p))
    (hnew : ∀ {s : σ} {ms : List M}, I s ms → I s (ms ++ [P.init]))
    (hact : ∀ {β : Type} {op : Op β} {hist : List (Event Op)} {s s' : σ} {r : β} {ms : List M}
      {i : ℕ}, I s ms → ms[i]? = some (P.after hist) → P.allowed (P.after hist) op →
      S.exec op s r s' → G hist s ⟨op, r⟩ →
      P.expects (P.after hist) op r ∧ I s' (ms.set i (P.next (P.after hist) op r)))
    (hrestart : ∀ {s s' : σ} {ms : List M}, I s ms → S.restart s s' → I s' [])
    (h : Reachable S G s₀ c) :
    I c.state (monitors P c.tasks) ∧
      ∀ t ∈ c.tasks, Conforms P t.prog (P.after t.hist) (Q t.source) := by
  have hseen : Overseen S (fun _ => G) s₀ c := h
  exact hseen.rule P Q I h₀ hstarts hnew
    (fun hI hi hallowed hx hg => hact hI hi hallowed hx hg) hrestart

/-- Every program that runs conforms, when the guard bears out what the monitor expects. -/
theorem Reachable.conforms {s₀ : σ} {c : Config σ Op α} (P : Monitor Op M)
    (Q : Prog Op α → M → α → Prop) (hstarts : ∀ p, S.starts p → Conforms P p P.init (Q p))
    (hexpects : ∀ {β : Type} {op : Op β} {hist : List (Event Op)} {s : σ} {r : β},
      G hist s ⟨op, r⟩ → P.expects (P.after hist) op r) (h : Reachable S G s₀ c) :
    ∀ t ∈ c.tasks, Conforms P t.prog (P.after t.hist) (Q t.source) := by
  refine (h.rule P Q (fun _ _ => True) trivial hstarts (fun _ => trivial) ?_ fun _ _ => trivial).2
  exact fun _ _ _ _ hg => ⟨hexpects hg, trivial⟩

/-- The events of the program itself. -/
def ownEvents (trace : List (Transition σ Op)) : List (Event Op) :=
  (trace.filter (·.own)).map (·.event)

theorem ownEvents_append (trace trace' : List (Transition σ Op)) :
    ownEvents (trace ++ trace') = ownEvents trace ++ ownEvents trace' := by
  rw [ownEvents, List.filter_append, List.map_append]
  rfl

theorem ownEvents_others {exec : ∀ {β : Type}, Op β → σ → β → σ → Prop} {s s' : σ}
    {ts : List (Transition σ Op)} (h : Others exec s ts s') : ownEvents ts = [] := by
  have hnone : ts.filter (·.own) = [] := List.filter_eq_nil_iff.mpr fun t ht => by simp [h.2 t ht]
  rw [ownEvents, hnone]
  rfl

/-- An event of the program itself is a transition of the trace. -/
theorem exists_transition {trace : List (Transition σ Op)} {h₁ h₂ : List (Event Op)} {e : Event Op}
    (h : ownEvents trace = h₁ ++ e :: h₂) : ∃ pre t post, trace = pre ++ t :: post ∧
      t.own = true ∧ t.event = e ∧ ownEvents pre = h₁ ∧ ownEvents post = h₂ := by
  obtain ⟨fs, gs, hfilter, hpre, hrest⟩ := List.map_eq_append_iff.mp h
  obtain ⟨t, gs', rfl, rfl, hpost⟩ := List.map_eq_cons_iff.mp hrest
  obtain ⟨as, bs, rfl, rfl, hbs⟩ := List.filter_eq_append_iff.mp hfilter
  obtain ⟨cs, ds, rfl, hnone, hown, rfl⟩ := List.filter_eq_cons_iff.mp hbs
  have hcs : ownEvents cs = [] := by
    rw [ownEvents, List.filter_eq_nil_iff.mpr fun a ha => hnone a ha]
    rfl
  refine ⟨as ++ cs, t, ds, by simp, hown, rfl, ?_, hpost⟩
  rw [ownEvents_append, hcs, List.append_nil]
  exact hpre

/-- The steps that the guard admits, whoever takes them. -/
def System.admitted (S : System σ Op α) (G : Guard σ Op) {β : Type} (op : Op β) (s : σ) (r : β)
    (s' : σ) : Prop := S.exec op s r s' ∧ ∃ hist, G hist s ⟨op, r⟩

/-- **Every program of an interleaving runs among the others**: from a state in which it was started
it has come to where it is, and whatever it does from there continues that run. -/
theorem Reachable.among {s₀ : σ} {c : Config σ Op α} (h : Reachable S G s₀ c) :
    ∀ t ∈ c.tasks, ∃ c₁ trace s others, Reachable S G s₀ c₁ ∧ ownEvents trace = t.hist ∧
      Others (S.admitted G) s others c.state ∧
      ∀ rest a s', RunsAmong (S.admitted G) t.prog s rest a s' →
        RunsAmong (S.admitted G) t.source c₁.state (trace ++ rest) a s' := by
  induction h with
  | refl => exact nofun
  | @tail c c' hreach hstep ih =>
    cases hstep with
    | start p hp =>
      intro t ht
      rcases List.mem_append.mp ht with ht | ht
      · exact ih t ht
      · rw [List.mem_singleton.mp ht]
        exact ⟨c, [], c.state, [], hreach, rfl, ⟨rfl, nofun⟩, fun _ _ _ hr => hr⟩
    | act i p op k hist r s' hi hx hg =>
      intro t ht
      rcases List.mem_or_eq_of_mem_set ht with ht | rfl
      · obtain ⟨c₁, trace, s, others, hc₁, hown, hothers, hcont⟩ := ih t ht
        exact ⟨c₁, trace, s, others ++ [⟨false, c.state, ⟨op, r⟩, s'⟩], hc₁, hown,
          hothers.concat rfl rfl ⟨hx, hist, hg⟩, hcont⟩
      · obtain ⟨c₁, trace, s, others, hc₁, hown, hothers, hcont⟩ := ih _ (List.mem_of_getElem? hi)
        refine ⟨c₁, trace ++ others ++ [⟨true, c.state, ⟨op, r⟩, s'⟩], s', [], hc₁, ?_,
          ⟨rfl, nofun⟩, ?_⟩
        · rw [ownEvents_append, ownEvents_append, hown, ownEvents_others hothers, List.append_nil]
          rfl
        · intro rest a s'' hrest
          have hr := hcont (others ++ ⟨true, c.state, ⟨op, r⟩, s'⟩ :: rest) a s''
            ⟨others, c.state, r, s', rest, hothers, ⟨hx, hist, hg⟩, rfl, hrest⟩
          simpa only [List.append_assoc, List.cons_append, List.nil_append] using hr
    | restart s' hr => exact nofun

/-- The run of a program that ended, and what others did since. -/
theorem Reachable.among_ended {s₀ : σ} {c : Config σ Op α} (h : Reachable S G s₀ c)
    {t : Task Op α} (ht : t ∈ c.tasks) {a : α} (hend : t.prog = .ret a) :
    ∃ c₁ trace s others, Reachable S G s₀ c₁ ∧ ownEvents trace = t.hist ∧
      RunsAmong (S.admitted G) t.source c₁.state trace a s ∧
      Others (S.admitted G) s others c.state := by
  obtain ⟨c₁, trace, s, others, hc₁, hown, hothers, hcont⟩ := h.among t ht
  have hrun := hcont [] a s (by rw [hend]; exact ⟨rfl, rfl, rfl⟩)
  rw [List.append_nil] at hrun
  exact ⟨c₁, trace, s, others, hc₁, hown, hrun, hothers⟩

/-! ### Guards that the programs keep -/

/-- **A guard that the programs keep by themselves** may be assumed of every step of a run. -/
theorem Reachable.sharpen {G' : Guard σ Op} {s₀ : σ} {c c' : Config σ Op α}
    (hkept : ∀ {c : Config σ Op α} {β : Type} {i : ℕ} {p : Prog Op α} {op : Op β}
      {k : β → Prog Op α} {hist : List (Event Op)} {r : β} {s' : σ}, Reachable S G s₀ c →
      c.tasks[i]? = some ⟨p, .act op k, hist⟩ → S.exec op c.state r s' → G hist c.state ⟨op, r⟩ →
      G' hist c.state ⟨op, r⟩)
    (hc : Reachable S G s₀ c) (h : Relation.ReflTransGen (Step S G) c c') :
    Relation.ReflTransGen (Step S G') c c' := by
  induction h with
  | refl => exact .refl
  | tail hsteps hstep ih =>
    refine ih.tail ?_
    cases hstep with
    | start p hp => exact .start p hp
    | act i p op k hist r s' hi hx hg =>
      exact .act i p op k hist r s' hi hx (hkept (hc.trans hsteps) hi hx hg)
    | restart s' hr => exact .restart s' hr

/-! ### Runs within a condition -/

/-- The configurations that a run gets to which meets a condition after each of its steps. -/
def Within (S : System σ Op α) (G : Guard σ Op) (C : Config σ Op α → Prop) (s₀ : σ)
    (c : Config σ Op α) : Prop :=
  Relation.ReflTransGen (fun c c' => Step S G c c' ∧ C c') ⟨s₀, []⟩ c

theorem Within.reachable {C : Config σ Op α → Prop} {s₀ : σ} {c : Config σ Op α}
    (h : Within S G C s₀ c) : Reachable S G s₀ c := by
  induction h with
  | refl => exact .refl
  | tail _ hstep ih => exact ih.tail hstep.1

theorem Within.start {C : Config σ Op α → Prop} {s₀ : σ} {c : Config σ Op α}
    (h : Within S G C s₀ c) (p : Prog Op α) (hp : S.starts p)
    (hC : C ⟨c.state, c.tasks ++ [⟨p, p, []⟩]⟩) :
    Within S G C s₀ ⟨c.state, c.tasks ++ [⟨p, p, []⟩]⟩ :=
  h.tail ⟨.start p hp, hC⟩

theorem Within.act {C : Config σ Op α → Prop} {s₀ : σ} {c : Config σ Op α}
    (h : Within S G C s₀ c) (i : ℕ) {p : Prog Op α} {op : Op β} {k : β → Prog Op α}
    {hist : List (Event Op)} (hi : c.tasks[i]? = some ⟨p, .act op k, hist⟩) (r : β) (s' : σ)
    (hx : S.exec op c.state r s') (hg : G hist c.state ⟨op, r⟩)
    (hC : C ⟨s', c.tasks.set i ⟨p, k r, hist ++ [⟨op, r⟩]⟩⟩) :
    Within S G C s₀ ⟨s', c.tasks.set i ⟨p, k r, hist ++ [⟨op, r⟩]⟩⟩ :=
  h.tail ⟨.act i p op k hist r s' hi hx hg, hC⟩

/-- The task ended. -/
def Task.Ended (t : Task Op α) : Prop := ∃ r, t.prog = .ret r

end MerkleVault.Lib.Program
