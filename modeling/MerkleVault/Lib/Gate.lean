import MerkleVault.Lib.Program

/-! # Programs behind a Gate

A program asks whether it may go on.  Until an answer opens the gate it takes passive actions only, and
it returns no value.

* `Behind`: such a program, from a history;
* `behind_bind`, `behind_passive_bind`: composition;
* `happened_of_reachable`: every event of a program happened in a configuration of the run;
* `guarded_of_reachable`: what a program behind a gate does in any interleaving. -/

namespace MerkleVault.Lib.Gate

open MerkleVault.Lib.Program

universe u

variable {Op : Type → Type u} {σ α β ε δ : Type}

/-! ### What happened -/

theorem split_concat {l pre post : List (Event Op)} {a e : Event Op} (h : l ++ [a] = pre ++ e :: post) :
    (l = pre ∧ a = e) ∨ ∃ post', l = pre ++ e :: post' := by
  rcases List.eq_nil_or_concat post with rfl | ⟨post', b, rfl⟩
  · obtain ⟨hl, ha⟩ := List.append_inj' h rfl
    exact .inl ⟨hl, List.singleton_inj.mp ha⟩
  · rw [List.concat_eq_append, ← List.cons_append, ← List.append_assoc] at h
    exact .inr ⟨post', (List.append_inj' h rfl).1⟩

/-- The program takes these actions, gets these answers, and goes on as the second program. -/
def Follows : List (Event Op) → Prog Op α → Prog Op α → Prop
  | [], p, q => p = q
  | e :: h, p, q => match p with
    | .ret _ => False
    | .act op k => ∃ r, e = ⟨op, r⟩ ∧ Follows h (k r) q

theorem Follows.concat {op : Op β} {k : β → Prog Op α} (r : β) :
    ∀ {h : List (Event Op)} {p : Prog Op α}, Follows h p (.act op k) →
      Follows (h ++ [⟨op, r⟩]) p (k r)
  | [], _, hf => by
    obtain rfl : _ = _ := hf
    exact ⟨r, rfl, rfl⟩
  | _ :: _, .ret _, hf => hf.elim
  | _ :: _, .act _ _, ⟨r', he, hf⟩ => ⟨r', he, hf.concat r⟩

section Runs

variable {S : System σ Op α} {G : Guard σ Op} {s₀ : σ} {c : Config σ Op α}

theorem follows_of_reachable (hc : Reachable S G s₀ c) :
    ∀ t ∈ c.tasks, Follows t.hist t.source t.prog := by
  induction hc with
  | refl => exact nofun
  | tail _ hstep ih =>
    cases hstep with
    | start p hp =>
      intro t ht
      rcases List.mem_append.mp ht with ht | ht
      · exact ih t ht
      · rw [List.mem_singleton.mp ht]
        rfl
    | act i p op k hist r s' hi hx hg =>
      intro t ht
      rcases List.mem_or_eq_of_mem_set ht with ht | rfl
      · exact ih t ht
      · exact (ih _ (List.mem_of_getElem? hi)).concat r
    | restart s' hr => exact nofun

/-- **Every event of a program happened** in a configuration of the run, where the program was as far
as its history before the event. -/
theorem happened_of_reachable (hc : Reachable S G s₀ c) : ∀ t ∈ c.tasks, ∀ pre e post,
    t.hist = pre ++ e :: post → ∃ c₁ s', Reachable S G s₀ c₁ ∧
      Relation.ReflTransGen (Step S G) c₁ c ∧ S.exec e.op c₁.state e.res s' ∧
      ∃ t₁ ∈ c₁.tasks, t₁.source = t.source ∧ t₁.hist = pre := by
  induction hc with
  | refl => exact nofun
  | @tail c c' hreach hstep ih =>
    have hlater : ∀ t ∈ c.tasks, ∀ pre e post, t.hist = pre ++ e :: post → ∃ c₁ s',
        Reachable S G s₀ c₁ ∧ Relation.ReflTransGen (Step S G) c₁ c' ∧
        S.exec e.op c₁.state e.res s' ∧ ∃ t₁ ∈ c₁.tasks, t₁.source = t.source ∧ t₁.hist = pre := by
      intro t ht pre e post heq
      obtain ⟨c₁, s', hc₁, hsteps, hrest⟩ := ih t ht pre e post heq
      exact ⟨c₁, s', hc₁, hsteps.tail hstep, hrest⟩
    cases hstep with
    | start p hp =>
      intro t ht pre e post heq
      rcases List.mem_append.mp ht with ht | ht
      · exact hlater t ht pre e post heq
      · rw [List.mem_singleton.mp ht] at heq
        simp at heq
    | act i p op k hist r s' hi hx hg =>
      intro t ht pre e post heq
      have hmem := List.mem_of_getElem? hi
      rcases List.mem_or_eq_of_mem_set ht with ht | rfl
      · exact hlater t ht pre e post heq
      · -- The event is the one of this step, or one of the history before.
        rcases split_concat heq with ⟨rfl, rfl⟩ | ⟨post', hpre⟩
        · exact ⟨c, s', hreach, .single (.act i p op k _ r s' hi hx hg), hx, _, hmem, rfl, rfl⟩
        · exact hlater _ hmem pre e post' hpre
    | restart s' hr => exact nofun

end Runs

/-! ### The gate -/

variable (opens : Event Op → Prop) (passive : ∀ {β : Type}, Op β → Prop)

/-- An event of the history has opened the gate. -/
def Opened (h : List (Event Op)) : Prop := ∃ e ∈ h, opens e

/-- Every action but the passive ones came after an event that opened the gate. -/
def Guarded (h : List (Event Op)) : Prop :=
  ∀ pre e post, h = pre ++ e :: post → passive e.op ∨ Opened opens pre

/-- Only passive actions come before one that opens. -/
def gate : Monitor Op (List (Event Op)) where
  init := []
  allowed h op := passive op ∨ Opened opens h
  expects _ _ _ := True
  next h op r := h ++ [⟨op, r⟩]

/-- From this history the program takes passive actions until the gate is open, and returns a value
only when it is. -/
def Behind (p : Prog Op (Except ε α)) (h : List (Event Op)) : Prop :=
  Conforms (gate opens passive) p h fun h' r => ∀ a, r = .ok a → Opened opens h'

variable {opens passive} {h : List (Event Op)}

theorem Opened.mono {h' : List (Event Op)} (ho : Opened opens h) (hp : h <+: h') : Opened opens h' := by
  obtain ⟨e, he, hopens⟩ := ho
  exact ⟨e, hp.subset he, hopens⟩

theorem Guarded.concat {e : Event Op} (hg : Guarded opens passive h)
    (he : passive e.op ∨ Opened opens h) : Guarded opens passive (h ++ [e]) := by
  intro pre e' post heq
  rcases split_concat heq with ⟨rfl, rfl⟩ | ⟨post', hpre⟩
  · exact he
  · exact hg pre e' post' hpre

/-- Behind an open gate any program is. -/
theorem behind_of_opened {p : Prog Op (Except ε α)} (ho : Opened opens h) :
    Behind opens passive p h := by
  have hkept : Conforms (gate opens passive) p h fun h' _ => Opened opens h' := by
    refine wp_of_only (I := Opened opens) (fun _ ho => Or.inr ho) ?_
      (only_of_forall (A := fun _ => True) fun _ => trivial) ho
    rintro β op h h' r - ho ⟨-, rfl⟩
    exact ho.mono (List.prefix_append _ _)
  exact hkept.mono fun _ _ ho _ _ => ho

theorem conforms_passive {p : Prog Op α} (hp : Only passive p) :
    Conforms (gate opens passive) p h fun _ _ => True :=
  wp_of_only (I := fun _ => True) (fun hop _ => Or.inl hop) (fun _ _ _ => trivial) hp trivial

theorem behind_passive_bind {x : Cmd Op ε α} {f : α → Cmd Op ε β} (hx : Only passive x.run)
    (hf : ∀ h' a, Behind opens passive (f a).run h') : Behind opens passive (x >>= f).run h := by
  rw [Behind, Conforms, wp_except_bind]
  refine (conforms_passive hx).mono ?_
  rintro h' r -
  cases r with
  | ok a => exact hf h' a
  | error e => exact fun _ ha => absurd ha error_ne_ok

theorem behind_bind {x : Cmd Op ε α} {f : α → Cmd Op ε β} (hx : Behind opens passive x.run h) :
    Behind opens passive (x >>= f).run h := by
  rw [Behind, Conforms, wp_except_bind]
  refine hx.mono ?_
  intro h' r hr
  cases r with
  | ok a => exact behind_of_opened (hr a rfl)
  | error e => exact fun _ ha => absurd ha error_ne_ok

theorem behind_withError {f : δ → ε} {x : Cmd Op δ α} (hx : Behind opens passive x.run h) :
    Behind opens passive (withError f x).run h := by
  rw [Behind, Conforms, wp_withError]
  refine hx.mono ?_
  intro h' r hr a ha
  cases r with
  | ok b => exact hr b rfl
  | error e => cases ha

theorem behind_throw (e : ε) : Behind opens passive (throw e : Cmd Op ε α).run h :=
  fun _ ha => absurd ha error_ne_ok

/-- The question itself, which is passive. -/
theorem behind_ask {op : Op Bool} (hop : passive op) (hopens : opens ⟨op, true⟩) (e : ε) :
    Behind opens passive (do
      if ← call op then pure () else throw e : Cmd Op ε Unit).run h := by
  rw [Behind, Conforms, wp_except_bind, wp_call]
  refine ⟨.inl hop, ?_⟩
  rintro b h' ⟨-, rfl⟩
  cases b with
  | true => exact fun _ _ => ⟨_, List.mem_concat_self, hopens⟩
  | false => exact fun _ ha => absurd ha error_ne_ok

theorem guarded_of_follows {q : Prog Op (Except ε α)} :
    ∀ {hist h : List (Event Op)} {p : Prog Op (Except ε α)}, Follows hist p q →
      Behind opens passive p h → Guarded opens passive h →
      Guarded opens passive (h ++ hist) ∧ Behind opens passive q (h ++ hist)
  | [], h, _, hf, hb, hg => by
    obtain rfl : _ = _ := hf
    rw [List.append_nil]
    exact ⟨hg, hb⟩
  | _ :: _, _, .ret _, hf, _, _ => hf.elim
  | e :: hist, h, .act op k, ⟨r, he, hf⟩, hb, hg => by
    subst he
    have hallowed : passive op ∨ Opened opens h := hb.1
    have hstep := guarded_of_follows hf (hb.2 r (h ++ [⟨op, r⟩]) ⟨trivial, rfl⟩) (hg.concat hallowed)
    rwa [List.append_assoc, List.singleton_append] at hstep

/-- **A program behind a gate**, whatever runs beside it: it is guarded, and what it returned it
returned behind an open gate. -/
theorem guarded_of_reachable {S : System σ Op (Except ε α)} {G : Guard σ Op} {s₀ : σ}
    {c : Config σ Op (Except ε α)} (hc : Reachable S G s₀ c) {t : Task Op (Except ε α)}
    (ht : t ∈ c.tasks) (hb : Behind opens passive t.source []) :
    Guarded opens passive t.hist ∧ ∀ a, t.prog = .ret (.ok a) → Opened opens t.hist := by
  have hempty : Guarded opens passive ([] : List (Event Op)) := fun pre e post heq => by
    simp at heq
  obtain ⟨hg, hb'⟩ := guarded_of_follows (follows_of_reachable hc t ht) hb hempty
  refine ⟨hg, fun a hend => ?_⟩
  rw [hend] at hb'
  exact hb' a rfl

end MerkleVault.Lib.Gate
