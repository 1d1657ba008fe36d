import Mathlib

/-! # Wildcard Patterns

A pattern is a list of tokens: any run, one symbol, or a symbol up to a relation.  A word matches when
it can be cut into consecutive pieces, one for each token.  The lemmas at the end of a pattern are the
recurrences of a dynamic program over prefixes, and `foldl_range'_induct` is the rule for its loops.

* `matches_snoc`: the last token takes the last piece;
* `matches_any_concat`, `matches_one_concat`, `matches_lit_concat`: the recurrences;
* `matches_lits`: a pattern of symbols only. -/

namespace MerkleVault.Lib.Glob

/-- A token of a pattern. -/
inductive Token (α : Type*)
  | any
  | one
  | lit (a : α)

variable {α : Type*} {r : α → α → Prop}

/-- The piece that a token takes. -/
def Token.Takes (r : α → α → Prop) : Token α → List α → Prop
  | any, _ => True
  | one, piece => ∃ c, piece = [c]
  | lit a, piece => ∃ c, piece = [c] ∧ r a c

/-- A word is cut into consecutive pieces that the tokens take one by one. -/
def Matches (r : α → α → Prop) (tokens : List (Token α)) (word : List α) : Prop :=
  ∃ pieces : List (List α), pieces.flatten = word ∧ List.Forall₂ (Token.Takes r) tokens pieces

/-- A symbol of the pattern stands in the word. -/
theorem Matches.lit_mem {a : α} : ∀ {tokens : List (Token α)} {word : List α}, Matches r tokens word →
    .lit a ∈ tokens → ∃ c ∈ word, r a c := by
  rintro tokens word ⟨pieces, rfl, h⟩ ha
  induction h with
  | nil => cases ha
  | @cons t piece ts pieces htakes _ ih =>
    rw [List.flatten_cons]
    rcases List.mem_cons.mp ha with rfl | ha
    · obtain ⟨c, rfl, hc⟩ := htakes
      exact ⟨c, List.mem_append_left _ List.mem_cons_self, hc⟩
    · obtain ⟨c, hc, hr⟩ := ih ha
      exact ⟨c, List.mem_append_right _ hc, hr⟩

/-! ### The last token -/

theorem forall₂_concat_left {β : Type*} {R : α → β → Prop} {as : List α} {a : α} {bs : List β} :
    List.Forall₂ R (as ++ [a]) bs ↔ ∃ front b, bs = front ++ [b] ∧ List.Forall₂ R as front ∧ R a b := by
  constructor
  · intro h
    rcases List.eq_nil_or_concat' bs with rfl | ⟨front, b, rfl⟩
    · have := h.length_eq
      simp at this
    · have hlen : as.length = front.length := by simpa using h.length_eq
      have hfront := List.forall₂_take_append (as ++ [a]) front [b] h
      have hlast := List.forall₂_drop_append (as ++ [a]) front [b] h
      rw [← hlen, List.take_left] at hfront
      rw [← hlen, List.drop_left] at hlast
      exact ⟨front, b, rfl, hfront, (List.forall₂_cons.mp hlast).1⟩
  · rintro ⟨front, b, rfl, hfront, hb⟩
    exact List.rel_append hfront (.cons hb .nil)

@[simp] theorem matches_nil {word : List α} : Matches r [] word ↔ word = [] := by
  constructor
  · rintro ⟨pieces, rfl, h⟩
    obtain rfl := List.forall₂_nil_left_iff.mp h
    rfl
  · rintro rfl
    exact ⟨[], rfl, .nil⟩

section Snoc

variable {tokens : List (Token α)} {word : List α}

/-- **The last token takes the last piece.** -/
theorem matches_snoc {t : Token α} : Matches r (tokens ++ [t]) word ↔
    ∃ front piece, word = front ++ piece ∧ Matches r tokens front ∧ t.Takes r piece := by
  constructor
  · rintro ⟨pieces, rfl, h⟩
    obtain ⟨front, piece, rfl, hfront, ht⟩ := forall₂_concat_left.mp h
    exact ⟨front.flatten, piece, by simp, ⟨front, rfl, hfront⟩, ht⟩
  · rintro ⟨front, piece, rfl, ⟨pieces, rfl, h⟩, ht⟩
    exact ⟨pieces ++ [piece], by simp, forall₂_concat_left.mpr ⟨pieces, piece, rfl, h, ht⟩⟩

/-- The empty word leaves the empty piece. -/
theorem matches_any_nil : Matches r (tokens ++ [.any]) [] ↔ Matches r tokens [] := by
  rw [matches_snoc]
  constructor
  · rintro ⟨front, piece, h, hfront, -⟩
    obtain ⟨rfl, -⟩ := List.append_eq_nil_iff.mp h.symm
    exact hfront
  · intro h
    exact ⟨[], [], rfl, h, trivial⟩

/-- A run ends before the last symbol, or goes on to it. -/
theorem matches_any_concat {c : α} : Matches r (tokens ++ [.any]) (word ++ [c]) ↔
    Matches r tokens (word ++ [c]) ∨ Matches r (tokens ++ [.any]) word := by
  simp only [matches_snoc]
  constructor
  · rintro ⟨front, piece, h, hfront, -⟩
    rcases List.eq_nil_or_concat' piece with rfl | ⟨piece, d, rfl⟩
    · rw [List.append_nil] at h
      rw [h]
      exact .inl hfront
    · rw [← List.append_assoc] at h
      obtain ⟨rfl, -⟩ := List.append_inj' h rfl
      exact .inr ⟨front, piece, rfl, hfront, trivial⟩
  · rintro (h | ⟨front, piece, rfl, h, -⟩)
    · exact ⟨_, [], (List.append_nil _).symm, h, trivial⟩
    · exact ⟨front, piece ++ [c], List.append_assoc .., h, trivial⟩

theorem not_matches_one_nil : ¬Matches r (tokens ++ [.one]) [] := by
  rw [matches_snoc]
  rintro ⟨front, piece, h, -, c, rfl⟩
  simp at h

theorem matches_one_concat {c : α} :
    Matches r (tokens ++ [.one]) (word ++ [c]) ↔ Matches r tokens word := by
  rw [matches_snoc]
  constructor
  · rintro ⟨front, piece, h, hfront, d, rfl⟩
    obtain ⟨rfl, -⟩ := List.append_inj' h rfl
    exact hfront
  · intro h
    exact ⟨word, [c], rfl, h, c, rfl⟩

theorem not_matches_lit_nil {a : α} : ¬Matches r (tokens ++ [.lit a]) [] := by
  rw [matches_snoc]
  rintro ⟨front, piece, h, -, c, rfl, -⟩
  simp at h

theorem matches_lit_concat {a c : α} :
    Matches r (tokens ++ [.lit a]) (word ++ [c]) ↔ Matches r tokens word ∧ r a c := by
  rw [matches_snoc]
  constructor
  · rintro ⟨front, piece, h, hfront, d, rfl, hd⟩
    obtain ⟨rfl, heq⟩ := List.append_inj' h rfl
    obtain rfl := List.singleton_inj.mp heq
    exact ⟨hfront, hd⟩
  · rintro ⟨h, ha⟩
    exact ⟨word, [c], rfl, h, c, rfl, ha⟩

end Snoc

/-- **A pattern of symbols only** matches symbol by symbol. -/
theorem matches_lits {word : List α} {symbols : List α} :
    Matches r (symbols.map .lit) word ↔ List.Forall₂ r symbols word := by
  induction symbols using List.reverseRecOn generalizing word with
  | nil => simp
  | append_singleton symbols a ih =>
    rw [List.map_append, List.map_cons, List.map_nil]
    rcases List.eq_nil_or_concat' word with rfl | ⟨word, c, rfl⟩
    · refine iff_of_false not_matches_lit_nil ?_
      rw [List.forall₂_nil_right_iff]
      simp
    · rw [matches_lit_concat, ih, forall₂_concat_left]
      constructor
      · rintro ⟨h, ha⟩
        exact ⟨word, c, rfl, h, ha⟩
      · rintro ⟨front, b, heq, h, hb⟩
        obtain ⟨rfl, hcb⟩ := List.append_inj' heq rfl
        obtain rfl := List.singleton_inj.mp hcb
        exact ⟨h, hb⟩

/-! ### Loops -/

/-- What every step of a loop from 1 to `n` preserves holds after it. -/
theorem foldl_range'_induct {σ : Type*} {f : σ → ℕ → σ} {s : σ} (P : ℕ → σ → Prop) (n : ℕ) (h₀ : P 0 s)
    (hstep : ∀ k < n, ∀ s, P k s → P (k + 1) (f s (k + 1))) : P n ((List.range' 1 n).foldl f s) := by
  induction n with
  | zero => exact h₀
  | succ n ih =>
    rw [List.range'_concat, List.foldl_append, Nat.one_mul, Nat.add_comm 1 n]
    exact hstep n (Nat.lt_succ_self n) _ (ih fun k hk => hstep k (Nat.lt_succ_of_lt hk))

end MerkleVault.Lib.Glob
