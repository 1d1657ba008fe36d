import Mathlib

/-! # Self-Delimiting Codes

An encoding into lists is *self-delimiting* when a code word can be read off the front of any text,
and *delimited by* a set of symbols when it can be read off in front of such a symbol.  A decoder is
the usual way to see the first; sequences of code words and texts cut at a separator follow. -/

namespace MerkleVault.Lib.Encoding

variable {α β : Type*}

/-- A code word can be read off the front of any text. -/
def SelfDelimiting (enc : α → List β) : Prop :=
  ∀ a b r s, enc a ++ r = enc b ++ s → a = b ∧ r = s

/-- A code word can be read off the front of a text that goes on with a symbol of `D`. -/
def DelimitedBy (D : Set β) (enc : α → List β) : Prop :=
  ∀ a b x y r s, x ∈ D → y ∈ D → enc a ++ x :: r = enc b ++ y :: s → a = b ∧ x :: r = y :: s

theorem SelfDelimiting.of_decode {enc : α → List β} (dec : List β → Option (α × List β))
    (h : ∀ a r, dec (enc a ++ r) = some (a, r)) : SelfDelimiting enc := by
  intro a b r s he
  have h1 := h a r
  rw [he, h b s] at h1
  have := Option.some.inj h1
  exact ⟨(congrArg Prod.fst this).symm, (congrArg Prod.snd this).symm⟩

/-- Two texts without symbols of `D`, each followed by one, agree up to it. -/
theorem cut_at_delimiter {D : Set β} : ∀ {u v : List β} {x y : β} {r s : List β},
    (∀ z ∈ u, z ∉ D) → (∀ z ∈ v, z ∉ D) → x ∈ D → y ∈ D →
    u ++ x :: r = v ++ y :: s → u = v ∧ x :: r = y :: s
  | [], [], _, _, _, _, _, _, _, _, h => ⟨rfl, h⟩
  | [], c :: v, _, _, _, _, _, hv, hx, _, h => by
    obtain ⟨rfl, -⟩ := List.cons.inj h
    exact absurd hx (hv _ List.mem_cons_self)
  | c :: u, [], _, _, _, _, hu, _, _, hy, h => by
    obtain ⟨rfl, -⟩ := List.cons.inj h
    exact absurd hy (hu _ List.mem_cons_self)
  | c :: u, e :: v, _, _, _, _, hu, hv, hx, hy, h => by
    obtain ⟨rfl, h'⟩ := List.cons.inj h
    obtain ⟨rfl, hrs⟩ := cut_at_delimiter (fun z hz => hu z (List.mem_cons_of_mem _ hz))
      (fun z hz => hv z (List.mem_cons_of_mem _ hz)) hx hy h'
    exact ⟨rfl, hrs⟩

/-- Two texts without the separator, each followed by it, agree up to it. -/
theorem cut_at_separator {x y r s : List β} {d : β} (hx : d ∉ x) (hy : d ∉ y)
    (h : x ++ d :: r = y ++ d :: s) : x = y ∧ r = s := by
  have hD : ∀ {l : List β}, d ∉ l → ∀ z ∈ l, z ∉ ({d} : Set β) := by
    rintro l hl z hz rfl
    exact hl hz
  obtain ⟨hxy, hrs⟩ := cut_at_delimiter (hD hx) (hD hy) rfl rfl h
  exact ⟨hxy, (List.cons.inj hrs).2⟩

/-- The text before the first separator and the text after it. -/
theorem span_separator [DecidableEq β] {d x : β} {text before after : List β} :
    text.span (· ≠ d) = (before, x :: after) ↔ x = d ∧ text = before ++ d :: after ∧ d ∉ before := by
  rw [List.span_eq_takeWhile_dropWhile, Prod.mk.injEq]
  have hbefore : ∀ l : List β, d ∉ l ↔ ∀ y ∈ l, decide (y ≠ d) = true := by
    intro l
    simp only [decide_eq_true_eq]
    exact ⟨fun h y hy heq => h (heq ▸ hy), fun h hd => h d hd rfl⟩
  constructor
  · rintro ⟨rfl, hdrop⟩
    have hx : x = d := by
      have hhead := List.head_dropWhile_not (fun y => decide (y ≠ d)) (l := text) (by rw [hdrop]; simp)
      simpa only [hdrop, List.head_cons, decide_eq_false_iff_not, not_not] using hhead
    obtain rfl := hx
    refine ⟨rfl, ?_, (hbefore _).mpr fun y hy => ?_⟩
    · rw [← hdrop, List.takeWhile_append_dropWhile]
    · have := List.mem_takeWhile_imp hy
      simpa using this
  · rintro ⟨rfl, rfl, hd⟩
    have hall := (hbefore before).mp hd
    rw [List.takeWhile_append_of_pos hall, List.dropWhile_append_of_pos hall]
    simp

/-- Words over an alphabet that the delimiters are not in, told apart by an injection. -/
theorem delimitedBy_of_notMem {D : Set β} {enc : α → List β} (hinj : Function.Injective enc)
    (hD : ∀ a, ∀ x ∈ enc a, x ∉ D) : DelimitedBy D enc := by
  intro a b x y r s hx hy he
  obtain ⟨huv, hrs⟩ := cut_at_delimiter (hD a) (hD b) hx hy he
  exact ⟨hinj huv, hrs⟩

/-- A sequence of code words closed by a symbol that starts none of them. -/
theorem selfDelimiting_flatMap {enc : α → List β} (h : SelfDelimiting enc) {d : β}
    (hd : ∀ a, ∃ x t, enc a = x :: t ∧ x ≠ d) :
    SelfDelimiting fun l : List α => l.flatMap enc ++ [d] := by
  intro l
  induction l with
  | nil =>
    intro m r s he
    cases m with
    | nil => simpa using he
    | cons b m =>
      obtain ⟨x, t, hx, hne⟩ := hd b
      simp only [List.flatMap_nil, List.flatMap_cons, hx, List.nil_append, List.cons_append] at he
      exact absurd (List.cons.inj he).1.symm hne
  | cons a l ih =>
    intro m r s he
    cases m with
    | nil =>
      obtain ⟨x, t, hx, hne⟩ := hd a
      simp only [List.flatMap_nil, List.flatMap_cons, hx, List.nil_append, List.cons_append] at he
      exact absurd (List.cons.inj he).1 hne
    | cons b m =>
      simp only [List.flatMap_cons, List.append_assoc] at he ih
      obtain ⟨rfl, he'⟩ := h a b _ _ he
      obtain ⟨rfl, hrs⟩ := ih m r s he'
      exact ⟨rfl, hrs⟩

end MerkleVault.Lib.Encoding
