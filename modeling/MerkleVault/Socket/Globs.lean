import MerkleVault.Lib.FixedWidth
import MerkleVault.Lib.Glob
import MerkleVault.Socket.Gate
import Mathlib

/-!
# The Glob Matcher

`glob_match` fills a matrix of booleans, held in one vector with a row for each prefix of the pattern
and a column for each prefix of the input: a border loop for the column of the empty input, then two
nested loops.  A glob says less: its characters take consecutive pieces of the input.

The invariant of the loops is that the cells filled so far answer for their prefixes; `idx` puts
different cells in different places, so a step spoils none of them.

* `prefix_border`, `prefix_cell`: the recurrences of the two stages;
* `globMatchDp_iff`: the matrix decides the matches of the glob;
* `globMatch_eq`: so do the rows that the gate keeps;
* `glob_exact`: the matcher, the monotone list and the globs without wildcards.
-/

namespace MerkleVault.Socket.Globs

open MerkleVault.Lib.FixedWidth MerkleVault.Lib.Glob MerkleVault.Socket.Gate

/-! ### The meaning of a glob -/

/-- `*` takes any run, `?` one character, and any other character itself. -/
def globToken (c : Char) : Token Char := if c = '*' then .any else if c = '?' then .one else .lit c

/-- The input splits into pieces that the characters of the glob take. -/
def GlobMatches (pattern input : List Char) : Prop := Matches (· = ·) (pattern.map globToken) input

/-! ### The matrix -/

section Matrix

variable (pat hay : List Char)

/-- The place of a cell in the vector. -/
def idx (i j : ℕ) : ℕ := i * (hay.length + 1) + j

/-- The border loop: a leading `*` matches the empty input. -/
def globBorder (dp : List Bool) (i : ℕ) : List Bool :=
  if pat.getD (i - 1) default = '*' then dp.set (idx hay i 0) (dp.getD (idx hay (i - 1) 0) false)
  else dp

/-- The body of the inner loop. -/
def globFill (i : ℕ) (dp : List Bool) (j : ℕ) : List Bool :=
  let cell :=
    match pat.getD (i - 1) default with
    | '*' => dp.getD (idx hay (i - 1) j) false || dp.getD (idx hay i (j - 1)) false
    | '?' => dp.getD (idx hay (i - 1) (j - 1)) false
    | c => dp.getD (idx hay (i - 1) (j - 1)) false && c = hay.getD (j - 1) default
  dp.set (idx hay i j) cell

/-- The body of the outer loop. -/
def globFillRow (dp : List Bool) (i : ℕ) : List Bool :=
  (List.range' 1 hay.length).foldl (globFill pat hay i) dp

end Matrix

/-- `glob_match`, with its matrix in one vector. -/
def globMatchDp (pattern input : String) : Bool :=
  let pat := pattern.toList
  let hay := input.toList
  let dp := List.replicate ((pat.length + 1) * (hay.length + 1)) false
  let dp := dp.set (idx hay 0 0) true
  let dp := (List.range' 1 pat.length).foldl (globBorder pat hay) dp
  let dp := (List.range' 1 pat.length).foldl (globFillRow pat hay) dp
  dp.getD (idx hay pat.length hay.length) false

example : globMatchDp "vault-*" "vault-agent" = true := by decide

/-! ### Prefixes -/

section Prefixes

variable {pat hay : List Char} {i j : ℕ}

variable (pat hay) in
/-- The first `i` characters of the glob match the first `j` of the input. -/
def Prefix (i j : ℕ) : Prop := GlobMatches (pat.take i) (hay.take j)

theorem prefix_zero (hj : j ≤ hay.length) : Prefix pat hay 0 j ↔ j = 0 := by
  unfold Prefix GlobMatches
  rw [List.take_zero, List.map_nil, matches_nil, List.take_eq_nil_iff]
  constructor
  · rintro (h | rfl)
    · exact h
    · simpa using hj
  · exact .inl

theorem tokens_succ (hi : i < pat.length) : (pat.take (i + 1)).map globToken =
    (pat.take i).map globToken ++ [globToken (pat.getD i default)] := by
  rw [List.getD_eq_getElem _ _ hi, ← List.take_concat_get' _ _ hi, List.map_append, List.map_singleton]

theorem take_input_succ (hj : j < hay.length) : hay.take (j + 1) = hay.take j ++ [hay.getD j default] := by
  rw [List.getD_eq_getElem _ _ hj, List.take_concat_get']

/-- **The border**: the empty input is matched by stars only. -/
theorem prefix_border (hi : i < pat.length) :
    Prefix pat hay (i + 1) 0 ↔ pat.getD i default = '*' ∧ Prefix pat hay i 0 := by
  unfold Prefix GlobMatches
  rw [tokens_succ hi, List.take_zero]
  generalize pat.getD i default = c
  unfold globToken
  split_ifs with hstar hone
  · rw [matches_any_nil]
    exact ⟨fun h => ⟨hstar, h⟩, And.right⟩
  · exact iff_of_false not_matches_one_nil fun h => hstar h.1
  · exact iff_of_false not_matches_lit_nil fun h => hstar h.1

/-- **A cell**, from the three before it. -/
theorem prefix_cell (hi : i < pat.length) (hj : j < hay.length) : Prefix pat hay (i + 1) (j + 1) ↔
    if pat.getD i default = '*' then Prefix pat hay i (j + 1) ∨ Prefix pat hay (i + 1) j
    else if pat.getD i default = '?' then Prefix pat hay i j
    else Prefix pat hay i j ∧ pat.getD i default = hay.getD j default := by
  unfold Prefix GlobMatches
  rw [tokens_succ hi, take_input_succ hj]
  generalize pat.getD i default = c
  unfold globToken
  split_ifs with hstar hone
  · exact matches_any_concat
  · exact matches_one_concat
  · exact matches_lit_concat

end Prefixes

/-! ### The vector -/

section Cells

variable {pat hay : List Char} {dp : List Bool} {i j i' j' : ℕ} {b : Bool}

/-- The matrix has its size. -/
def Sized (pat hay : List Char) (dp : List Bool) : Prop :=
  dp.length = (pat.length + 1) * (hay.length + 1)

theorem idx_lt (hd : Sized pat hay dp) (hi : i ≤ pat.length) (hj : j ≤ hay.length) :
    idx hay i j < dp.length := by
  have hrow : (i + 1) * (hay.length + 1) ≤ (pat.length + 1) * (hay.length + 1) :=
    Nat.mul_le_mul_right _ (Nat.succ_le_succ hi)
  rw [Nat.add_mul, Nat.one_mul] at hrow
  rw [hd]
  unfold idx
  omega

/-- Different cells have different places. -/
theorem idx_inj (hj : j ≤ hay.length) (hj' : j' ≤ hay.length) (h : idx hay i j = idx hay i' j') :
    i = i' ∧ j = j' :=
  (lead_inj (Nat.lt_succ_of_le hj) (Nat.lt_succ_of_le hj')).mp h

theorem cell_set_self (hd : Sized pat hay dp) (hi : i ≤ pat.length) (hj : j ≤ hay.length) :
    (dp.set (idx hay i j) b).getD (idx hay i j) false = b := by
  have hlt := idx_lt hd hi hj
  rw [List.getD_eq_getElem _ _ (by rwa [List.length_set]), List.getElem_set_self]

theorem cell_set_other (hj : j ≤ hay.length) (hj' : j' ≤ hay.length) (hne : ¬(i = i' ∧ j = j')) :
    (dp.set (idx hay i j) b).getD (idx hay i' j') false = dp.getD (idx hay i' j') false := by
  have hidx : idx hay i j ≠ idx hay i' j' := fun h => hne (idx_inj hj hj' h)
  rw [List.getD_eq_getElem?_getD, List.getElem?_set_ne hidx, ← List.getD_eq_getElem?_getD]

variable (pat hay) in
/-- The cell answers for its prefixes. -/
def Answers (dp : List Bool) (i j : ℕ) : Prop :=
  dp.getD (idx hay i j) false = true ↔ Prefix pat hay i j

theorem Answers.set_other (hj : j ≤ hay.length) (hj' : j' ≤ hay.length) (hne : ¬(i = i' ∧ j = j'))
    (h : Answers pat hay dp i' j') : Answers pat hay (dp.set (idx hay i j) b) i' j' := by
  unfold Answers
  rw [cell_set_other hj hj' hne]
  exact h

end Cells

/-! ### The loops -/

section Loops

variable {pat hay : List Char} {dp : List Bool}

/-- After `k` steps of the border loop: the first row answers, so do `k` cells below its first, and
the others of the column are as they were. -/
structure Bordered (pat hay : List Char) (k : ℕ) (dp : List Bool) : Prop where
  size : Sized pat hay dp
  row : ∀ j ≤ hay.length, Answers pat hay dp 0 j
  column : ∀ i ≤ k, Answers pat hay dp i 0
  below : ∀ i, k < i → i ≤ pat.length → dp.getD (idx hay i 0) false = false

/-- After `k` steps of the outer loop: the border and the rows up to `k` answer. -/
structure Rows (pat hay : List Char) (k : ℕ) (dp : List Bool) : Prop where
  size : Sized pat hay dp
  column : ∀ i ≤ pat.length, Answers pat hay dp i 0
  rows : ∀ i ≤ k, ∀ j ≤ hay.length, Answers pat hay dp i j

/-- After `m` steps of the inner loop more. -/
structure Filled (pat hay : List Char) (k m : ℕ) (dp : List Bool) : Prop extends Rows pat hay k dp where
  cells : ∀ j ≤ m, Answers pat hay dp (k + 1) j

theorem bordered_zero : Bordered pat hay 0
    ((List.replicate ((pat.length + 1) * (hay.length + 1)) false).set (idx hay 0 0) true) := by
  have hsize : Sized pat hay (List.replicate ((pat.length + 1) * (hay.length + 1)) false) :=
    List.length_replicate
  have hfalse : ∀ n, (List.replicate ((pat.length + 1) * (hay.length + 1)) false).getD n false = false := by
    intro n
    rw [List.getD_eq_getElem?_getD, List.getElem?_replicate]
    split_ifs <;> rfl
  have hrow : ∀ j ≤ hay.length, Answers pat hay
      ((List.replicate ((pat.length + 1) * (hay.length + 1)) false).set (idx hay 0 0) true) 0 j := by
    intro j hj
    unfold Answers
    rw [prefix_zero hj]
    by_cases h : j = 0
    · subst h
      rw [cell_set_self hsize (Nat.zero_le _) hj]
      simp
    · rw [cell_set_other (Nat.zero_le _) hj (fun h' => h h'.2.symm), hfalse]
      simp [h]
  refine ⟨?_, hrow, ?_, ?_⟩
  · unfold Sized
    rw [List.length_set]
    exact hsize
  · intro i hi
    obtain rfl := Nat.le_zero.mp hi
    exact hrow 0 (Nat.zero_le _)
  · intro i hi hle
    rw [cell_set_other (Nat.zero_le _) (Nat.zero_le _) (by omega), hfalse]

/-- A step of the border loop. -/
theorem Bordered.step {k : ℕ} (h : Bordered pat hay k dp) (hk : k < pat.length) :
    Bordered pat hay (k + 1) (globBorder pat hay dp (k + 1)) := by
  have habove := h.column k (Nat.le_refl k)
  have hzero : 0 ≤ hay.length := Nat.zero_le _
  unfold globBorder
  rw [Nat.add_sub_cancel]
  split_ifs with hstar
  · refine ⟨?_, ?_, ?_, ?_⟩
    · unfold Sized
      rw [List.length_set]
      exact h.size
    · intro j hj
      exact (h.row j hj).set_other hzero hj (by omega)
    · intro i hi
      rcases Nat.lt_or_eq_of_le hi with hlt | rfl
      · exact (h.column i (Nat.lt_succ_iff.mp hlt)).set_other hzero hzero (by omega)
      · unfold Answers at habove ⊢
        rw [cell_set_self h.size hk hzero, prefix_border hk, habove]
        exact ⟨fun h => ⟨hstar, h⟩, And.right⟩
    · intro i hi hle
      rw [cell_set_other hzero hzero (by omega)]
      exact h.below i (by omega) hle
  · refine ⟨h.size, h.row, ?_, fun i hi hle => h.below i (by omega) hle⟩
    intro i hi
    rcases Nat.lt_or_eq_of_le hi with hlt | rfl
    · exact h.column i (Nat.lt_succ_iff.mp hlt)
    · -- the cell keeps the value it was made with
      unfold Answers
      rw [h.below (k + 1) (Nat.lt_succ_self k) hk, prefix_border hk]
      exact iff_of_false Bool.false_ne_true fun h => hstar h.1

/-- A step of the inner loop. -/
theorem Filled.step {k m : ℕ} (h : Filled pat hay k m dp) (hk : k < pat.length) (hm : m < hay.length) :
    Filled pat hay k (m + 1) (globFill pat hay (k + 1) dp (m + 1)) := by
  have habove := h.rows k (Nat.le_refl k) (m + 1) hm
  have hdiagonal := h.rows k (Nat.le_refl k) m (Nat.le_of_lt hm)
  have hleft := h.cells m (Nat.le_refl m)
  unfold globFill
  simp only [Nat.add_sub_cancel]
  refine ⟨⟨?_, ?_, ?_⟩, ?_⟩
  · unfold Sized
    rw [List.length_set]
    exact h.size
  · intro i hi
    exact (h.column i hi).set_other hm (Nat.zero_le _) (by omega)
  · intro i hi j hj
    exact (h.rows i hi j hj).set_other hm hj (by omega)
  · intro j hj
    rcases Nat.lt_or_eq_of_le hj with hlt | rfl
    · exact (h.cells j (Nat.lt_succ_iff.mp hlt)).set_other hm (by omega) (by omega)
    · unfold Answers at habove hdiagonal hleft ⊢
      rw [cell_set_self h.size hk hm, prefix_cell hk hm]
      generalize pat.getD k default = c
      split
      · rw [if_pos rfl, Bool.or_eq_true, habove, hleft]
      · rw [if_neg (by decide), if_pos rfl, hdiagonal]
      · next hstar hone =>
        rw [if_neg hstar, if_neg hone, Bool.and_eq_true, hdiagonal, decide_eq_true_eq]

/-- A step of the outer loop. -/
theorem Rows.step {k : ℕ} (h : Rows pat hay k dp) (hk : k < pat.length) :
    Rows pat hay (k + 1) (globFillRow pat hay dp (k + 1)) := by
  have hstart : Filled pat hay k 0 dp := by
    refine ⟨h, fun j hj => ?_⟩
    obtain rfl := Nat.le_zero.mp hj
    exact h.column (k + 1) hk
  have hrow : Filled pat hay k hay.length (globFillRow pat hay dp (k + 1)) :=
    foldl_range'_induct (Filled pat hay k) _ hstart fun _ hm _ hs => hs.step hk hm
  refine ⟨hrow.size, hrow.column, fun i hi j hj => ?_⟩
  rcases Nat.lt_or_eq_of_le hi with hlt | rfl
  · exact hrow.rows i (Nat.lt_succ_iff.mp hlt) j hj
  · exact hrow.cells j hj

/-- The border loop leaves the first row and the first column. -/
theorem Bordered.rows (h : Bordered pat hay pat.length dp) : Rows pat hay 0 dp := by
  refine ⟨h.size, h.column, fun i hi j hj => ?_⟩
  obtain rfl := Nat.le_zero.mp hi
  exact h.row j hj

end Loops

/-- **The matrix decides the matches of the glob.** -/
theorem globMatchDp_iff (pattern input : String) :
    globMatchDp pattern input = true ↔ GlobMatches pattern.toList input.toList := by
  have hborder := foldl_range'_induct (Bordered pattern.toList input.toList) _ bordered_zero
    fun _ hk _ hs => hs.step hk
  have hrows := foldl_range'_induct (Rows pattern.toList input.toList) _ hborder.rows
    fun _ hk _ hs => hs.step hk
  have hlast := hrows.rows _ (Nat.le_refl _) _ (Nat.le_refl _)
  unfold Answers Prefix at hlast
  rw [List.take_length, List.take_length] at hlast
  exact hlast

/-! ### The rows of the gate -/

section RowByRow

variable {pat hay : List Char}

/-- A row of its own answers for a prefix of the glob. -/
structure RowAnswers (pat hay : List Char) (k : ℕ) (row : List Bool) : Prop where
  size : row.length = hay.length + 1
  cells : ∀ j ≤ hay.length, row.getD j false = true ↔ Prefix pat hay k j

/-- The cells after column `m`, from the row before and the cell of that column. -/
theorem globCells_answer {k : ℕ} (hk : k < pat.length) {row : List Bool} (hrow : RowAnswers pat hay k row)
    (n m : ℕ) (hn : m + n = hay.length) {left : Bool} (hleft : left = true ↔ Prefix pat hay (k + 1) m) :
    (globCells (pat.getD k default) left (hay.drop m) (row.drop m)).length = n ∧
    ∀ j < n, (globCells (pat.getD k default) left (hay.drop m) (row.drop m)).getD j false = true ↔
      Prefix pat hay (k + 1) (m + j + 1) := by
  induction n generalizing m left with
  | zero =>
    rw [List.drop_eq_nil_of_le (by omega)]
    exact ⟨by simp [globCells], fun j hj => absurd hj (Nat.not_lt_zero j)⟩
  | succ n ih =>
    have hm : m < hay.length := by omega
    have hsize := hrow.size
    have habove := hrow.cells (m + 1) hm
    have hdiagonal := hrow.cells m (Nat.le_of_lt hm)
    have hcut : row.drop m = row.getD m false :: row.getD (m + 1) false :: row.drop (m + 2) := by
      rw [List.getD_eq_getElem _ _ (by omega), List.getD_eq_getElem _ _ (by omega),
        List.getElem_cons_drop, List.getElem_cons_drop]
    have htail : row.getD (m + 1) false :: row.drop (m + 2) = row.drop (m + 1) := by
      rw [List.getD_eq_getElem _ _ (by omega), List.getElem_cons_drop]
    have hinput : hay.drop m = hay.getD m default :: hay.drop (m + 1) := by
      rw [List.getD_eq_getElem _ _ hm, List.getElem_cons_drop]
    have hcell : (if pat.getD k default = '*' then row.getD (m + 1) false || left
        else if pat.getD k default = '?' then row.getD m false
        else row.getD m false && pat.getD k default = hay.getD m default) = true ↔
        Prefix pat hay (k + 1) (m + 1) := by
      rw [prefix_cell hk hm]
      split_ifs
      · rw [Bool.or_eq_true, habove, hleft]
      · exact hdiagonal
      · rw [Bool.and_eq_true, hdiagonal, decide_eq_true_eq]
    obtain ⟨hlength, hcells⟩ := ih (m + 1) (by omega) hcell
    rw [hcut, hinput, globCells, htail]
    refine ⟨?_, fun j hj => ?_⟩
    · rw [List.length_cons, hlength]
    · cases j with
      | zero => exact hcell
      | succ j =>
        have hplace : m + 1 + j + 1 = m + (j + 1) + 1 := by omega
        rw [List.getD_cons_succ, hcells j (Nat.lt_of_succ_lt_succ hj), hplace]

/-- A row after the next character of the glob. -/
theorem globRow_answer {k : ℕ} (hk : k < pat.length) {row : List Bool} (hrow : RowAnswers pat hay k row) :
    RowAnswers pat hay (k + 1) (globRow hay row (pat.getD k default)) := by
  have hsize := hrow.size
  have hhead : row.headD false = row.getD 0 false := by
    cases row with
    | nil => rfl
    | cons b row => rfl
  have hfirst : (pat.getD k default = '*' && row.headD false) = true ↔ Prefix pat hay (k + 1) 0 := by
    rw [prefix_border hk, Bool.and_eq_true, decide_eq_true_eq, hhead, hrow.cells 0 (Nat.zero_le _)]
  obtain ⟨hlength, hcells⟩ := globCells_answer hk hrow hay.length 0 (Nat.zero_add _) hfirst
  rw [List.drop_zero, List.drop_zero] at hlength hcells
  refine ⟨?_, fun j hj => ?_⟩
  · rw [globRow, List.length_cons, hlength]
  · cases j with
    | zero => exact hfirst
    | succ j =>
      have hj' := hcells j hj
      rw [Nat.zero_add] at hj'
      exact hj'

theorem globRows_answer (k : ℕ) (hk : k ≤ pat.length) :
    RowAnswers pat hay k ((pat.take k).foldl (globRow hay) (true :: List.replicate hay.length false)) := by
  induction k with
  | zero =>
    refine ⟨by simp, fun j hj => ?_⟩
    rw [prefix_zero hj, List.take_zero, List.foldl_nil]
    cases j with
    | zero => simp
    | succ j =>
      rw [List.getD_cons_succ, List.getD_eq_getElem?_getD, List.getElem?_replicate]
      split_ifs <;> simp
  | succ k ih =>
    have hnext : pat.take (k + 1) = pat.take k ++ [pat.getD k default] := by
      rw [List.getD_eq_getElem _ _ hk, List.take_concat_get']
    rw [hnext, List.foldl_append]
    exact globRow_answer hk (ih (Nat.le_of_succ_le hk))

end RowByRow

/-- **The rows of the gate decide the same matches.** -/
theorem globMatch_eq (pattern input : String) : globMatch pattern input = globMatchDp pattern input := by
  have hrows := @globRows_answer pattern.toList input.toList _ (Nat.le_refl pattern.toList.length)
  have hlast := hrows.cells _ (Nat.le_refl _)
  have hsize := hrows.size
  rw [List.take_length] at hlast hsize
  unfold Prefix at hlast
  rw [List.take_length, List.take_length] at hlast
  have hgetLast : globMatch pattern input = (pattern.toList.foldl (globRow input.toList)
      (true :: List.replicate input.toList.length false)).getD input.toList.length false := by
    unfold globMatch
    rw [List.getLastD_eq_getLast?, List.getLast?_eq_getElem?, hsize, List.getD_eq_getElem?_getD]
    rfl
  rw [Bool.eq_iff_iff, hgetLast, hlast, globMatchDp_iff]

/-- A glob without wildcards is its own only match. -/
theorem globMatches_literal {pattern input : List Char} (hstar : '*' ∉ pattern) (hone : '?' ∉ pattern) :
    GlobMatches pattern input ↔ input = pattern := by
  have htokens : pattern.map globToken = pattern.map .lit := by
    refine List.map_congr_left fun c hc => ?_
    have hnoStar : c ≠ '*' := by
      rintro rfl
      exact hstar hc
    have hnoOne : c ≠ '?' := by
      rintro rfl
      exact hone hc
    rw [globToken, if_neg hnoStar, if_neg hnoOne]
  unfold GlobMatches
  rw [htokens, matches_lits, List.forall₂_eq_eq_eq]
  exact eq_comm

/-- **The glob matcher meets its meaning**, in the matrix and in the gate's rows; more globs admit more
programs, and a glob without wildcards admits one. -/
theorem glob_exact :
    (∀ pattern input, globMatchDp pattern input = true ↔ GlobMatches pattern.toList input.toList) ∧
    (∀ pattern input, globMatch pattern input = globMatchDp pattern input) ∧
    (∀ globs globs' path, globs ⊆ globs' → consumersMatch globs path = true →
      consumersMatch globs' path = true) ∧
    (∀ pattern input, '*' ∉ pattern.toList → '?' ∉ pattern.toList →
      (globMatchDp pattern input = true ↔ input = pattern)) := by
  refine ⟨globMatchDp_iff, globMatch_eq, ?_, ?_⟩
  · intro globs globs' path hsub h
    obtain ⟨pattern, hmem, hmatch⟩ := List.any_eq_true.mp h
    exact List.any_eq_true.mpr ⟨pattern, hsub hmem, hmatch⟩
  · intro pattern input hstar hone
    rw [globMatchDp_iff, globMatches_literal hstar hone, String.toList_inj]

/-- A list with another glob in front, and a glob that is a path. -/
theorem agent_admitted : consumersMatch ["curl", "vault-*"] "vault-agent" = true ∧
    (globMatchDp "curl" "curl" = true ↔ "curl" = "curl") :=
  ⟨glob_exact.2.2.1 ["vault-*"] ["curl", "vault-*"] "vault-agent" (by decide) (by decide),
    glob_exact.2.2.2 "curl" "curl" (by decide) (by decide)⟩

end MerkleVault.Socket.Globs
