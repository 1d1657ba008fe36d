import MerkleVault.App.SecretCommands
import MerkleVault.Types
import Mathlib

/-!
# The Text of a Handle

Which texts are handles, and that a handle and its text say the same.  The grammar is given by its
words: `Slug`, `CwdForm` and `CategorySlug` cut a text into the runs its pattern names, and
`HandleText` puts three of them behind `vault://`.

A parser that splits at the first two slashes leaves every later slash in the name, where no slug has
one.  So a text that parses is cut into the parts it was written from, and `Handle.fromStr` and
`Handle.display` undo each other.

* `slugRe_iff`, `nsCwdRe_iff`, `categorySlugRe_iff`: the patterns match the words of the grammar;
* `fromStr_eq_some`: a text parses to a handle exactly if it is the handle's text;
* `handle_syntax`: the grammar, the two round trips, and the handle as its text and as the associated
  data of its blobs.
-/

namespace MerkleVault.Secrets.Handles

open MerkleVault.Types MerkleVault.App.SecretCommands

/-! ### The grammar -/

/-- A letter, one to sixty-one letters, digits and hyphens, and a letter or digit. -/
def Slug (w : List Char) : Prop :=
  ∃ first middle last, w = first :: (middle ++ [last]) ∧ isLowerAlpha first = true ∧
    1 ≤ middle.length ∧ middle.length ≤ 61 ∧ (∀ c ∈ middle, isSlugChar c = true) ∧
    isLowerAlnum last = true

/-- `cwd-` and sixteen hexadecimal digits. -/
def CwdForm (w : List Char) : Prop :=
  ∃ digits, w = "cwd-".toList ++ digits ∧ digits.length = 16 ∧ ∀ c ∈ digits, isHexDigit c = true

/-- A letter, then letters, digits and hyphens. -/
def CategorySlug (w : List Char) : Prop :=
  ∃ first rest, w = first :: rest ∧ isLowerAlpha first = true ∧ ∀ c ∈ rest, isSlugChar c = true

/-- `vault://label/category/name`. -/
def HandleText (s : String) : Prop :=
  ∃ label category name, s.toList = "vault://".toList ++ (label ++ '/' :: (category ++ '/' :: name)) ∧
    (Slug label ∨ CwdForm label) ∧ CategorySlug category ∧ Slug name

/-- A slug has three to sixty-three characters. -/
theorem Slug.length {w : List Char} (h : Slug w) : 3 ≤ w.length ∧ w.length ≤ 63 := by
  obtain ⟨first, middle, last, rfl, -, h1, h2, -, -⟩ := h
  simp only [List.length_cons, List.length_append, List.length_nil]
  omega

/-! ### The patterns -/

theorem slugRe_iff (s : String) : slugRe s = true ↔ Slug s.toList := by
  unfold slugRe
  split
  · next hs =>
    simp only [Bool.false_eq_true, false_iff]
    rintro ⟨first, middle, last, hw, -⟩
    rw [hs] at hw
    cases hw
  · next c cs hs =>
    simp only [Bool.and_eq_true, decide_eq_true_eq, List.all_eq_true]
    constructor
    · rintro ⟨⟨⟨⟨hc, hmin⟩, hmax⟩, hmiddle⟩, hlast⟩
      have hne : cs ≠ [] := by
        rintro rfl
        simp at hmin
      rw [List.getLast?_eq_some_getLast hne, Option.any_some] at hlast
      refine ⟨c, cs.dropLast, cs.getLast hne, ?_, hc, ?_, ?_, hmiddle, hlast⟩
      · rw [hs, List.dropLast_append_getLast]
      · rw [List.length_dropLast]
        omega
      · rw [List.length_dropLast]
        omega
    · rintro ⟨first, middle, last, hw, hfirst, hmin, hmax, hmiddle, hlast⟩
      obtain ⟨rfl, rfl⟩ := List.cons.inj (hs.symm.trans hw)
      have hlen : (middle ++ [last]).length = middle.length + 1 := by simp
      refine ⟨⟨⟨⟨hfirst, by omega⟩, by omega⟩, ?_⟩, ?_⟩
      · rw [List.dropLast_concat]
        exact hmiddle
      · rw [List.getLast?_concat]
        exact hlast

theorem nsCwdRe_iff (s : String) : nsCwdRe s = true ↔ CwdForm s.toList := by
  have hpre : "cwd-".toList = ['c', 'w', 'd', '-'] := rfl
  unfold nsCwdRe CwdForm
  rw [hpre]
  split
  · next cs hs =>
    simp only [Bool.and_eq_true, beq_iff_eq, List.all_eq_true]
    constructor
    · rintro ⟨hlen, hhex⟩
      exact ⟨cs, hs, hlen, hhex⟩
    · rintro ⟨digits, hw, hlen, hhex⟩
      have hcons : ['c', 'w', 'd', '-'] ++ cs = ['c', 'w', 'd', '-'] ++ digits := hs.symm.trans hw
      obtain rfl := List.append_cancel_left hcons
      exact ⟨hlen, hhex⟩
  · next hno =>
    simp only [Bool.false_eq_true, false_iff]
    rintro ⟨digits, hw, -, -⟩
    exact hno digits hw

theorem categorySlugRe_iff (s : String) : categorySlugRe s = true ↔ CategorySlug s.toList := by
  unfold categorySlugRe CategorySlug
  split
  · next hs =>
    simp only [Bool.false_eq_true, false_iff]
    rintro ⟨first, rest, hw, -⟩
    rw [hs] at hw
    cases hw
  · next c cs hs =>
    simp only [Bool.and_eq_true, List.all_eq_true]
    constructor
    · rintro ⟨hc, hcs⟩
      exact ⟨c, cs, hs, hc, hcs⟩
    · rintro ⟨first, rest, hw, hfirst, hrest⟩
      obtain ⟨rfl, rfl⟩ := List.cons.inj (hs.symm.trans hw)
      exact ⟨hfirst, hrest⟩

/-! ### The parts -/

theorem label_iff (l : NamespaceLabel) : Slug l.asStr.toList ∨ CwdForm l.asStr.toList := by
  have h := l.valid
  rwa [Bool.or_eq_true, slugRe_iff, nsCwdRe_iff] at h

/-- The built-in texts are slugs themselves, so every category is one. -/
theorem category_slug (c : CategoryName) : CategorySlug c.asStr.toList := by
  cases c with
  | custom s hv _ => exact (categorySlugRe_iff s).mp hv
  | _ => exact (categorySlugRe_iff _).mp (by decide)

/-- A category slug is read as the built-in category it names, or else as itself. -/
theorem exists_category {s : String} (h : CategorySlug s.toList) : ∃ c : CategoryName, c.asStr = s := by
  by_cases hb : s ∈ builtinCategories
  · simp only [builtinCategories, List.mem_cons, List.not_mem_nil, or_false] at hb
    rcases hb with rfl | rfl | rfl | rfl | rfl | rfl | rfl | rfl | rfl | rfl | rfl
    · exact ⟨.password, rfl⟩
    · exact ⟨.otpSecret, rfl⟩
    · exact ⟨.sshKey, rfl⟩
    · exact ⟨.gpgKey, rfl⟩
    · exact ⟨.token, rfl⟩
    · exact ⟨.cert, rfl⟩
    · exact ⟨.cloud, rfl⟩
    · exact ⟨.database, rfl⟩
    · exact ⟨.env, rfl⟩
    · exact ⟨.note, rfl⟩
    · exact ⟨.key, rfl⟩
  · exact ⟨.custom s ((categorySlugRe_iff s).mpr h) hb, rfl⟩

theorem category_of_fromStr {s : String} {c : CategoryName} (h : CategoryName.fromStr s = some c) :
    c.asStr = s := by
  unfold CategoryName.fromStr at h
  split at h
  · next c' hb =>
    obtain rfl := Option.some.inj h
    unfold CategoryName.builtin at hb
    split at hb <;> cases hb <;> rfl
  · split at h
    · split at h <;> cases h
      rfl
    · cases h

/-- A handle that was read has the text it was read from. -/
theorem display_of_fromStr {s : String} {h : Handle} (hs : Handle.fromStr s = some h) :
    h.display = s := by
  unfold Handle.fromStr at hs
  simp only [Option.bind_eq_bind, Option.bind_eq_some_iff] at hs
  obtain ⟨path, hpath, ⟨label, rest⟩, hcut, ⟨category, name⟩, hcut', hs⟩ := hs
  rw [List.isPrefixOf?_eq_some_iff_append_eq] at hpath
  split at hs
  · cases hs
  · simp only [Option.bind_eq_some_iff] at hs
    obtain ⟨l, hl, c, hc, n, hn, hh⟩ := hs
    obtain rfl := Option.some.inj hh
    unfold NamespaceLabel.fromStr at hl
    unfold SecretName.fromStr at hn
    split at hl <;> cases hl
    split at hn <;> cases hn
    have hrest : rest = category ++ '/' :: name := (cutAtSlash_eq_some.mp hcut').1
    rw [← String.toList_inj, Handle.display_toList, category_of_fromStr hc, ← hpath,
      (cutAtSlash_eq_some.mp hcut).1, hrest]
    simp only [String.toList_ofList]

/-- **A text is read as a handle exactly if it is the handle's text.** -/
theorem fromStr_eq_some (s : String) (h : Handle) : Handle.fromStr s = some h ↔ h.display = s := by
  constructor
  · exact display_of_fromStr
  · rintro rfl
    exact Handle.fromStr_display h

/-- **The texts of handles are the words of the grammar.** -/
theorem handleText_iff (s : String) : HandleText s ↔ ∃ h : Handle, h.display = s := by
  constructor
  · rintro ⟨label, category, name, hs, hlabel, hcategory, hname⟩
    have hvalid : (slugRe (String.ofList label) || nsCwdRe (String.ofList label)) = true := by
      rw [Bool.or_eq_true, slugRe_iff, nsCwdRe_iff, String.toList_ofList]
      exact hlabel
    have hname' : slugRe (String.ofList name) = true := by
      rw [slugRe_iff, String.toList_ofList]
      exact hname
    obtain ⟨c, hc⟩ := exists_category (s := String.ofList category) (by
      rw [String.toList_ofList]
      exact hcategory)
    refine ⟨⟨⟨_, hvalid⟩, c, ⟨_, hname'⟩⟩, ?_⟩
    rw [← String.toList_inj, Handle.display_toList, hc, hs]
    simp only [String.toList_ofList]
  · rintro ⟨h, rfl⟩
    exact ⟨_, _, _, Handle.display_toList h, label_iff h.nspace, category_slug h.category,
      (slugRe_iff _).mp h.secretName.valid⟩

/-- The associated data of a blob tells the handles apart. -/
theorem handleAad_injective : Function.Injective handleAad := by
  intro a b h
  have hbytes : a.display.toUTF8 = b.display.toUTF8 := by
    refine ByteArray.ext (Array.ext' ?_)
    exact h
  exact Handle.display_injective (String.toByteArray_inj.mp hbytes)

/-- **The syntax of handles is exact and reversible.** -/
theorem handle_syntax :
    (∀ s, (∃ h, Handle.fromStr s = some h) ↔ HandleText s) ∧
    (∀ s h, Handle.fromStr s = some h → h.display = s) ∧
    (∀ s h, Handle.fromStr s = some h → Handle.fromStr h.display = some h) ∧
    (∀ s t a b, Handle.fromStr s = some a → Handle.fromStr t = some b →
      (a = b ↔ a.display = b.display) ∧ (a = b ↔ s = t) ∧ (a = b ↔ handleAad a = handleAad b)) := by
  refine ⟨fun s => ?_, fun s h => display_of_fromStr, fun s h _ => Handle.fromStr_display h, ?_⟩
  · rw [handleText_iff]
    exact exists_congr fun h => fromStr_eq_some s h
  · intro s t a b ha hb
    have hs := display_of_fromStr ha
    have ht := display_of_fromStr hb
    have hdisplay : a = b ↔ a.display = b.display := Handle.display_injective.eq_iff.symm
    refine ⟨hdisplay, ?_, handleAad_injective.eq_iff.symm⟩
    rw [hdisplay, hs, ht]

/-- A category that is built in is read as its own variant. -/
theorem builtin_category_text :
    Handle.fromStr "vault://prod/ssh/postgres" = some ⟨sampleLabel, .sshKey, sampleSecretName⟩ ∧
    Handle.display ⟨sampleLabel, .sshKey, sampleSecretName⟩ = "vault://prod/ssh/postgres" := by
  have hread : Handle.fromStr "vault://prod/ssh/postgres" =
      some ⟨sampleLabel, .sshKey, sampleSecretName⟩ := by decide
  exact ⟨hread, handle_syntax.2.1 _ _ hread⟩

end MerkleVault.Secrets.Handles
