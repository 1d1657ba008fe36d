import MerkleVault.Lib.Ascii
import MerkleVault.Lib.Json
import Mathlib

/-! # Formats

A *format* prints the values of a type as texts and reads a value back off the front of a text, so a
format of a compound value is put together from those of its parts and what is printed is read back
by construction.  The JSON texts of strings, arrays and objects are formats.

* `Format.upTo`: values up to a closing symbol, none of which starts with it;
* `Format.list`: values between brackets, with commas;
* `ofBytes_toBytes`: the UTF-8 bytes of a text are read back. -/

namespace MerkleVault.Lib.Formats

open MerkleVault.Lib.Ascii MerkleVault.Lib.Json

variable {α β : Type}

/-- A printer, and a reader that stops where the printed text ends. -/
structure Format (α : Type) where
  print : α → List Char
  read : List Char → Option (α × List Char)
  read_print : ∀ a rest, read (print a ++ rest) = some (a, rest)

namespace Format

/-- One value after the other. -/
def pair (F : Format α) (G : Format β) : Format (α × β) where
  print p := F.print p.1 ++ G.print p.2
  read text := do
    let (a, text) ← F.read text
    let (b, text) ← G.read text
    return ((a, b), text)
  read_print p rest := by
    simp only [List.append_assoc, F.read_print, G.read_print, Option.pure_def, Option.bind_eq_bind,
      Option.bind_some]

/-- Values that stand for others. -/
def imap (F : Format α) (f : α → β) (g : β → α) (h : ∀ b, f (g b) = b) : Format β where
  print b := F.print (g b)
  read text := (F.read text).map fun p => (f p.1, p.2)
  read_print b rest := by rw [F.read_print, Option.map_some, h]

/-- A symbol before each value. -/
def after (mark : Char) (F : Format α) : Format α where
  print a := mark :: F.print a
  read
    | [] => none
    | c :: text => if c = mark then F.read text else none
  read_print a rest := by rw [List.cons_append]; exact (if_pos rfl).trans (F.read_print a rest)

/-- No text of the format starts with the symbol, and none is empty. -/
def Avoids (F : Format α) (stop : Char) : Prop := ∀ a, ∃ c text, F.print a = c :: text ∧ c ≠ stop

theorem Avoids.after {mark stop : Char} (F : Format α) (h : mark ≠ stop) :
    (F.after mark).Avoids stop := fun a => ⟨mark, F.print a, rfl, h⟩

/-! ### Values up to a symbol -/

/-- Read at most so many values, until the symbol. -/
def readUpTo (F : Format α) (stop : Char) : ℕ → List Char → Option (List α × List Char)
  | _, [] => none
  | fuel, c :: text =>
    if c = stop then some ([], text) else
    match fuel with
    | 0 => none
    | fuel + 1 => do
      let (a, text) ← F.read (c :: text)
      let (as, text) ← readUpTo F stop fuel text
      return (a :: as, text)

theorem readUpTo_print {F : Format α} {stop : Char} (h : F.Avoids stop) (rest : List Char) :
    ∀ (as : List α) {fuel : ℕ}, as.length ≤ fuel →
      readUpTo F stop fuel (as.flatMap F.print ++ stop :: rest) = some (as, rest)
  | [], fuel, _ => by
    unfold readUpTo
    exact if_pos rfl
  | a :: as, 0, hfuel => absurd hfuel (Nat.not_succ_le_zero _)
  | a :: as, fuel + 1, hfuel => by
    have hread := F.read_print a (as.flatMap F.print ++ stop :: rest)
    have hrest := readUpTo_print h rest as (Nat.le_of_succ_le_succ hfuel)
    obtain ⟨c, text, htext, hc⟩ := h a
    rw [List.flatMap_cons, List.append_assoc, htext, List.cons_append]
    rw [htext, List.cons_append] at hread
    unfold readUpTo
    rw [if_neg hc, hread]
    simp only [Option.pure_def, Option.bind_eq_bind, Option.bind_some, hrest]

theorem Avoids.length_le {F : Format α} {stop : Char} (h : F.Avoids stop) (as : List α) :
    as.length ≤ (as.flatMap F.print).length := by
  induction as with
  | nil => exact Nat.le_refl 0
  | cons a as ih =>
    obtain ⟨c, text, htext, -⟩ := h a
    rw [List.flatMap_cons, List.length_append, htext, List.length_cons, List.length_cons]
    omega

/-- Values one after the other, and the closing symbol. -/
def upTo (F : Format α) (stop : Char) (h : F.Avoids stop) : Format (List α) where
  print as := as.flatMap F.print ++ [stop]
  read text := readUpTo F stop text.length text
  read_print as rest := by
    rw [List.append_assoc, List.singleton_append]
    refine readUpTo_print h rest as ?_
    rw [List.length_append]
    exact (h.length_le as).trans (Nat.le_add_right _ _)

/-! ### Values between brackets -/

/-- The values with commas between, and the closing bracket. -/
def printList (F : Format α) (close : Char) (h : (F.after ',').Avoids close) : List α → List Char
  | [] => [close]
  | a :: as => F.print a ++ ((F.after ',').upTo close h).print as

/-- Read the values up to the closing bracket. -/
def readList (F : Format α) (close : Char) (h : (F.after ',').Avoids close) :
    List Char → Option (List α × List Char)
  | [] => none
  | c :: text =>
    if c = close then some ([], text) else do
    let (a, text) ← F.read (c :: text)
    let (as, text) ← ((F.after ',').upTo close h).read text
    return (a :: as, text)

theorem readList_printList {F : Format α} {close : Char} (hfirst : F.Avoids close)
    (h : (F.after ',').Avoids close) (as : List α) (rest : List Char) :
    readList F close h (printList F close h as ++ rest) = some (as, rest) := by
  cases as with
  | nil => exact if_pos rfl
  | cons a as =>
    have hread := F.read_print a (((F.after ',').upTo close h).print as ++ rest)
    obtain ⟨c, text, htext, hc⟩ := hfirst a
    rw [printList, List.append_assoc, htext, List.cons_append]
    rw [htext, List.cons_append] at hread
    rw [readList, if_neg hc, hread]
    simp only [Option.pure_def, Option.bind_eq_bind, Option.bind_some,
      ((F.after ',').upTo close h).read_print]

/-- Values between brackets, with commas. -/
def list (F : Format α) (start close : Char) (hfirst : F.Avoids close) (hclose : ',' ≠ close) :
    Format (List α) :=
  after start {
    print := printList F close (.after F hclose)
    read := readList F close (.after F hclose)
    read_print := readList_printList hfirst (.after F hclose) }

end Format

/-! ### JSON -/

/-- One character of a string, escaped. -/
def escaped : Format Char := ⟨escapeChar, unescape, unescape_escapeChar⟩

/-- A string in quotes. -/
def text : Format String :=
  ((escaped.upTo '"' escapeChar_head).after '"').imap String.ofList String.toList
    fun _ => String.ofList_toList

theorem text_print (s : String) : text.print s = '"' :: stringBody s.toList := rfl

theorem text_avoids {stop : Char} (h : '"' ≠ stop) : text.Avoids stop :=
  fun s => ⟨'"', _, text_print s, h⟩

/-- An array of strings. -/
def array : Format (List String) := text.list '[' ']' (text_avoids (by decide)) (by decide)

/-- A member `"key":value`. -/
def member (F : Format α) : Format (String × α) := text.pair (F.after ':')

theorem member_avoids (F : Format α) {stop : Char} (h : '"' ≠ stop) : (member F).Avoids stop :=
  fun _ => ⟨'"', _, rfl, h⟩

/-- An object, with its members in their order. -/
def object (F : Format α) : Format (List (String × α)) :=
  (member F).list '{' '}' (member_avoids F (by decide)) (by decide)

/-! ### Bytes -/

/-- The UTF-8 bytes of the text. -/
def toBytes (F : Format α) (a : α) : List UInt8 := (String.ofList (F.print a)).toUTF8.data.toList

/-- The value whose text the bytes are, all of them. -/
def ofBytes (F : Format α) (bytes : List UInt8) : Option α := do
  let s ← String.fromUTF8? ⟨bytes.toArray⟩
  match ← F.read s.toList with
  | (a, []) => return a
  | (_, _ :: _) => none

theorem ofBytes_toBytes (F : Format α) (a : α) : ofBytes F (toBytes F a) = some a := by
  have hread := F.read_print a []
  rw [List.append_nil] at hread
  unfold ofBytes toBytes
  rw [show (⟨(String.ofList (F.print a)).toUTF8.data.toList.toArray⟩ : ByteArray) =
    (String.ofList (F.print a)).toUTF8 from rfl, fromUTF8?_toUTF8]
  simp only [Option.bind_eq_bind, Option.bind_some, String.toList_ofList, hread, Option.pure_def]

theorem toBytes_ne_nil {F : Format α} {a : α} {c : Char} {cs : List Char} (h : F.print a = c :: cs) :
    toBytes F a ≠ [] := by
  rw [toBytes, utf8_eq, String.toList_ofList, h, List.flatMap_cons]
  exact List.append_ne_nil_of_left_ne_nil String.utf8EncodeChar_ne_nil _

end MerkleVault.Lib.Formats
