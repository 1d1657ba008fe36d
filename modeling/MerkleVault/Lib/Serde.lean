import MerkleVault.Lib.Json
import Mathlib

/-!
# Values of a Self-Describing Format

A serializer writes a value of a small data model (nulls, booleans, numbers, texts, sequences and
maps), a deserializer reads one.  What derived code does with a record is fixed by the names of its
fields: they are written as a map, and read from a map, in whatever order and among other members, or
from a sequence with one element for each field.

* `Codec.through`: what comes back of a value that was written;
* `Cuts`: a codec that gives the value back up to a cut, and fails on the values outside its domain;
* `Cuts.list`, `Cuts.optional`: sequences and optional values;
* `record_through`: records.
-/

namespace MerkleVault.Lib.Serde

open MerkleVault.Lib.Json

variable {α β : Type}

/-- The data model. -/
inductive Value
  | null
  | bool (b : Bool)
  | int (n : ℤ)
  | float (literal : String)
  | string (s : String)
  | array (l : List Value)
  | object (m : List (String × Value))

/-- The compact JSON text of a value. -/
def render : Value → List Char
  | .null => "null".toList
  | .bool b => (toString b).toList
  | .int n => (toString n).toList
  | .float literal => literal.toList
  | .string s => '"' :: stringBody s.toList
  | .array l => '[' :: ((l.attach.map fun v => render v.1).intersperse [',']).flatten ++ [']']
  | .object m => '\x7b' :: ((m.attach.map fun e =>
      '"' :: stringBody e.1.1.toList ++ ':' :: render e.1.2).intersperse [',']).flatten ++ ['\x7d']
termination_by v => sizeOf v
decreasing_by
  · have := List.sizeOf_lt_of_mem v.2
    simp only [Value.array.sizeOf_spec]
    omega
  · have := List.sizeOf_lt_of_mem e.2
    have : sizeOf e.1.2 < sizeOf e.1 := by
      obtain ⟨⟨k, v⟩, h⟩ := e
      simp
    simp only [Value.object.sizeOf_spec]
    omega

/-- The compact text of a value. -/
def compactText (v : Value) : String := String.ofList (render v)

/-- A serializer with a deserializer. -/
structure Codec (α : Type) where
  ser : α → Value
  de : Value → Option α

/-- What comes back of a value that was written. -/
def Codec.through (c : Codec α) (a : α) : Option α := c.de (c.ser a)

/-- Values of the domain come back cut, and no other comes back. -/
structure Cuts (c : Codec α) (domain : α → Prop) (cut : α → α) : Prop where
  inside : ∀ a, domain a → c.through a = some (cut a)
  outside : ∀ a, ¬domain a → c.through a = none

/-- Every value comes back. -/
def Lossless (c : Codec α) : Prop := ∀ a, c.through a = some a

theorem Lossless.cuts {c : Codec α} (h : Lossless c) : Cuts c (fun _ => True) id :=
  ⟨fun a _ => h a, fun _ hno => absurd trivial hno⟩

/-! ### Scalars -/

/-- A Boolean. -/
def boolean : Codec Bool where
  ser := .bool
  de
    | .bool b => some b
    | _ => none

/-- A value that is written as its text and parsed. -/
def viaText (display : α → String) (parse : String → Option α) : Codec α where
  ser a := .string (display a)
  de
    | .string s => parse s
    | _ => none

/-- A string. -/
def text : Codec String := viaText id some

/-- A number that is in its range. -/
def unsigned (toNat : α → ℕ) (ofNat : ℕ → α) (bound : ℕ) : Codec α where
  ser a := .int (toNat a)
  de
    | .int n => if 0 ≤ n ∧ n < bound then some (ofNat n.toNat) else none
    | _ => none

/-- A byte, as a number. -/
def byte : Codec UInt8 := unsigned UInt8.toNat UInt8.ofNat (2 ^ 8)

/-- A 32-bit number. -/
def uint32 : Codec UInt32 := unsigned UInt32.toNat UInt32.ofNat (2 ^ 32)

/-- A variant without data: its name, or a map from its name to null. -/
def unitVariant (name : α → String) (ofName : String → Option α) : Codec α where
  ser a := .string (name a)
  de
    | .string s => ofName s
    | .object [(s, .null)] => ofName s
    | _ => none

theorem lossless_boolean : Lossless boolean := fun _ => rfl

theorem lossless_viaText {display : α → String} {parse : String → Option α}
    (h : ∀ a, parse (display a) = some a) : Lossless (viaText display parse) := h

theorem lossless_text : Lossless text := fun _ => rfl

theorem lossless_unsigned {toNat : α → ℕ} {ofNat : ℕ → α} {bound : ℕ} (hlt : ∀ a, toNat a < bound)
    (h : ∀ a, ofNat (toNat a) = a) : Lossless (unsigned toNat ofNat bound) := by
  intro a
  have hrange : (0 : ℤ) ≤ toNat a ∧ (toNat a : ℤ) < bound := by
    have := hlt a
    omega
  simp only [Codec.through, unsigned, if_pos hrange, Int.toNat_natCast, h]

theorem lossless_byte : Lossless byte :=
  lossless_unsigned (fun n => n.toNat_lt) fun _ => UInt8.ofNat_toNat

theorem lossless_uint32 : Lossless uint32 :=
  lossless_unsigned (fun n => n.toNat_lt) fun _ => UInt32.ofNat_toNat

theorem lossless_unitVariant {name : α → String} {ofName : String → Option α}
    (h : ∀ a, ofName (name a) = some a) : Lossless (unitVariant name ofName) := h

/-! ### Sequences and optional values -/

/-- An array of values. -/
def list (c : Codec α) : Codec (List α) where
  ser l := .array (l.map c.ser)
  de
    | .array l => l.mapM c.de
    | _ => none

/-- An array of a fixed length. -/
def array (c : Codec α) (n : ℕ) : Codec (Vector α n) where
  ser v := .array (v.toList.map c.ser)
  de v := ((list c).de v).bind fun l =>
    if h : l.length = n then some ⟨l.toArray, by simp [h]⟩ else none

/-- `None` is null. -/
def optional (c : Codec α) : Codec (Option α) where
  ser
    | none => .null
    | some a => c.ser a
  de
    | .null => some none
    | v => (c.de v).map some

theorem through_list_cons (c : Codec α) (a : α) (l : List α) : (list c).through (a :: l) =
    (c.through a).bind fun b => ((list c).through l).map (b :: ·) := by
  change List.mapM c.de (c.ser a :: l.map c.ser) = _
  rw [List.mapM_cons]
  refine congrArg (Option.bind _) (funext fun b => ?_)
  change Option.bind ((list c).through l) _ = Option.map _ _
  cases (list c).through l <;> rfl

theorem Cuts.list {c : Codec α} {domain : α → Prop} {cut : α → α} (h : Cuts c domain cut) :
    Cuts (list c) (fun l => ∀ a ∈ l, domain a) (List.map cut) := by
  constructor
  · intro l hl
    induction l with
    | nil => rfl
    | cons a l ih =>
      obtain ⟨ha, hrest⟩ := List.forall_mem_cons.mp hl
      rw [through_list_cons, h.inside a ha, ih hrest]
      rfl
  · intro l hl
    induction l with
    | nil => exact absurd (fun _ hmem => absurd hmem List.not_mem_nil) hl
    | cons a l ih =>
      rw [through_list_cons]
      by_cases ha : domain a
      · have hrest : ¬∀ b ∈ l, domain b := fun hrest => hl (List.forall_mem_cons.mpr ⟨ha, hrest⟩)
        rw [ih hrest]
        cases c.through a <;> rfl
      · rw [h.outside a ha]
        rfl

theorem Lossless.list {c : Codec α} (h : Lossless c) : Lossless (list c) := by
  intro l
  have := h.cuts.list.inside l fun _ _ => trivial
  rwa [List.map_id] at this

theorem Lossless.array {c : Codec α} (h : Lossless c) (n : ℕ) : Lossless (array c n) := by
  intro v
  have hl : (Serde.list c).de (.array (v.toList.map c.ser)) = some v.toList := h.list v.toList
  change ((Serde.list c).de (.array (v.toList.map c.ser))).bind _ = _
  rw [hl, Option.bind_some, dif_pos (by simp)]
  exact congrArg some (Vector.toList_inj.mp rfl)

/-- No value of the codec is written as null. -/
def NeverNull (c : Codec α) : Prop := ∀ a, c.ser a ≠ .null

theorem through_some {c : Codec α} (hc : NeverNull c) (a : α) :
    (optional c).through (some a) = (c.through a).map some := by
  have hne := hc a
  change (match c.ser a with | .null => some none | v => (c.de v).map some) = (c.de (c.ser a)).map some
  cases hser : c.ser a with
  | null => exact absurd hser hne
  | _ => rfl

theorem Cuts.optional {c : Codec α} {domain : α → Prop} {cut : α → α} (h : Cuts c domain cut)
    (hc : NeverNull c) : Cuts (optional c) (fun o => ∀ a ∈ o, domain a) (Option.map cut) := by
  constructor
  · rintro (_ | a) ho
    · rfl
    · rw [through_some hc, h.inside a (ho a rfl)]
      rfl
  · rintro (_ | a) ho
    · exact absurd (fun _ ha => by cases ha) ho
    · have ha : ¬domain a := fun ha => ho fun b hb => Option.some.inj hb ▸ ha
      rw [through_some hc, h.outside a ha]
      rfl

theorem Lossless.optional {c : Codec α} (h : Lossless c) (hc : NeverNull c) : Lossless (optional c) := by
  intro o
  have := (h.cuts.optional hc).inside o fun _ _ => trivial
  rwa [Option.map_id] at this

/-! ### Records -/

/-- The values of the named fields, `none` for one that is missing.  In a map no field may occur
twice; its other members are ignored, or refused. -/
def fieldValues (names : List String) (denyUnknown : Bool) : Value → Option (List (Option Value))
  | .object m =>
    if names.any fun name => 1 < (m.map Prod.fst).count name then none
    else if denyUnknown && m.any fun e => e.1 ∉ names then none
    else some (names.map fun name => m.lookup name)
  | .array l => if l.length = names.length then some (l.map some) else none
  | _ => none

/-- A field that has to be there. -/
def required (c : Codec α) (v : Option Value) : Option α := v.bind c.de

/-- A field of an optional type, `None` when it is missing. -/
def defaulted (c : Codec α) : Option Value → Option (Option α)
  | none => some none
  | some v => (optional c).de v

/-- A record: its fields by name, what they are written as and how they are read. -/
def record (names : List String) (denyUnknown : Bool) (ser : α → List Value)
    (de : List (Option Value) → Option α) : Codec α where
  ser a := .object (names.zip (ser a))
  de v := (fieldValues names denyUnknown v).bind de

theorem required_ser (c : Codec α) (a : α) : required c (some (c.ser a)) = c.through a := rfl

theorem defaulted_ser (c : Codec α) (o : Option α) :
    defaulted c (some ((optional c).ser o)) = (optional c).through o := rfl

theorem map_lookup_zip : ∀ {names : List String} {values : List Value}, names.Nodup →
    values.length = names.length →
      names.map (fun name => (names.zip values).lookup name) = values.map some
  | [], [], _, _ => rfl
  | [], _ :: _, _, hlen => by simp at hlen
  | _ :: _, [], _, hlen => by simp at hlen
  | name :: names, value :: values, hnodup, hlen => by
    obtain ⟨hnot, hrest⟩ := List.nodup_cons.mp hnodup
    have ih := map_lookup_zip hrest (Nat.succ.inj hlen)
    have hother : ∀ n ∈ names, ((name, value) :: names.zip values).lookup n =
        (names.zip values).lookup n := by
      intro n hn
      have hne : (n == name) = false := by
        rw [beq_eq_false_iff_ne]
        rintro rfl
        exact hnot hn
      rw [List.lookup_cons, hne]
    simp only [List.zip_cons_cons, List.map_cons]
    rw [List.map_congr_left hother, ih]
    simp

theorem fieldValues_zip {names : List String} {values : List Value} (denyUnknown : Bool)
    (hnodup : names.Nodup) (hlen : values.length = names.length) :
    fieldValues names denyUnknown (.object (names.zip values)) = some (values.map some) := by
  have hnames : (names.zip values).map Prod.fst = names := List.map_fst_zip (Nat.le_of_eq hlen.symm)
  have hcount : (names.any fun name => 1 < names.count name) = false := by
    rw [List.any_eq_false]
    intro name hname
    have := List.nodup_iff_count_le_one.mp hnodup name
    simpa using this
  have hknown : ((names.zip values).any fun e => e.1 ∉ names) = false := by
    rw [List.any_eq_false]
    intro e he
    have := List.of_mem_zip (a := e.1) (b := e.2) he
    simpa using this.1
  simp only [fieldValues, hnames, hcount, hknown, Bool.and_false, Bool.false_eq_true, if_false,
    map_lookup_zip hnodup hlen]

/-- **A record comes back** as its fields are read from what they were written as. -/
theorem record_through {names : List String} {denyUnknown : Bool} {ser : α → List Value}
    {de : List (Option Value) → Option α} (hnodup : names.Nodup) {a : α}
    (hlen : (ser a).length = names.length) :
    (record names denyUnknown ser de).through a = de ((ser a).map some) := by
  change (fieldValues names denyUnknown (.object (names.zip (ser a)))).bind de = _
  rw [fieldValues_zip denyUnknown hnodup hlen, Option.bind_some]

/-! ### Untagged variants -/

/-- Two formats without a tag: the first that can be read is taken. -/
def untagged (first : Codec α) (second : Codec β) : Codec (α ⊕ β) where
  ser
    | .inl a => first.ser a
    | .inr b => second.ser b
  de v := ((first.de v).map Sum.inl).or ((second.de v).map Sum.inr)

end MerkleVault.Lib.Serde
