import Mathlib.Data.String.Basic
import Mathlib.Data.List.Basic

/-! # Maps Sorted by Key

A finite map as the list of its entries in the order of their keys, each key once.

* `insert`, `get?`: what a key is mapped to after insertions (`get?_insert`);
* `insertOpt`: an insertion that is left out when there is no value. -/

namespace MerkleVault.Lib.SortedMap

variable {κ ν : Type*} [LinearOrder κ]

/-- The entry at its place, in the place of an entry with the same key. -/
def insertEntry (k : κ) (v : ν) : List (κ × ν) → List (κ × ν)
  | [] => [(k, v)]
  | e :: es =>
    if k < e.1 then (k, v) :: e :: es else if k = e.1 then (k, v) :: es
    else e :: insertEntry k v es

theorem mem_insertEntry {k : κ} {v : ν} {a : κ × ν} : ∀ {es : List (κ × ν)},
    a ∈ insertEntry k v es → a = (k, v) ∨ a ∈ es
  | [], ha => .inl (List.mem_singleton.mp ha)
  | e :: es, ha => by
    unfold insertEntry at ha
    split_ifs at ha
    · exact List.mem_cons.mp ha
    · exact (List.mem_cons.mp ha).imp_right (List.mem_cons_of_mem e)
    · rcases List.mem_cons.mp ha with rfl | ha
      · exact .inr List.mem_cons_self
      · exact (mem_insertEntry ha).imp_right (List.mem_cons_of_mem e)

theorem sorted_insertEntry (k : κ) (v : ν) : ∀ {es : List (κ × ν)},
    es.Pairwise (fun a b => a.1 < b.1) → (insertEntry k v es).Pairwise fun a b => a.1 < b.1
  | [], _ => List.pairwise_singleton _ _
  | e :: es, h => by
    obtain ⟨hhead, htail⟩ := List.pairwise_cons.mp h
    unfold insertEntry
    split_ifs with hlt heq
    · refine List.pairwise_cons.mpr ⟨fun b hb => ?_, h⟩
      rcases List.mem_cons.mp hb with rfl | hb
      · exact hlt
      · exact hlt.trans (hhead b hb)
    · exact List.pairwise_cons.mpr ⟨fun b hb => heq ▸ hhead b hb, htail⟩
    · refine List.pairwise_cons.mpr ⟨fun b hb => ?_, sorted_insertEntry k v htail⟩
      rcases mem_insertEntry hb with rfl | hb
      · exact lt_of_le_of_ne (not_lt.mp hlt) (Ne.symm heq)
      · exact hhead b hb

/-- What the first entry with the key holds. -/
def getEntry (k : κ) : List (κ × ν) → Option ν
  | [] => none
  | e :: es => if k = e.1 then some e.2 else getEntry k es

theorem getEntry_insertEntry (k k' : κ) (v : ν) : ∀ es : List (κ × ν),
    getEntry k' (insertEntry k v es) = if k' = k then some v else getEntry k' es
  | [] => rfl
  | e :: es => by
    by_cases hlt : k < e.1
    · rw [insertEntry, if_pos hlt]
      rfl
    by_cases heq : k = e.1
    · rw [insertEntry, if_neg hlt, if_pos heq, getEntry, getEntry, ← heq]
      split_ifs
      · rfl
      · rfl
    · rw [insertEntry, if_neg hlt, if_neg heq, getEntry, getEntry, getEntry_insertEntry k k' v es]
      split_ifs with hhead hkey
      · exact absurd (hkey.symm.trans hhead) heq
      · rfl
      · rfl
      · rfl

end MerkleVault.Lib.SortedMap

namespace MerkleVault.Lib

/-- A map as its entries in the order of their keys. -/
structure SortedMap (κ ν : Type*) [LinearOrder κ] where
  entries : List (κ × ν)
  sorted : entries.Pairwise fun a b => a.1 < b.1

namespace SortedMap

variable {κ ν : Type*} [LinearOrder κ]

theorem entries_injective : Function.Injective (entries : SortedMap κ ν → List (κ × ν)) := by
  rintro ⟨a, ha⟩ ⟨b, hb⟩ h
  obtain rfl : a = b := h
  rfl

/-- The map without keys. -/
def empty : SortedMap κ ν := ⟨[], .nil⟩

/-- The map with a value under a key. -/
def insert (m : SortedMap κ ν) (k : κ) (v : ν) : SortedMap κ ν :=
  ⟨insertEntry k v m.entries, sorted_insertEntry k v m.sorted⟩

/-- An entry for a value that may be missing. -/
def insertOpt (m : SortedMap κ ν) (k : κ) : Option ν → SortedMap κ ν
  | some v => m.insert k v
  | none => m

/-- The value under a key. -/
def get? (m : SortedMap κ ν) (k : κ) : Option ν := getEntry k m.entries

@[simp] theorem get?_empty (k : κ) : (empty : SortedMap κ ν).get? k = none := rfl

theorem get?_insert (m : SortedMap κ ν) (k k' : κ) (v : ν) :
    (m.insert k v).get? k' = if k' = k then some v else m.get? k' :=
  getEntry_insertEntry k k' v m.entries

theorem get?_insertOpt (m : SortedMap κ ν) (k k' : κ) (v : Option ν) :
    (m.insertOpt k v).get? k' = if k' = k then v.or (m.get? k') else m.get? k' := by
  cases v with
  | none => simp [insertOpt]
  | some v => exact get?_insert m k k' v

end SortedMap

end MerkleVault.Lib
