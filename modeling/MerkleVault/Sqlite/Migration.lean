import MerkleVault.Secrets.Serialized
import MerkleVault.Sqlite.Tables
import Mathlib

/-!
# The Backfill of the Search Columns

Migration 002 adds the columns that the search index reads and fills them for the secrets that are
there; `upsert_secret_row` fills them for every secret that is written later.  The statements of the
migration run over the whole table, one after the other.

* `substr_display`: the name of a backfilled row is the handle without its scheme;
* `backfilled_columns`: the four columns of a backfilled row;
* `backfill_disagrees`: no row gets the columns that a write would give it.
-/

namespace MerkleVault.Sqlite.Migration

open MerkleVault.Types MerkleVault.External MerkleVault.Lib.Serde MerkleVault.Sqlite.AuditRows
open MerkleVault.Sqlite.Tables MerkleVault.Secrets.Serialized MerkleVault.Audit.Integrity

/-! ### The write path -/

/-- `serde_json::to_string` and `from_str`, and `json_extract` of SQLite, with `NULL` as `none`. -/
structure JsonFunctions where
  toText : Value → String
  fromText : String → Option Value
  extract : String → String → Option String

/-- What their documentation says. -/
structure JsonFunctions.Lawful (J : JsonFunctions) : Prop where
  fromText_toText : ∀ l : List Tag, J.fromText (J.toText ((list tag).ser l)) = some ((list tag).ser l)
  extract_text : ∀ m key s, m.lookup key = some (.string s) →
    J.extract (J.toText (.object m)) ("$." ++ key) = some s
  extract_null : ∀ m key, m.lookup key = some .null →
    J.extract (J.toText (.object m)) ("$." ++ key) = none

/-- The columns of migration 002. -/
structure SearchColumns where
  name : String
  tagsText : String
  description : String
  namespaceLabel : String
deriving DecidableEq

section

variable (K : Crates) (R : Readers) (J : JsonFunctions)

/-- `flatten_tags_json`. -/
def flattenTagsJson (tagsJson : String) : String :=
  let tags := ((J.fromText tagsJson).bind (list tag).de).getD []
  " ".intercalate (tags.map fun t => tagKeyName t.key ++ ":" ++ t.value.asStr)

/-- The search columns that `upsert_secret_row` writes. -/
def upsertColumns (s : Secret) : SearchColumns where
  name := s.handle.secretName.asStr
  tagsText := flattenTagsJson J (J.toText ((list tag).ser s.tags))
  description := s.publicMetadata.description.getD ""
  namespaceLabel := s.handle.nspace.asStr

/-! ### The migration -/

/-- The columns of migration 001 that the backfill reads. -/
structure OldRow where
  namespaceId : Uuid
  handle : String
  publicMetadataJson : String
  tagsJson : String
deriving DecidableEq

/-- The row of a secret. -/
def oldRow (s : Secret) : OldRow where
  namespaceId := s.namespaceId.inner
  handle := s.handle.display
  publicMetadataJson := J.toText ((publicMetadata K R).ser s.publicMetadata)
  tagsJson := J.toText ((list tag).ser s.tags)

/-- A row after the migration. -/
structure Row extends OldRow, SearchColumns
deriving DecidableEq

/-- `INSTR(text, c)`: the position of the first occurrence, counted from one, and zero without one. -/
def instr (text : String) (c : Char) : ℕ :=
  if c ∈ text.toList then text.toList.idxOf c + 1 else 0

/-- `SUBSTR(text, start)` from a position that is at least one. -/
def substr (text : String) (start : ℕ) : String := String.ofList (text.toList.drop (start - 1))

/-- `ALTER TABLE ... ADD COLUMN ... DEFAULT ''`. -/
def addColumns (r : OldRow) : Row := ⟨r, ⟨"", "", "", ""⟩⟩

/-- The backfill of `name`, where it is empty. -/
def backfillName (r : Row) : Row :=
  if r.name = "" then
    { r with
      name := substr r.handle
        (instr r.handle '/' + instr (substr r.handle (instr r.handle '/' + 1)) '/' + 1) }
  else r

/-- The fallback for a handle with one segment. -/
def backfillNameFallback (r : Row) : Row :=
  if r.name = "" then { r with name := substr r.handle (instr r.handle '/' + 1) } else r

/-- The backfill of `description`, where it is empty. -/
def backfillDescription (r : Row) : Row :=
  if r.description = "" then
    { r with description := (J.extract r.publicMetadataJson "$.description").getD "" }
  else r

/-- Without a namespace the label is `NULL`, which the column does not take: the statement fails. -/
def backfillNamespaceLabel (namespaces : List Namespace) (r : Row) : Option Row :=
  if r.namespaceLabel = "" then
    (namespaces.find? fun ns => ns.id.inner = r.namespaceId).map fun ns =>
      { r with namespaceLabel := ns.label.asStr }
  else some r

/-- The statements on the rows, in their order. -/
def backfill (namespaces : List Namespace) (rows : List OldRow) : Option (List Row) :=
  ((((rows.map addColumns).map backfillName).map backfillNameFallback).map
    (backfillDescription J)).mapM (backfillNamespaceLabel namespaces)

end

/-! ### The columns of one row -/

/-- The handle without `vault://`. -/
def path (h : Handle) : String :=
  h.nspace.asStr ++ "/" ++ h.category.asStr ++ "/" ++ h.secretName.asStr

theorem display_eq_path (h : Handle) : h.display.toList = "vault://".toList ++ (path h).toList := by
  simp [Handle.display, path, String.toList_append]

theorem instr_scheme (cs : List Char) : instr (String.ofList ("vault://".toList ++ cs)) '/' = 7 := by
  have hscheme : "vault://".toList = ['v', 'a', 'u', 'l', 't', ':', '/', '/'] := rfl
  unfold instr
  rw [String.toList_ofList, hscheme]
  simp

theorem instr_slash (cs : List Char) : instr (String.ofList ('/' :: cs)) '/' = 1 := by
  unfold instr
  rw [String.toList_ofList]
  simp

/-- **The name of a backfilled row** is the handle without its scheme. -/
theorem substr_display (h : Handle) : substr h.display
    (instr h.display '/' + instr (substr h.display (instr h.display '/' + 1)) '/' + 1) = path h := by
  have hdisplay : h.display = String.ofList ("vault://".toList ++ (path h).toList) := by
    rw [← display_eq_path, String.ofList_toList]
  have hscheme : ∀ cs, "vault://".toList ++ cs =
      'v' :: 'a' :: 'u' :: 'l' :: 't' :: ':' :: '/' :: '/' :: cs :=
    fun _ => rfl
  have hfirst : instr h.display '/' = 7 := by rw [hdisplay, instr_scheme]
  have hrest : substr h.display 8 = String.ofList ('/' :: (path h).toList) := by
    rw [hdisplay, substr, String.toList_ofList, hscheme]
    rfl
  rw [hfirst, hrest, instr_slash, hdisplay, substr, String.toList_ofList, hscheme]
  exact String.ofList_toList

theorem path_toList (h : Handle) : (path h).toList =
    h.nspace.asStr.toList ++ '/' :: (h.category.asStr.toList ++ '/' :: h.secretName.asStr.toList) := by
  simp [path, String.toList_append]

theorem path_ne_empty (h : Handle) : path h ≠ "" := by
  intro hempty
  have hlist := path_toList h
  rw [hempty] at hlist
  simp at hlist

/-- A secret's name has no slash. -/
theorem path_ne_name (h : Handle) : path h ≠ h.secretName.asStr := by
  intro heq
  have hslash : '/' ∈ (path h).toList := by
    rw [path_toList]
    simp
  rw [heq] at hslash
  exact slash_not_slug (slugRe_chars h.secretName.valid) hslash

section Columns

variable {K : Crates} {R : Readers} {J : JsonFunctions}

/-- The row before its namespace is looked up. -/
theorem backfilled (s : Secret) :
    backfillDescription J (backfillNameFallback (backfillName (addColumns (oldRow K R J s)))) =
      ⟨oldRow K R J s, ⟨path s.handle, "",
        (J.extract (oldRow K R J s).publicMetadataJson "$.description").getD "", ""⟩⟩ := by
  have hname : backfillName (addColumns (oldRow K R J s)) =
      ⟨oldRow K R J s, ⟨path s.handle, "", "", ""⟩⟩ := by
    have hblank : (addColumns (oldRow K R J s)).name = "" := rfl
    unfold backfillName
    rw [if_pos hblank]
    exact congrArg (fun name => Row.mk (oldRow K R J s) ⟨name, "", "", ""⟩) (substr_display s.handle)
  have hfallback : backfillNameFallback ⟨oldRow K R J s, ⟨path s.handle, "", "", ""⟩⟩ =
      ⟨oldRow K R J s, ⟨path s.handle, "", "", ""⟩⟩ := if_neg (path_ne_empty s.handle)
  rw [hname, hfallback]
  rfl

/-- What is found of the description is the description. -/
theorem extract_description (hJ : J.Lawful) (s : Secret) :
    (J.extract (oldRow K R J s).publicMetadataJson "$.description").getD "" =
      s.publicMetadata.description.getD "" := by
  have hser : (publicMetadata K R).ser s.publicMetadata = .object (["description", "expose",
      "fts_keywords", "expires_at", "prefix", "last4", "fingerprint"].zip
      [(optional text).ser s.publicMetadata.description, boolean.ser s.publicMetadata.expose,
        (optional (list text)).ser s.publicMetadata.ftsKeywords,
        (optional (timestamp K R)).ser s.publicMetadata.expiresAt,
        (optional text).ser s.publicMetadata.prefix_, (optional text).ser s.publicMetadata.last4,
        (optional text).ser s.publicMetadata.fingerprint]) := rfl
  have hpath : "$.description" = "$." ++ "description" := rfl
  unfold oldRow
  rw [hser, hpath]
  cases hd : s.publicMetadata.description with
  | none =>
    rw [hJ.extract_null _ _ rfl]
  | some text =>
    rw [hJ.extract_text _ _ text rfl]

/-- A write flattens the tags that it serializes. -/
theorem flattenTagsJson_toText (hJ : J.Lawful) (l : List Tag) :
    flattenTagsJson J (J.toText ((list tag).ser l)) =
      " ".intercalate (l.map fun t => tagKeyName t.key ++ ":" ++ t.value.asStr) := by
  have hback : (list tag).de ((list tag).ser l) = some l := lossless_tag.list l
  unfold flattenTagsJson
  rw [hJ.fromText_toText]
  simp only [Option.bind_some, hback, Option.getD_some]

/-- The flattened text is empty only without tags: every tag has a colon. -/
theorem flattenTags_eq_empty (hJ : J.Lawful) {l : List Tag} :
    flattenTagsJson J (J.toText ((list tag).ser l)) = "" ↔ l = [] := by
  rw [flattenTagsJson_toText hJ]
  constructor
  · intro h
    cases l with
    | nil => rfl
    | cons t l =>
      have hchars := congrArg String.toList h
      rw [String.toList_intercalate] at hchars
      cases l <;> simp [String.toList_append, List.intercalate] at hchars
  · rintro rfl
    rfl

/-- The columns that a backfilled row has: the name is the handle without its scheme, and no
statement fills the tags. -/
def backfilledColumns (J : JsonFunctions) (row : OldRow) (h : Handle) (ns : Namespace) :
    SearchColumns where
  name := path h
  tagsText := ""
  description := (J.extract row.publicMetadataJson "$.description").getD ""
  namespaceLabel := ns.label.asStr

theorem backfill_cons {namespaces : List Namespace} {ns : Namespace} (s : Secret) (rows : List OldRow)
    (hns : namespaces.find? (fun ns => ns.id.inner = s.namespaceId.inner) = some ns) :
    backfill J namespaces (oldRow K R J s :: rows) = (backfill J namespaces rows).map fun filled =>
      ⟨oldRow K R J s, backfilledColumns J (oldRow K R J s) s.handle ns⟩ :: filled := by
  have hlabel : backfillNamespaceLabel namespaces ⟨oldRow K R J s, ⟨path s.handle, "",
      (J.extract (oldRow K R J s).publicMetadataJson "$.description").getD "", ""⟩⟩ =
      some ⟨oldRow K R J s, backfilledColumns J (oldRow K R J s) s.handle ns⟩ := by
    unfold backfillNamespaceLabel
    rw [if_pos rfl]
    change (namespaces.find? fun ns => ns.id.inner = s.namespaceId.inner).map _ = _
    rw [hns]
    rfl
  unfold backfill
  simp only [List.map_cons, List.mapM_cons, backfilled, hlabel]
  change Option.bind _ _ = Option.map _ _
  cases List.mapM (backfillNamespaceLabel namespaces) _ <;> rfl

/-- **The columns of the backfilled rows.** -/
theorem backfilled_columns {namespaces : List Namespace} : ∀ {secrets : List Secret},
    (∀ s ∈ secrets, ∃ ns ∈ namespaces, ns.id.inner = s.namespaceId.inner) →
      ∃ rows, backfill J namespaces (secrets.map (oldRow K R J)) = some rows ∧
        List.Forall₂ (fun s (row : Row) => ∃ ns ∈ namespaces, ns.id.inner = s.namespaceId.inner ∧
          row = ⟨oldRow K R J s, backfilledColumns J (oldRow K R J s) s.handle ns⟩) secrets rows
  | [], _ => ⟨[], rfl, .nil⟩
  | s :: secrets, h => by
    obtain ⟨⟨ns, hmem, hid⟩, hrest⟩ := List.forall_mem_cons.mp h
    obtain ⟨rows, hrows, hcolumns⟩ := backfilled_columns hrest
    cases hfind : namespaces.find? fun ns => ns.id.inner = s.namespaceId.inner with
    | none =>
      have := List.find?_eq_none.mp hfind ns hmem
      exact absurd (decide_eq_true hid) this
    | some found =>
      refine ⟨_, ?_, .cons ⟨found, List.mem_of_find?_eq_some hfind, ?_, rfl⟩ hcolumns⟩
      · rw [List.map_cons, backfill_cons s _ hfind, hrows]
        rfl
      · simpa using List.find?_some hfind

/-- The description is right for every secret, the tags only for a secret without tags, and the label
where the namespace has the one that the handle names. -/
theorem backfilled_agrees (hJ : J.Lawful) (s : Secret) (ns : Namespace) :
    (backfilledColumns J (oldRow K R J s) s.handle ns).description = (upsertColumns J s).description ∧
      ((backfilledColumns J (oldRow K R J s) s.handle ns).tagsText = (upsertColumns J s).tagsText ↔
        s.tags = []) ∧
      ((backfilledColumns J (oldRow K R J s) s.handle ns).namespaceLabel =
        (upsertColumns J s).namespaceLabel ↔ ns.label.asStr = s.handle.nspace.asStr) :=
  ⟨extract_description hJ s, eq_comm.trans (flattenTags_eq_empty hJ), Iff.rfl⟩

/-- **No row gets the columns that a write would give it**: every backfilled name is wrong. -/
theorem backfill_disagrees (K : Crates) (R : Readers) (J : JsonFunctions) (namespaces : List Namespace)
    (secrets : List Secret)
    (h : ∀ s ∈ secrets, ∃ ns ∈ namespaces, ns.id.inner = s.namespaceId.inner) :
    ∃ rows, backfill J namespaces (secrets.map (oldRow K R J)) = some rows ∧
      List.Forall₂ (fun s (row : Row) => row.toSearchColumns ≠ upsertColumns J s ∧
        row.name = path s.handle ∧ row.name ≠ s.handle.secretName.asStr ∧
        row.tagsText = "") secrets rows := by
  obtain ⟨rows, hrows, hcolumns⟩ := @backfilled_columns K R J namespaces secrets h
  refine ⟨rows, hrows, hcolumns.imp ?_⟩
  rintro s row ⟨ns, -, -, rfl⟩
  have hname := path_ne_name s.handle
  exact ⟨fun heq => hname (congrArg SearchColumns.name heq), rfl, hname, rfl⟩

end Columns

/-! ### One secret -/

/-- A UUID of version 7. -/
def sampleUuidV7 : UuidV7 := ⟨Vector.replicate 16 0x7a, by decide⟩

/-- The namespace of the sample secret. -/
def sampleNamespaceRow : Namespace where
  id := ⟨sampleUuidV7.inner⟩
  label := sampleLabel
  cwdHash := none
  dekVersion := 1
  createdAt := epoch

/-- `vault://prod/database/postgres`, without tags or metadata. -/
def sampleRow : Secret where
  id := sampleUuidV7
  namespaceId := sampleUuidV7
  handle := ⟨sampleLabel, .database, sampleSecretName⟩
  category := .database
  sensitivity := .low
  tags := []
  publicMetadata := ⟨none, false, none, none, none, none, none⟩
  createdAt := epoch
  versions := []
  currentVersionId := sampleUuidV7

/-- Compact texts, of which the empty list is read back; no text has a description. -/
def sampleJson : JsonFunctions where
  toText := compactText
  fromText text := if text = "[]" then some (.array []) else none
  extract _ _ := none

/-- Readers that read nothing. -/
def sampleTexts : Readers := ⟨fun _ => none, fun _ => none⟩

/-- The backfill names the secret `prod/database/postgres`. -/
theorem sample_name : ∃ row : Row,
    backfill sampleJson [sampleNamespaceRow] [oldRow sampleCrates sampleTexts sampleJson sampleRow] =
      some [row] ∧
    row.name = "prod/database/postgres" ∧ (upsertColumns sampleJson sampleRow).name = "postgres" := by
  obtain ⟨rows, hrows, hcolumns⟩ := @backfilled_columns sampleCrates sampleTexts sampleJson
    [sampleNamespaceRow] [sampleRow] fun s hs => by
      obtain rfl := List.mem_singleton.mp hs
      exact ⟨sampleNamespaceRow, List.mem_singleton_self _, rfl⟩
  obtain ⟨row, rest, ⟨ns, -, -, rfl⟩, hnil, rfl⟩ := List.forall₂_cons_left_iff.mp hcolumns
  rw [List.forall₂_nil_left_iff.mp hnil] at hrows
  have hpath : path sampleRow.handle = "prod/database/postgres" := by decide
  exact ⟨_, hrows, hpath, rfl⟩

/-- The columns of that row are not those of a write. -/
theorem sample_disagrees : ∃ rows,
    backfill sampleJson [sampleNamespaceRow]
        ([sampleRow].map (oldRow sampleCrates sampleTexts sampleJson)) = some rows ∧
      List.Forall₂ (fun s (row : Row) => row.toSearchColumns ≠ upsertColumns sampleJson s ∧
        row.name = path s.handle ∧ row.name ≠ s.handle.secretName.asStr ∧ row.tagsText = "")
        [sampleRow] rows :=
  backfill_disagrees sampleCrates sampleTexts sampleJson [sampleNamespaceRow] [sampleRow] fun s hs => by
    obtain rfl := List.mem_singleton.mp hs
    exact ⟨sampleNamespaceRow, List.mem_singleton_self _, rfl⟩

end MerkleVault.Sqlite.Migration
