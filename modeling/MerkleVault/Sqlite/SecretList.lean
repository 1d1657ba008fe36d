import MerkleVault.Lib.Glob
import MerkleVault.Sqlite.AuditQueries
import MerkleVault.Sqlite.FtsQuery
import MerkleVault.Sqlite.Versions
import Mathlib

/-!
# Listing Secrets

`list_secrets` builds a `WHERE` clause from the filters that are set and leaves the tags to a loop over
the rows.  A limit goes into the statement when there are no tags to test, and is applied to what the
loop keeps otherwise.  A name pattern becomes a `LIKE` pattern by four replacements in a row; SQLite
reads that up to its first U+0000, and refuses one that is too long.

* `escapeLike_eq`: the replacements do not touch each other's output;
* `likeTokens_escapeLike`: SQLite reads the result as the pattern with stars;
* `conditions_hold`: the numbered conditions test each bound value on its own column;
* `listing_exact_iff`: the patterns with which names are tested and secrets are listed as they should.
-/

namespace MerkleVault.Sqlite.SecretList

open MerkleVault.Types MerkleVault.External MerkleVault.Lib.Glob MerkleVault.Secrets.Aggregate
open MerkleVault.Sqlite.Tables MerkleVault.Sqlite.AuditRows MerkleVault.Sqlite.TimestampText
open MerkleVault.Sqlite.AuditQueries MerkleVault.Sqlite.FtsQuery MerkleVault.Sqlite.Versions
open MerkleVault.Audit.Integrity

/-- `SecretFilter`. -/
structure SecretFilter where
  tagMatch : Option (List Tag)
  namePattern : Option String
  expiresBefore : Option Rfc3339Timestamp
  ftsQuery : Option String
  limit : Option UInt32

/-- A row of `secrets` with the expiry that its public metadata holds. -/
structure ListedRow extends SecretRow where
  expiresAt : Option Rfc3339Timestamp

/-! ### Name patterns -/

/-- `str::replace` of a character by a text. -/
def replaceChar (c : Char) (by_ cs : List Char) : List Char :=
  cs.flatMap fun d => if d = c then by_ else [d]

/-- The `LIKE` pattern of a name pattern. -/
def escapeLike (pattern : String) : String :=
  String.ofList (replaceChar '*' ['%'] (replaceChar '_' ['\\', '_'] (replaceChar '%' ['\\', '%']
    (replaceChar '\\' ['\\', '\\'] pattern.toList))))

example : escapeLike "vault://*_50%" = "vault://%\\_50\\%" := by decide

/-- What a `LIKE` pattern with `ESCAPE '\'` says: the escape stands before `%`, `_` or itself. -/
def likeTokens : List Char → Option (List (Token Char))
  | [] => some []
  | ['\\'] => none
  | '\\' :: c :: cs => if c ∈ ['\\', '%', '_'] then (likeTokens cs).map (.lit c :: ·) else none
  | '%' :: cs => (likeTokens cs).map (.any :: ·)
  | '_' :: cs => (likeTokens cs).map (.one :: ·)
  | c :: cs => (likeTokens cs).map (.lit c :: ·)

/-- Equal up to the case of ASCII letters. -/
def SameLetter (a b : Char) : Prop := a.toLower = b.toLower

instance (a b : Char) : Decidable (SameLetter a b) := inferInstanceAs (Decidable (_ = _))

/-- In a name pattern only `*` is a wildcard. -/
def starToken (c : Char) : Token Char := if c = '*' then .any else .lit c

/-- The handle matches the name pattern. -/
def NameMatches (pattern : String) (handle : Handle) : Prop :=
  Matches SameLetter (pattern.toList.map starToken) handle.display.toList

/-- What a character of a name pattern becomes. -/
def escapeChar (c : Char) : List Char :=
  if c = '*' then ['%'] else if c ∈ ['\\', '%', '_'] then ['\\', c] else [c]

/-- **The replacements do not touch each other's output.** -/
theorem escapeLike_eq (pattern : String) :
    (escapeLike pattern).toList = pattern.toList.flatMap escapeChar := by
  unfold escapeLike replaceChar
  rw [String.toList_ofList, List.flatMap_assoc, List.flatMap_assoc, List.flatMap_assoc]
  refine List.flatMap_congr fun c _ => ?_
  unfold escapeChar
  by_cases hstar : c = '*'
  · subst hstar
    decide
  · by_cases hmeta : c ∈ ['\\', '%', '_']
    · simp only [List.mem_cons, List.not_mem_nil, or_false] at hmeta
      rcases hmeta with rfl | rfl | rfl <;> decide
    · rw [if_neg hstar, if_neg hmeta]
      simp only [List.mem_cons, List.not_mem_nil, or_false, not_or] at hmeta
      obtain ⟨hback, hpercent, hunder⟩ := hmeta
      simp [hback, hpercent, hunder, hstar]

theorem likeTokens_escaped {c : Char} (h : c ∈ ['\\', '%', '_']) (cs : List Char) :
    likeTokens ('\\' :: c :: cs) = (likeTokens cs).map (.lit c :: ·) := by
  rw [likeTokens, if_pos h]

theorem likeTokens_plain {c : Char} (h : c ∉ ['\\', '%', '_']) (cs : List Char) :
    likeTokens (c :: cs) = (likeTokens cs).map (.lit c :: ·) := by
  simp only [List.mem_cons, List.not_mem_nil, or_false, not_or] at h
  obtain ⟨hback, hpercent, hunder⟩ := h
  rw [likeTokens.eq_def]
  split
  · next heq => cases heq
  · next heq => exact absurd (List.cons.inj heq).1 hback
  · next heq => exact absurd (List.cons.inj heq).1 hback
  · next heq => exact absurd (List.cons.inj heq).1 hpercent
  · next heq => exact absurd (List.cons.inj heq).1 hunder
  · next heq =>
    obtain ⟨rfl, rfl⟩ := List.cons.inj heq
    rfl

/-- **SQLite reads the `LIKE` pattern as the name pattern with its stars.** -/
theorem likeTokens_escapeLike (pattern : String) :
    likeTokens (escapeLike pattern).toList = some (pattern.toList.map starToken) := by
  rw [escapeLike_eq]
  induction pattern.toList with
  | nil => rfl
  | cons c cs ih =>
    rw [List.flatMap_cons, List.map_cons]
    by_cases hstar : c = '*'
    · have hescape : escapeChar c = ['%'] := if_pos hstar
      have htoken : starToken c = .any := if_pos hstar
      rw [hescape, htoken, List.singleton_append, likeTokens, ih]
      rfl
    · have htoken : starToken c = .lit c := if_neg hstar
      by_cases hmeta : c ∈ ['\\', '%', '_']
      · have hescape : escapeChar c = ['\\', c] := by rw [escapeChar, if_neg hstar, if_pos hmeta]
        rw [hescape, htoken, List.cons_append, List.singleton_append, likeTokens_escaped hmeta, ih]
        rfl
      · have hescape : escapeChar c = [c] := by rw [escapeChar, if_neg hstar, if_neg hmeta]
        rw [hescape, htoken, List.singleton_append, likeTokens_plain hmeta, ih]
        rfl

/-! ### What of a pattern is read -/

/-- U+0000. -/
def nul : Char := Char.ofNat 0

/-- A text of SQLite as its functions read it: up to the first U+0000. -/
def beforeNul (cs : List Char) : List Char := cs.takeWhile (· ≠ nul)

/-- The part of a name pattern that is read. -/
def readPart (pattern : String) : String := String.ofList (beforeNul pattern.toList)

theorem beforeNul_eq {cs : List Char} (h : nul ∉ cs) : beforeNul cs = cs :=
  List.takeWhile_eq_self_iff.mpr fun _ hc => decide_eq_true fun heq => h (heq ▸ hc)

theorem nul_notMem_escapeChar {c : Char} (h : c ≠ nul) : nul ∉ escapeChar c := by
  unfold escapeChar
  split_ifs
  · decide
  · simp only [List.mem_cons, List.not_mem_nil, or_false, not_or]
    exact ⟨by decide, h.symm⟩
  · simpa using h.symm

/-- What is read of a `LIKE` pattern is the `LIKE` pattern of what is read. -/
theorem beforeNul_escapeLike (pattern : String) :
    beforeNul (escapeLike pattern).toList = (escapeLike (readPart pattern)).toList := by
  rw [escapeLike_eq, escapeLike_eq, readPart, String.toList_ofList]
  induction pattern.toList with
  | nil => rfl
  | cons c cs ih =>
    by_cases hc : c = nul
    · subst hc
      rfl
    · have hread : beforeNul (c :: cs) = c :: beforeNul cs :=
        List.takeWhile_cons_of_pos (by simpa using hc)
      rw [hread, List.flatMap_cons, List.flatMap_cons, ← ih]
      unfold beforeNul
      rw [List.takeWhile_append_of_pos]
      intro d hd
      exact decide_eq_true fun heq => nul_notMem_escapeChar hc (heq ▸ hd)

theorem nul_notMem_display (handle : Handle) : nul ∉ handle.display.toList := by
  have hslug : ∀ {cs : List Char}, (∀ c ∈ cs, isSlugChar c = true) → nul ∉ cs := fun h hm =>
    absurd (h _ hm) (by decide)
  have hlabel : nul ∉ handle.nspace.asStr.toList := by
    have hvalid := handle.nspace.valid
    rw [Bool.or_eq_true] at hvalid
    exact hvalid.elim (fun h => hslug (slugRe_chars h)) fun h => hslug (nsCwdRe_chars h)
  have hcategory : nul ∉ handle.category.asStr.toList := by
    cases handle.category with
    | custom s hv _ => exact hslug (categorySlugRe_chars hv)
    | _ => decide
  have hname : nul ∉ handle.secretName.asStr.toList := hslug (slugRe_chars handle.secretName.valid)
  unfold Handle.display
  simp only [String.toList_append, List.mem_append, not_or]
  exact ⟨⟨⟨⟨⟨by decide, hlabel⟩, by decide⟩, hcategory⟩, by decide⟩, hname⟩

theorem eq_nul_of_toLower {c : Char} (h : c.toLower = nul) : c = nul := by
  have hval : c.toLower.val.toNat = 0 := by rw [h]; rfl
  unfold Char.toLower at hval
  split_ifs at hval with hc
  · exfalso
    have hge := UInt32.le_iff_toNat_le.mp hc.1
    have hle := UInt32.le_iff_toNat_le.mp hc.2
    simp [UInt32.toNat_add] at hval hle hge
    omega
  · exact Char.ext (UInt32.toNat.inj hval)

/-- No handle has the U+0000 that the pattern asks for. -/
theorem not_nameMatches_of_nul {pattern : String} (h : nul ∈ pattern.toList) (handle : Handle) :
    ¬NameMatches pattern handle := by
  intro hmatches
  have hlit : Token.lit nul ∈ pattern.toList.map starToken :=
    List.mem_map.mpr ⟨nul, h, if_neg (by decide)⟩
  obtain ⟨c, hc, hsame⟩ := hmatches.lit_mem hlit
  have hlower : c.toLower = nul := hsame.symm
  exact nul_notMem_display handle (eq_nul_of_toLower hlower ▸ hc)

/-! ### The statement -/

/-- `SQLITE_MAX_LIKE_PATTERN_LENGTH`, in bytes. -/
def likePatternLimit : ℕ := 50000

/-- The functions of SQLite that the statement uses. -/
structure SqlFunctions where
  /-- `text LIKE pattern ESCAPE '\'`. -/
  like : String → String → Except StorageError Bool
  /-- `SELECT rowid FROM secrets_fts WHERE secrets_fts MATCH expression`. -/
  ftsMatch : String → Except StorageError (List SecretId)
  /-- `ORDER BY s.created_at ASC`. -/
  orderByCreatedAt : List ListedRow → List ListedRow

section

variable (K : Crates) (S : SqlFunctions)

/-- How SQLite behaves: `LIKE` refuses a pattern that is too long, and reads another and the text up to
U+0000; and the rows are put in the order of the column, without saying how rows with equal values
stand. -/
structure SqlFunctions.Lawful : Prop where
  like_refuses : ∀ pattern text, likePatternLimit < pattern.utf8ByteSize →
    ∃ e, S.like pattern text = .error e
  like_reads : ∀ pattern tokens text, pattern.utf8ByteSize ≤ likePatternLimit →
    likeTokens (beforeNul pattern.toList) = some tokens → ∃ b, S.like pattern text = .ok b ∧
      (b = true ↔ Matches SameLetter tokens (beforeNul text.toList))
  order_perm : ∀ rows, (S.orderByCreatedAt rows).Perm rows
  order_sorted : ∀ rows, (S.orderByCreatedAt rows).Pairwise fun a b =>
    ¬textBytes (K.toRfc3339 b.createdAt) < textBytes (K.toRfc3339 a.createdAt)

/-- A condition of the `WHERE` clause, with the number of its parameter. -/
inductive Condition
  | namespaceIs (param : ℕ)
  | inFts (param : ℕ)
  | handleLike (param : ℕ)
  | expiresBefore (param : ℕ)

/-- The conditions, joined by `AND`, and the next free number. -/
def SecretFilter.conditions (filter : SecretFilter) : List Condition :=
  let acc : List Condition × ℕ := ([.namespaceIs 1], 2)
  let acc := if filter.ftsQuery.isSome then (acc.1 ++ [.inFts acc.2], acc.2 + 1) else acc
  let acc := if filter.namePattern.isSome then (acc.1 ++ [.handleLike acc.2], acc.2 + 1) else acc
  let acc := if filter.expiresBefore.isSome then (acc.1 ++ [.expiresBefore acc.2], acc.2 + 1) else acc
  acc.1

/-- The bound values, in the order of the binds. -/
def SecretFilter.binds (namespaceId : NamespaceId) (filter : SecretFilter) : List SqlValue :=
  .blob namespaceId.inner.toList ::
    [filter.ftsQuery.map fun fts => SqlValue.text (sanitizeFts5Query fts),
      filter.namePattern.map fun pattern => SqlValue.text (escapeLike pattern),
      filter.expiresBefore.map fun exp => SqlValue.text (K.toRfc3339 exp)].reduceOption

/-- A comparison with `NULL` does not hold: a secret without expiry, or a parameter that is not bound. -/
def Condition.holds (params : List SqlValue) (row : ListedRow) : Condition → Except StorageError Bool
  | namespaceIs param => .ok (params[param - 1]?.any fun
    | .blob bytes => row.namespaceId.inner.toList = bytes
    | _ => false)
  | inFts param => .ok (params[param - 1]?.any fun
    | .text expression => (S.ftsMatch expression).toOption.any fun ids => row.id ∈ ids
    | _ => false)
  | handleLike param => match params[param - 1]? with
    | some (.text pattern) => S.like pattern row.handle.display
    | _ => .ok false
  | expiresBefore param => .ok (params[param - 1]?.any fun
    | .text bound => row.expiresAt.any fun exp => textBytes (K.toRfc3339 exp) < textBytes bound
    | _ => false)

/-- The rows of which a test holds.  A test that fails fails the statement. -/
def selectRows (test : ListedRow → Except StorageError Bool) :
    List ListedRow → Except StorageError (List ListedRow)
  | [] => return []
  | row :: rows => do
    if ← test row then return row :: (← selectRows test rows) else selectRows test rows

/-- The rows of the statement; each condition is tested where those before it hold.  An expression that
FTS5 refuses fails it. -/
def selectSecrets (rows : List ListedRow) (namespaceId : NamespaceId) (filter : SecretFilter) :
    Except StorageError (List ListedRow) :=
  let limit := if filter.tagMatch.isNone then filter.limit else none
  let selected := selectRows (fun row =>
    filter.conditions.allM (Condition.holds K S (filter.binds K namespaceId) row)) rows
  match filter.ftsQuery.map fun fts => S.ftsMatch (sanitizeFts5Query fts) with
  | some (.error e) => .error e
  | _ => do return limited limit (S.orderByCreatedAt (← selected))

/-- `list_secrets`. -/
def listSecrets (st : Store) (rows : List ListedRow) (namespaceId : NamespaceId) (filter : SecretFilter) :
    Except StorageError (List Secret) := do
  let rows ← selectSecrets K S rows namespaceId filter
  let secrets := (rows.filter fun row => filter.tagMatch.all fun required =>
    required.all fun tag => tag ∈ row.tags).map fun row => loaded st row.toSecretRow
  if filter.tagMatch.isSome then return limited filter.limit secrets else return secrets

end

/-! ### What is listed -/

section

variable {K : Crates} {S : SqlFunctions}

/-- The text of a time comes before that of another. -/
def TextBefore (K : Crates) (a b : Rfc3339Timestamp) : Prop :=
  textBytes (K.toRfc3339 a) < textBytes (K.toRfc3339 b)

/-- The row satisfies every filter that is set. -/
structure Satisfies (K : Crates) (S : SqlFunctions) (namespaceId : NamespaceId) (filter : SecretFilter)
    (row : ListedRow) : Prop where
  nspace : row.namespaceId = namespaceId
  fts : ∀ fts, filter.ftsQuery = some fts → ∃ ids, S.ftsMatch (sanitizeFts5Query fts) = .ok ids ∧
    row.id ∈ ids
  name : ∀ pattern, filter.namePattern = some pattern → NameMatches pattern row.handle
  expiry : ∀ bound, filter.expiresBefore = some bound → ∃ exp, row.expiresAt = some exp ∧
    TextBefore K exp bound
  tags : ∀ required, filter.tagMatch = some required → ∀ tag ∈ required, tag ∈ row.tags

/-- The search expression, if there is one, is none that FTS5 refuses. -/
def FtsAccepts (S : SqlFunctions) (filter : SecretFilter) : Prop :=
  ∀ fts, filter.ftsQuery = some fts → ∃ ids, S.ftsMatch (sanitizeFts5Query fts) = .ok ids

/-- `LIKE` tests the handle against the name pattern as it should. -/
def LikeExact (S : SqlFunctions) (pattern : String) (handle : Handle) : Prop :=
  ∃ b, S.like (escapeLike pattern) handle.display = .ok b ∧ (b = true ↔ NameMatches pattern handle)

/-- What is read of the name pattern says of the handle what all of it says. -/
def ReadAs (pattern : String) (handle : Handle) : Prop :=
  (escapeLike pattern).utf8ByteSize ≤ likePatternLimit ∧
    (nul ∈ pattern.toList → ¬NameMatches (readPart pattern) handle)

/-- **What `LIKE` says of a handle**: whether it matches what is read of the pattern. -/
theorem like_readPart (hS : S.Lawful K) {pattern : String} (handle : Handle)
    (hsize : (escapeLike pattern).utf8ByteSize ≤ likePatternLimit) :
    ∃ b, S.like (escapeLike pattern) handle.display = .ok b ∧
      (b = true ↔ NameMatches (readPart pattern) handle) := by
  have htokens : likeTokens (beforeNul (escapeLike pattern).toList) =
      some ((readPart pattern).toList.map starToken) := by
    rw [beforeNul_escapeLike]
    exact likeTokens_escapeLike _
  obtain ⟨b, hlike, hb⟩ := hS.like_reads _ _ handle.display hsize htokens
  rw [beforeNul_eq (nul_notMem_display handle)] at hb
  exact ⟨b, hlike, hb⟩

/-- **The patterns with which `LIKE` tests a handle as it should.** -/
theorem likeExact_iff (hS : S.Lawful K) (pattern : String) (handle : Handle) :
    LikeExact S pattern handle ↔ ReadAs pattern handle := by
  by_cases hsize : (escapeLike pattern).utf8ByteSize ≤ likePatternLimit
  · obtain ⟨b, hlike, hb⟩ := like_readPart hS handle hsize
    have hexact : LikeExact S pattern handle ↔ (b = true ↔ NameMatches pattern handle) := by
      constructor
      · rintro ⟨b', hlike', hb'⟩
        obtain rfl := Except.ok.inj (hlike.symm.trans hlike')
        exact hb'
      · exact fun h => ⟨b, hlike, h⟩
    rw [hexact, hb]
    by_cases hnul : nul ∈ pattern.toList
    · have hfalse : ¬NameMatches pattern handle := not_nameMatches_of_nul hnul handle
      exact ⟨fun h => ⟨hsize, fun _ hread => hfalse (h.mp hread)⟩,
        fun h => ⟨fun hread => absurd hread (h.2 hnul), fun hmatches => absurd hmatches hfalse⟩⟩
    · have hread : readPart pattern = pattern := by
        rw [readPart, beforeNul_eq hnul, String.ofList_toList]
      rw [hread]
      exact ⟨fun _ => ⟨hsize, fun h => absurd h hnul⟩, fun _ => Iff.rfl⟩
  · obtain ⟨e, he⟩ := hS.like_refuses _ handle.display (Nat.lt_of_not_le hsize)
    constructor
    · rintro ⟨b, hlike, -⟩
      rw [he] at hlike
      cases hlike
    · exact fun h => absurd h.1 hsize

theorem allM_ok {α : Type} {test : α → Except StorageError Bool} {f : α → Bool} : ∀ {l : List α},
    (∀ a ∈ l, test a = .ok (f a)) → l.allM test = .ok (l.all f)
  | [], _ => rfl
  | a :: l, h => by
    rw [List.allM, h a List.mem_cons_self, List.all_cons]
    cases hf : f a with
    | false => rfl
    | true => exact allM_ok fun b hb => h b (List.mem_cons_of_mem _ hb)

theorem selectRows_ok {test : ListedRow → Except StorageError Bool} {f : ListedRow → Bool} :
    ∀ {rows : List ListedRow}, (∀ row ∈ rows, test row = .ok (f row)) →
      selectRows test rows = .ok (rows.filter f)
  | [], _ => rfl
  | row :: rows, h => by
    have ih := selectRows_ok fun r hr => h r (List.mem_cons_of_mem _ hr)
    rw [selectRows, h row List.mem_cons_self, List.filter_cons, ih]
    cases f row <;> rfl

/-- The answer of `LIKE`, when it has one. -/
def likes (S : SqlFunctions) (pattern : String) (handle : Handle) : Bool :=
  (S.like (escapeLike pattern) handle.display).toOption.getD false

/-- The row passes the statement. -/
def passes (K : Crates) (S : SqlFunctions) (namespaceId : NamespaceId) (filter : SecretFilter)
    (row : ListedRow) : Bool :=
  decide (row.namespaceId.inner.toList = namespaceId.inner.toList) &&
    (filter.ftsQuery.all fun fts =>
      (S.ftsMatch (sanitizeFts5Query fts)).toOption.any fun ids => row.id ∈ ids) &&
    (filter.namePattern.all fun pattern => likes S pattern row.handle) &&
    filter.expiresBefore.all fun bound => row.expiresAt.any fun exp =>
      textBytes (K.toRfc3339 exp) < textBytes (K.toRfc3339 bound)

/-- `LIKE` has an answer for every row. -/
def Answered (S : SqlFunctions) (filter : SecretFilter) (rows : List ListedRow) : Prop :=
  ∀ pattern, filter.namePattern = some pattern → ∀ row ∈ rows,
    S.like (escapeLike pattern) row.handle.display = .ok (likes S pattern row.handle)

/-- Names are tested as they should be. -/
def NamesExact (S : SqlFunctions) (filter : SecretFilter) (rows : List ListedRow) : Prop :=
  ∀ pattern, filter.namePattern = some pattern → ∀ row ∈ rows, LikeExact S pattern row.handle

theorem NamesExact.answered {filter : SecretFilter} {rows : List ListedRow}
    (h : NamesExact S filter rows) : Answered S filter rows := by
  intro pattern hset row hrow
  obtain ⟨b, hb, -⟩ := h pattern hset row hrow
  rw [likes, hb]
  rfl

/-- **The numbered conditions test each bound value on its own column.** -/
theorem conditions_hold (namespaceId : NamespaceId) {filter : SecretFilter} {row : ListedRow}
    (hlike : ∀ pattern, filter.namePattern = some pattern →
      S.like (escapeLike pattern) row.handle.display = .ok (likes S pattern row.handle)) :
    filter.conditions.allM (Condition.holds K S (filter.binds K namespaceId) row) =
      .ok (passes K S namespaceId filter row) := by
  have hall := @allM_ok Condition (Condition.holds K S (filter.binds K namespaceId) row)
    (fun c => (c.holds K S (filter.binds K namespaceId) row).toOption.getD false) filter.conditions
  obtain ⟨tagMatch, namePattern, expiresBefore, ftsQuery, limit⟩ := filter
  rw [hall]
  · cases ftsQuery <;> cases namePattern <;> cases expiresBefore <;>
      simp [SecretFilter.conditions, SecretFilter.binds, Condition.holds, List.reduceOption, passes, likes,
        Except.toOption, Bool.and_assoc]
  · cases ftsQuery <;> cases namePattern <;> cases expiresBefore <;>
      simp [SecretFilter.conditions, SecretFilter.binds, Condition.holds, List.reduceOption,
        Except.toOption, hlike]

/-- The row passes the statement and the loop. -/
theorem selected_iff (namespaceId : NamespaceId) {filter : SecretFilter} {row : ListedRow}
    (hname : ∀ pattern, filter.namePattern = some pattern → LikeExact S pattern row.handle) :
    (passes K S namespaceId filter row &&
        filter.tagMatch.all fun required => required.all fun tag => tag ∈ row.tags) = true ↔
      Satisfies K S namespaceId filter row := by
  have hlikes : ∀ pattern, filter.namePattern = some pattern →
      (likes S pattern row.handle = true ↔ NameMatches pattern row.handle) := by
    intro pattern hset
    obtain ⟨b, hb, hexact⟩ := hname pattern hset
    rw [likes, hb]
    exact hexact
  unfold passes
  simp only [Bool.and_eq_true, decide_eq_true_eq, Option.all_eq_true, List.all_eq_true,
    Option.any_eq_true]
  have hnamespace : row.namespaceId.inner.toList = namespaceId.inner.toList ↔
      row.namespaceId = namespaceId := blob_injective.eq_iff
  rw [hnamespace]
  constructor
  · rintro ⟨⟨⟨⟨hns, hfts⟩, hlike⟩, hexp⟩, htags⟩
    refine ⟨hns, fun fts hset => ?_, fun p hset => (hlikes p hset).mp (hlike p hset), hexp, htags⟩
    obtain ⟨ids, hids, hmem⟩ := hfts fts hset
    cases hmatch : S.ftsMatch (sanitizeFts5Query fts) with
    | error e =>
      rw [hmatch] at hids
      cases hids
    | ok ids' =>
      rw [hmatch] at hids
      obtain rfl := Option.some.inj hids
      exact ⟨ids', rfl, hmem⟩
  · rintro ⟨hns, hfts, hlike, hexp, htags⟩
    refine ⟨⟨⟨⟨hns, fun fts hset => ?_⟩, fun p hset => (hlikes p hset).mpr (hlike p hset)⟩, hexp⟩, htags⟩
    obtain ⟨ids, hids, hmem⟩ := hfts fts hset
    exact ⟨ids, by rw [hids]; rfl, hmem⟩

theorem limited_map {α β : Type} (limit : Option UInt32) (f : α → β) (l : List α) :
    limited limit (l.map f) = (limited limit l).map f := by
  cases limit with
  | none => rfl
  | some n => exact List.map_take.symm

/-- The rows in the order of their creation that pass the statement and the loop. -/
def page (K : Crates) (S : SqlFunctions) (rows : List ListedRow) (namespaceId : NamespaceId)
    (filter : SecretFilter) : List ListedRow :=
  (S.orderByCreatedAt (rows.filter (passes K S namespaceId filter))).filter fun row =>
    filter.tagMatch.all fun required => required.all fun tag => tag ∈ row.tags

/-- **Both places of the limit** cut the same page. -/
theorem listSecrets_eq (st : Store) {rows : List ListedRow} (namespaceId : NamespaceId)
    {filter : SecretFilter} (hfts : FtsAccepts S filter) (hanswered : Answered S filter rows) :
    listSecrets K S st rows namespaceId filter =
      .ok ((limited filter.limit (page K S rows namespaceId filter)).map fun row =>
        loaded st row.toSecretRow) := by
  have hselect : ∀ selected : Except StorageError (List ListedRow),
      (match filter.ftsQuery.map fun fts => S.ftsMatch (sanitizeFts5Query fts) with
        | some (.error e) => .error e
        | _ => selected : Except StorageError (List ListedRow)) = selected := by
    intro selected
    cases hquery : filter.ftsQuery with
    | none => rfl
    | some fts =>
      obtain ⟨ids, hids⟩ := hfts fts hquery
      rw [Option.map_some, hids]
  have hrows : selectRows (fun row =>
      filter.conditions.allM (Condition.holds K S (filter.binds K namespaceId) row)) rows =
        .ok (rows.filter (passes K S namespaceId filter)) :=
    selectRows_ok fun row hrow => conditions_hold namespaceId fun p hset => hanswered p hset row hrow
  unfold listSecrets selectSecrets
  rw [hselect, hrows]
  unfold page
  cases htags : filter.tagMatch with
  | none =>
    have hall : ∀ l : List ListedRow, (l.filter fun row =>
        (none : Option (List Tag)).all fun required => required.all fun tag => tag ∈ row.tags) = l :=
      fun l => List.filter_eq_self.mpr fun _ _ => rfl
    simp only [Option.isNone_none, if_true, Option.isSome_none, Bool.false_eq_true, if_false, hall]
    rfl
  | some required =>
    simp only [Option.isNone_some, Bool.false_eq_true, if_false, Option.isSome_some, if_true,
      limited_map]
    rfl

open scoped Classical in
/-- The page holds the rows that satisfy the filters, in the order of their creation. -/
theorem page_exact (hS : S.Lawful K) {rows : List ListedRow} (namespaceId : NamespaceId)
    {filter : SecretFilter} (hnames : NamesExact S filter rows) :
    (page K S rows namespaceId filter).Perm (rows.filter fun row =>
      decide (Satisfies K S namespaceId filter row)) ∧
    (page K S rows namespaceId filter).Pairwise fun a b => ¬TextBefore K b.createdAt a.createdAt := by
  constructor
  · refine ((hS.order_perm _).filter _).trans (List.Perm.of_eq ?_)
    rw [List.filter_filter]
    refine List.filter_congr fun row hrow => ?_
    rw [Bool.and_comm, Bool.eq_iff_iff, selected_iff namespaceId fun p hset => hnames p hset row hrow,
      decide_eq_true_iff]
  · exact (hS.order_sorted _).filter _

/-- **An empty list of tags** moves the limit out of the statement and changes nothing. -/
theorem listSecrets_noTags (st : Store) (rows : List ListedRow) (namespaceId : NamespaceId)
    {filter : SecretFilter} (htags : filter.tagMatch = none) :
    listSecrets K S st rows namespaceId { filter with tagMatch := some [] } =
      listSecrets K S st rows namespaceId filter := by
  have hall : ∀ l : List ListedRow, (l.filter fun row =>
      (none : Option (List Tag)).all fun required => required.all fun tag => tag ∈ row.tags) = l :=
    fun l => List.filter_eq_self.mpr fun _ _ => rfl
  have hempty : ∀ l : List ListedRow, (l.filter fun row =>
      (some ([] : List Tag)).all fun required => required.all fun tag => tag ∈ row.tags) = l :=
    fun l => List.filter_eq_self.mpr fun _ _ => rfl
  have hconditions : SecretFilter.conditions { filter with tagMatch := some [] } = filter.conditions := rfl
  have hbinds : SecretFilter.binds K namespaceId { filter with tagMatch := some [] } =
      filter.binds K namespaceId := rfl
  unfold listSecrets selectSecrets
  simp only [htags, Option.isNone_none, Option.isNone_some, Option.isSome_none, Option.isSome_some,
    if_true, if_false, Bool.false_eq_true, hall, hempty, hconditions, hbinds, limited_map]
  split
  · rfl
  · cases selectRows (fun row =>
      filter.conditions.allM (Condition.holds K S (filter.binds K namespaceId) row)) rows <;> rfl

open scoped Classical in
/-- Names are tested as they should be, and the secrets that are listed are the first of those that
satisfy the filters, in the order of their creation. -/
def ListsExactly (K : Crates) (S : SqlFunctions) (st : Store) (rows : List ListedRow)
    (namespaceId : NamespaceId) (filter : SecretFilter) : Prop :=
  NamesExact S filter rows ∧ ∃ page : List ListedRow,
    page.Perm (rows.filter fun row => decide (Satisfies K S namespaceId filter row)) ∧
    (page.Pairwise fun a b => ¬TextBefore K b.createdAt a.createdAt) ∧
    listSecrets K S st rows namespaceId filter =
      .ok ((limited filter.limit page).map fun row => loaded st row.toSecretRow)

/-- What is read of the name pattern says of every stored handle what all of it says. -/
def PatternRead (filter : SecretFilter) (rows : List ListedRow) : Prop :=
  ∀ pattern, filter.namePattern = some pattern → ∀ row ∈ rows, ReadAs pattern row.handle

/-- **The name patterns with which listing is exact.**  `LIKE` tests a handle as it should exactly if
the pattern is not too long, and what stands before a U+0000 in it does not match the handle; that for
every stored handle is when the secrets that are listed are those that they should be; an empty list of
tags, which moves the limit out of the statement, never changes anything; and in the years of four
digits texts come before each other as the times do, to the microsecond. -/
theorem listing_exact_iff (hS : S.Lawful K) (hK : Renders K) :
    (∀ pattern handle, LikeExact S pattern handle ↔ ReadAs pattern handle) ∧
    (∀ st rows namespaceId filter, FtsAccepts S filter →
      (ListsExactly K S st rows namespaceId filter ↔ PatternRead filter rows)) ∧
    (∀ st rows namespaceId filter, filter.tagMatch = none →
      listSecrets K S st rows namespaceId { filter with tagMatch := some [] } =
        listSecrets K S st rows namespaceId filter) ∧
    (∀ a b, FourDigitYear a → FourDigitYear b → (TextBefore K a b ↔ MicrosLt a b)) := by
  refine ⟨likeExact_iff hS, ?_, fun st rows namespaceId filter htags =>
    listSecrets_noTags st rows namespaceId htags, fun a b ha hb => text_lt_iff hK ha hb⟩
  intro st rows namespaceId filter hfts
  constructor
  · rintro ⟨hnames, -⟩ pattern hset row hrow
    exact (likeExact_iff hS pattern row.handle).mp (hnames pattern hset row hrow)
  · intro hread
    have hnames : NamesExact S filter rows := fun pattern hset row hrow =>
      (likeExact_iff hS pattern row.handle).mpr (hread pattern hset row hrow)
    obtain ⟨hperm, hsorted⟩ := page_exact hS namespaceId hnames
    exact ⟨hnames, page K S rows namespaceId filter, hperm, hsorted,
      listSecrets_eq st namespaceId hfts hnames.answered⟩

end

/-! ### Functions that behave as documented -/

open scoped Classical in
/-- The text matches the `LIKE` pattern, both up to U+0000. -/
noncomputable def readLike (pattern text : String) : Bool :=
  (likeTokens (beforeNul pattern.toList)).any fun tokens =>
    decide (Matches SameLetter tokens (beforeNul text.toList))

/-- `LIKE` as its pattern is read, an index without entries, and a stable sort. -/
noncomputable def documentedFunctions (K : Crates) : SqlFunctions where
  like pattern text :=
    if likePatternLimit < pattern.utf8ByteSize then .error (.backend "LIKE or GLOB pattern too complex")
    else .ok (readLike pattern text)
  ftsMatch _ := .ok []
  orderByCreatedAt rows := rows.mergeSort fun a b =>
    !decide (textBytes (K.toRfc3339 b.createdAt) < textBytes (K.toRfc3339 a.createdAt))

open scoped Classical in
theorem documentedFunctions_lawful (K : Crates) : (documentedFunctions K).Lawful K where
  like_refuses := fun pattern text h => ⟨_, if_pos h⟩
  like_reads := by
    intro pattern tokens text hsize htokens
    refine ⟨_, if_neg (Nat.not_lt.mpr hsize), ?_⟩
    rw [readLike, htokens, Option.any_some]
    exact decide_eq_true_iff
  order_perm := fun rows => List.mergeSort_perm rows _
  order_sorted := by
    intro rows
    have hsorted := @List.pairwise_mergeSort ListedRow (fun a b =>
      !decide (textBytes (K.toRfc3339 b.createdAt) < textBytes (K.toRfc3339 a.createdAt))) ?_ ?_ rows
    · refine hsorted.imp fun h => ?_
      simpa using h
    · intro a b c hab hbc
      simp only [Bool.not_eq_true', decide_eq_false_iff_not] at hab hbc ⊢
      exact List.le_trans hab hbc
    · intro a b
      simp only [Bool.or_eq_true, Bool.not_eq_true', decide_eq_false_iff_not]
      exact List.le_total _ _

/-- A pattern that ends in its only star. -/
theorem nameMatches_star {front : List Char} (h : '*' ∉ front) (handle : Handle) :
    NameMatches (String.ofList (front ++ ['*'])) handle ↔
      List.Forall₂ SameLetter front (handle.display.toList.take front.length) := by
  have htokens : (String.ofList (front ++ ['*'])).toList.map starToken = front.map .lit ++ [.any] := by
    rw [String.toList_ofList, List.map_append]
    congr 1
    exact List.map_congr_left fun c hc => if_neg fun heq : c = '*' => h (heq ▸ hc)
  unfold NameMatches
  rw [htokens, matches_snoc]
  constructor
  · rintro ⟨taken, rest, heq, htaken, -⟩
    have hlits := matches_lits.mp htaken
    rwa [heq, List.take_left' hlits.length_eq.symm]
  · intro hlits
    exact ⟨_, _, (List.take_append_drop front.length _).symm, matches_lits.mpr hlits, trivial⟩

/-- A secret of the namespace `prod` that was created at the second. -/
def prodRow (name : SecretName) (category : CategoryName) (tags : List Tag)
    (second : Int) : ListedRow where
  id := ⟨Vector.replicate 16 1⟩
  namespaceId := ⟨Vector.replicate 16 2⟩
  handle := ⟨sampleLabel, category, name⟩
  category := category
  sensitivity := .low
  tags := tags
  publicMetadata := ⟨none, false⟩
  createdAt := .ofSeconds second
  currentVersionId := ⟨Vector.replicate 16 3⟩
  expiresAt := none

/-- The tag `env=live`. -/
def liveTag : Tag := ⟨.env, "live"⟩

/-- The tag `team=backend`. -/
def backendTag : Tag := ⟨.team, "backend"⟩

/-- The two databases with both tags, the younger one first. -/
def youngerRow : ListedRow := prodRow sampleSecretName .database [backendTag, liveTag] 60

/-- An older row with both tags. -/
def olderRow : ListedRow := prodRow ⟨"maria", by decide⟩ .database [liveTag, backendTag] 30

/-- A database without the tag, and a key with both. -/
def untaggedRow : ListedRow := prodRow ⟨"redis", by decide⟩ .database [backendTag] 10

/-- A row of another category. -/
def keyRow : ListedRow := prodRow sampleSecretName .sshKey [liveTag, backendTag] 20

/-- Rows of which two have both tags and are databases. -/
def sampleRows : List ListedRow := [youngerRow, untaggedRow, keyRow, olderRow]

/-- The first database with two tags. -/
def liveDatabase : SecretFilter :=
  ⟨some [liveTag, backendTag], some (String.ofList ("vault://prod/database/".toList ++ ['*'])), none, none,
    some 1⟩

theorem databaseMatches (handle : Handle) :
    NameMatches (String.ofList ("vault://prod/database/".toList ++ ['*'])) handle ↔
      List.Forall₂ SameLetter "vault://prod/database/".toList
        (handle.display.toList.take "vault://prod/database/".toList.length) :=
  nameMatches_star (by decide) handle

theorem satisfies_liveDatabase (S : SqlFunctions) (row : ListedRow)
    (hns : row.namespaceId = youngerRow.namespaceId) :
    Satisfies printingCrates S youngerRow.namespaceId liveDatabase row ↔
      List.Forall₂ SameLetter "vault://prod/database/".toList
        (row.handle.display.toList.take "vault://prod/database/".toList.length) ∧
      liveTag ∈ row.tags ∧ backendTag ∈ row.tags := by
  constructor
  · intro h
    have htags := h.tags _ rfl
    exact ⟨(databaseMatches _).mp (h.name _ rfl), htags _ (by decide), htags _ (by decide)⟩
  · rintro ⟨hname, hlive, hbackend⟩
    refine ⟨hns, nofun, fun _ h => ?_, nofun, fun _ h => ?_⟩
    · obtain rfl := Option.some.inj h
      exact (databaseMatches _).mpr hname
    · obtain rfl := Option.some.inj h
      intro tag htag
      rcases List.mem_pair.mp htag with rfl | rfl
      · exact hlive
      · exact hbackend

theorem databaseRead (handle : Handle) :
    ReadAs (String.ofList ("vault://prod/database/".toList ++ ['*'])) handle :=
  ⟨by decide, fun h => absurd h (by decide)⟩

open scoped Classical in
/-- **The older of the databases with both tags** is listed: the secrets before it in the order of
creation miss a tag or are no database, and the limit leaves out the younger one. -/
theorem liveDatabase_listed :
    listSecrets printingCrates (documentedFunctions printingCrates) .empty sampleRows
        youngerRow.namespaceId liveDatabase = .ok [loaded .empty olderRow.toSecretRow] ∧
      listSecrets printingCrates (documentedFunctions printingCrates) .empty sampleRows
          youngerRow.namespaceId { liveDatabase with tagMatch := some [] } =
        listSecrets printingCrates (documentedFunctions printingCrates) .empty sampleRows
          youngerRow.namespaceId { liveDatabase with tagMatch := none } := by
  obtain ⟨-, hexact, hsame, htimes⟩ :=
    listing_exact_iff (documentedFunctions_lawful printingCrates) printing_renders
  refine ⟨?_, hsame .empty sampleRows youngerRow.namespaceId { liveDatabase with tagMatch := none } rfl⟩
  have hread : PatternRead liveDatabase sampleRows := fun pattern hset row _ => by
    obtain rfl := Option.some.inj hset
    exact databaseRead row.handle
  obtain ⟨-, page, hperm, hsorted, hlist⟩ :=
    (hexact .empty sampleRows youngerRow.namespaceId liveDatabase nofun).mpr hread
  have hrows : (sampleRows.filter fun row => decide (Satisfies printingCrates
      (documentedFunctions printingCrates) youngerRow.namespaceId liveDatabase row)) =
        [youngerRow, olderRow] := by
    have hyounger := (satisfies_liveDatabase (documentedFunctions printingCrates) youngerRow rfl).mpr
      ⟨by decide, by decide, by decide⟩
    have holder := (satisfies_liveDatabase (documentedFunctions printingCrates) olderRow rfl).mpr
      ⟨by decide, by decide, by decide⟩
    have huntagged : ¬Satisfies printingCrates (documentedFunctions printingCrates)
        youngerRow.namespaceId liveDatabase untaggedRow := fun h =>
      absurd ((satisfies_liveDatabase (documentedFunctions printingCrates) untaggedRow rfl).mp h).2.1
        (by decide)
    have hkey : ¬Satisfies printingCrates (documentedFunctions printingCrates)
        youngerRow.namespaceId liveDatabase keyRow := fun h =>
      absurd ((satisfies_liveDatabase (documentedFunctions printingCrates) keyRow rfl).mp h).1 (by decide)
    simp [sampleRows, hyounger, holder, huntagged, hkey]
  have hbefore : TextBefore printingCrates olderRow.createdAt youngerRow.createdAt :=
    (htimes _ _ (by decide) (by decide)).mpr (by decide)
  rw [hrows] at hperm
  rcases List.perm_pair.mp hperm with rfl | rfl
  · exact absurd hbefore (List.rel_of_pairwise_cons hsorted List.mem_cons_self)
  · exact hlist

/-! ### A pattern with U+0000 -/

/-- `vault://prod/*`, and U+0000. -/
def nulPattern : String := String.ofList ("vault://prod/*".toList ++ [nul])

/-- A filter by a pattern with a zero character. -/
def underNul : SecretFilter := ⟨none, some nulPattern, none, none, none⟩

/-- **The end of a pattern is not read.**  `LIKE` reads `vault://prod/*` of it, and every secret of the
namespace is listed; none has a U+0000 in its handle. -/
theorem nul_pattern_lists :
    listSecrets printingCrates (documentedFunctions printingCrates) .empty [keyRow] keyRow.namespaceId
        underNul = .ok [loaded .empty keyRow.toSecretRow] ∧
      ¬NameMatches nulPattern keyRow.handle := by
  have hlike : (documentedFunctions printingCrates).like (escapeLike nulPattern) keyRow.handle.display =
      .ok true := by
    obtain ⟨b, hlike, hb⟩ := like_readPart (documentedFunctions_lawful printingCrates) keyRow.handle
      (show (escapeLike nulPattern).utf8ByteSize ≤ likePatternLimit by decide)
    have hmatches : NameMatches (readPart nulPattern) keyRow.handle :=
      (@nameMatches_star "vault://prod/".toList (by decide) keyRow.handle).mpr (by decide)
    rw [hlike, hb.mpr hmatches]
  have hlikes : likes (documentedFunctions printingCrates) nulPattern keyRow.handle = true := by
    rw [likes, hlike]
    rfl
  have hanswered : Answered (documentedFunctions printingCrates) underNul
      [keyRow] := by
    intro pattern hset row hrow
    obtain rfl := Option.some.inj hset
    obtain rfl := List.mem_singleton.mp hrow
    rw [hlike, hlikes]
  have hpasses : passes printingCrates (documentedFunctions printingCrates) keyRow.namespaceId
      underNul keyRow = true := by
    simp [passes, underNul, hlikes]
  refine ⟨?_, not_nameMatches_of_nul (by decide) _⟩
  have hfts : FtsAccepts (documentedFunctions printingCrates) underNul := nofun
  have horder : (documentedFunctions printingCrates).orderByCreatedAt [keyRow] = [keyRow] :=
    List.mergeSort_singleton keyRow
  rw [listSecrets_eq .empty keyRow.namespaceId hfts hanswered, page, List.filter_singleton, hpasses,
    cond_true, horder]
  rfl

end MerkleVault.Sqlite.SecretList
