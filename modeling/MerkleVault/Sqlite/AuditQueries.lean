import MerkleVault.Sqlite.TimestampText

/-! # Audit Queries

`read_audit` builds a `WHERE` clause from the filters that are set, with numbered parameters, and
binds their values in the same order; times are compared as texts.  The query model of the domain
filters the entries of a log by typed values.

* `conditions_hold`: the numbered conditions test each bound value on its own column;
* `readAudit_eq`: the entries that `read_audit` returns;
* `readAudit_agrees_iff`: when they are those of the query model;
* `query_below_bound`: a lower bound finer than the column. -/

namespace MerkleVault.Sqlite.AuditQueries

open MerkleVault.Types MerkleVault.External MerkleVault.Audit.Entry MerkleVault.Audit.Writer
open MerkleVault.Audit.Integrity MerkleVault.Lib.Ascii MerkleVault.Sqlite.Tables
open MerkleVault.Sqlite.AuditRows
open MerkleVault.Sqlite.TimestampText

/-- The query of the domain. -/
structure AuditQuery where
  op : Option AuditOp
  outcome : Option AuditOutcome
  namespaceId : Option NamespaceId
  handle : Option Handle
  sensitivity : Option Sensitivity
  from_ : Option Rfc3339Timestamp
  to_ : Option Rfc3339Timestamp
  limit : Option UInt32

/-- The first `limit` of a list. -/
def limited {α : Type} (limit : Option UInt32) (l : List α) : List α :=
  match limit with
  | some n => l.take n.toNat
  | none => l

/-! ### The query model -/

/-- `AuditQueryModel::matches`. -/
def AuditQuery.accepts (q : AuditQuery) (entry : AuditEntry) : Bool :=
  q.op.all (fun op => entry.op = op) && q.outcome.all (fun outcome => entry.outcome = outcome) &&
    q.namespaceId.all (fun ns => entry.namespaceId = ns) &&
    q.handle.all (fun handle => entry.handle = some handle) &&
    q.sensitivity.all (fun sensitivity => entry.sensitivity = some sensitivity) &&
    q.from_.all (fun from_ => !entry.ts.lt from_) && q.to_.all (fun to_ => !to_.lt entry.ts)

/-- `AuditQueryModel::execute`. -/
def execute (log : AuditLog) (q : AuditQuery) : List AuditEntry :=
  limited q.limit (log.entries.filter q.accepts)

/-! ### The statement -/

/-- The columns that a query compares. -/
inductive Column
  | op | outcome | namespaceId | handle | sensitivity | ts
deriving DecidableEq

/-- The comparisons of a query. -/
inductive Comparison
  | eq | ge | le
deriving DecidableEq

/-- `{column} {comparison} ?{param}`. -/
structure Condition where
  column : Column
  comparison : Comparison
  param : ℕ

/-- The values of a statement's parameters. -/
inductive SqlValue
  | null
  | text (s : String)
  | blob (bytes : List UInt8)

/-- A text, or null. -/
def SqlValue.ofText : Option String → SqlValue
  | some s => .text s
  | none => .null

/-- The value of a column. -/
def EntryRow.value (row : EntryRow) : Column → SqlValue
  | .op => .text row.op
  | .outcome => .text row.outcome
  | .namespaceId => .blob row.namespaceId
  | .handle => .ofText row.handle
  | .sensitivity => .ofText row.sensitivity
  | .ts => .text row.ts

/-- The bytes of a text that SQLite compares. -/
def textBytes (s : String) : List UInt8 := s.toUTF8.data.toList

/-- A comparison with `NULL` does not hold; texts are compared byte by byte. -/
def Comparison.holds : Comparison → SqlValue → SqlValue → Bool
  | .eq, .text a, .text b => a = b
  | .eq, .blob a, .blob b => a = b
  | .ge, .text a, .text b => !decide (textBytes a < textBytes b)
  | .le, .text a, .text b => !decide (textBytes b < textBytes a)
  | _, _, _ => false

/-- The condition holds of a row, under the bound parameters. -/
def Condition.holds (params : List SqlValue) (row : EntryRow) (c : Condition) : Bool :=
  match params[c.param - 1]? with
  | some v => c.comparison.holds (EntryRow.value row c.column) v
  | none => false

/-- One `if query.….is_some()`: a condition with the next parameter. -/
def addCondition (acc : List Condition × ℕ) (c : Column × Comparison × Bool) : List Condition × ℕ :=
  if c.2.2 then (acc.1 ++ [⟨c.1, c.2.1, acc.2⟩], acc.2 + 1) else acc

/-- The conditions of the `WHERE` clause, joined by `AND`. -/
def AuditQuery.conditions (q : AuditQuery) : List Condition :=
  ([(.op, .eq, q.op.isSome), (.outcome, .eq, q.outcome.isSome),
    (.namespaceId, .eq, q.namespaceId.isSome), (.handle, .eq, q.handle.isSome),
    (.sensitivity, .eq, q.sensitivity.isSome), (.ts, .ge, q.from_.isSome),
    (.ts, .le, q.to_.isSome)].foldl addCondition ([], 1)).1

/-- The bound values, in the order of the binds. -/
def AuditQuery.binds (K : Crates) (q : AuditQuery) : List SqlValue :=
  [q.op.map fun op => .text op.display, q.outcome.map fun outcome => .text outcome.display,
    q.namespaceId.map fun ns => .blob ns.inner.toList, q.handle.map fun h => .text h.display,
    q.sensitivity.map fun sens => .text sens.display, q.from_.map fun t => .text (K.toRfc3339 t),
    q.to_.map fun t => .text (K.toRfc3339 t)].reduceOption

/-- The rows that the statement selects. -/
def AuditTables.select (K : Crates) (t : AuditTables) (q : AuditQuery) : List EntryRow :=
  limited q.limit (orderBySeq (t.auditEntries.filter fun row =>
    q.conditions.all (Condition.holds (q.binds K) row)))

/-- Every row is read, or the first error is returned. -/
def readRows (K : Crates) (R : Readers) (rows : List EntryRow) :
    Except StorageError (List AuditEntry) :=
  rows.mapM fun row => (rowToAuditEntry K R row).mapError AdapterError.toStorage

/-- `read_audit`. -/
def readAudit (K : Crates) (R : Readers) (t : AuditTables) (q : AuditQuery) :
    Except StorageError (List AuditEntry) :=
  readRows K R (AuditTables.select K t q)

/-- `read_all_entries_tx`: the whole log, as it is reloaded. -/
def readAllEntries (K : Crates) (R : Readers) (t : AuditTables) :
    Except StorageError (List AuditEntry) :=
  readRows K R (orderBySeq t.auditEntries)

/-! ### The conditions -/

/-- A column, how it is compared, and the value when the filter is set. -/
abbrev Clause := Column × Comparison × Option SqlValue

/-- The clauses of a query; an absent filter has none. -/
def AuditQuery.clauses (K : Crates) (q : AuditQuery) : List Clause :=
  [(.op, .eq, q.op.map fun op => .text op.display),
    (.outcome, .eq, q.outcome.map fun outcome => .text outcome.display),
    (.namespaceId, .eq, q.namespaceId.map fun ns => .blob ns.inner.toList),
    (.handle, .eq, q.handle.map fun h => .text h.display),
    (.sensitivity, .eq, q.sensitivity.map fun sens => .text sens.display),
    (.ts, .ge, q.from_.map fun t => .text (K.toRfc3339 t)),
    (.ts, .le, q.to_.map fun t => .text (K.toRfc3339 t))]

/-- The row passes the clause: the filter is not set, or its value compares as asked. -/
def Clause.holds (row : EntryRow) (c : Clause) : Bool :=
  c.2.2.all (c.2.1.holds (EntryRow.value row c.1))

/-- Each condition finds its own value: the parameters are numbered as they are bound. -/
theorem addCondition_holds (row : EntryRow) : ∀ (cs : List Clause) (acc : List Condition × ℕ)
    (bound : List SqlValue), acc.2 = bound.length + 1 →
    ((cs.map fun c => (c.1, c.2.1, c.2.2.isSome)).foldl addCondition acc).1.all
      (Condition.holds (bound ++ cs.filterMap (·.2.2)) row) =
    (acc.1.all (Condition.holds (bound ++ cs.filterMap (·.2.2)) row) && cs.all (Clause.holds row))
  | [], acc, bound, _ => by simp
  | (column, comparison, none) :: cs, acc, bound, h => by
    have hrest := addCondition_holds row cs acc bound h
    simpa [addCondition, Clause.holds] using hrest
  | (column, comparison, some v) :: cs, acc, bound, h => by
    have hbound : bound ++ v :: cs.filterMap (·.2.2) = (bound ++ [v]) ++ cs.filterMap (·.2.2) := by
      simp
    have hrest := addCondition_holds row cs (acc.1 ++ [⟨column, comparison, acc.2⟩], acc.2 + 1)
      (bound ++ [v]) (by simp [h])
    have hown : Condition.holds (bound ++ v :: cs.filterMap (·.2.2)) row
        ⟨column, comparison, acc.2⟩ = comparison.holds (EntryRow.value row column) v := by
      simp [Condition.holds, h]
    have hparams : ((column, comparison, some v) :: cs).filterMap (·.2.2) =
        v :: cs.filterMap (·.2.2) := rfl
    rw [List.map_cons, List.foldl_cons, hparams, hbound]
    rw [hbound] at hown
    simp only [addCondition, Option.isSome_some, if_true]
    rw [hrest, List.all_append, List.all_cons, List.all_nil, hown, List.all_cons, Bool.and_true,
      Bool.and_assoc]
    rfl

/-- **The numbered conditions test each bound value on its own column.** -/
theorem conditions_hold (K : Crates) (q : AuditQuery) (row : EntryRow) :
    q.conditions.all (Condition.holds (q.binds K) row) = (q.clauses K).all (Clause.holds row) := by
  have h := addCondition_holds row (q.clauses K) ([], 1) [] rfl
  have hconditions : q.conditions = (((q.clauses K).map fun c =>
      (c.1, c.2.1, c.2.2.isSome)).foldl addCondition ([], 1)).1 := by
    simp [AuditQuery.conditions, AuditQuery.clauses, Option.isSome_map]
  have hbinds : q.binds K = [] ++ (q.clauses K).filterMap (·.2.2) := rfl
  rw [hconditions, hbinds, h]
  rfl

/-! ### Rows and entries -/

/-- The times of four-digit years are printed as RFC 3339 has it. -/
def Renders (K : Crates) : Prop := ∀ t, FourDigitYear t → K.toRfc3339 t = rfc3339 t

/-- The bounds of the query are in the years 0 to 9999. -/
structure AuditQuery.InYears (q : AuditQuery) : Prop where
  from_ : ∀ t, q.from_ = some t → FourDigitYear t
  to_ : ∀ t, q.to_ = some t → FourDigitYear t

/-- The query with its lower bound cut to the microsecond, as its text has it. -/
def AuditQuery.rounded (q : AuditQuery) : AuditQuery :=
  { q with from_ := q.from_.map Rfc3339Timestamp.atMicros }

section Rows

variable {K : Crates}

theorem eq_text {α : Type} [DecidableEq α] {print : α → String} (h : Function.Injective print)
    (a b : α) : Comparison.eq.holds (.text (print a)) (.text (print b)) = decide (a = b) := by
  simp [Comparison.holds, h.eq_iff]

theorem eq_ofText {α : Type} [DecidableEq α] {print : α → String} (h : Function.Injective print)
    (o : Option α) (b : α) :
    Comparison.eq.holds (.ofText (o.map print)) (.text (print b)) = decide (o = some b) := by
  cases o with
  | none => rfl
  | some a => simp [SqlValue.ofText, Comparison.holds, h.eq_iff]

theorem text_lt_iff (hK : Renders K) {a b : Rfc3339Timestamp} (ha : FourDigitYear a)
    (hb : FourDigitYear b) :
    textBytes (K.toRfc3339 a) < textBytes (K.toRfc3339 b) ↔ MicrosLt a b := by
  rw [hK a ha, hK b hb, textBytes, textBytes, utf8_ascii (rfc3339_ascii a),
    utf8_ascii (rfc3339_ascii b), rfc3339_lt_iff ha hb]

/-- A time cut to the microsecond precedes another as their texts do. -/
theorem atMicros_lt_atMicros {a b : Rfc3339Timestamp} :
    a.atMicros.lt b.atMicros = decide (MicrosLt a b) := by
  rw [Bool.eq_iff_iff, decide_eq_true_iff]
  simp only [Rfc3339Timestamp.lt, Bool.or_eq_true, Bool.and_eq_true, beq_iff_eq, decide_eq_true_eq]
  simp only [Rfc3339Timestamp.atMicros, MicrosLt]
  omega

/-- Digits below the microsecond do not move a time past one that has none. -/
theorem lt_atMicros {a b : Rfc3339Timestamp} : b.lt a.atMicros = decide (MicrosLt b a) := by
  rw [Bool.eq_iff_iff, decide_eq_true_iff]
  simp only [Rfc3339Timestamp.lt, Bool.or_eq_true, Bool.and_eq_true, beq_iff_eq, decide_eq_true_eq]
  simp only [Rfc3339Timestamp.atMicros, MicrosLt]
  omega

theorem ge_time (hK : Renders K) {a b : Rfc3339Timestamp} (ha : FourDigitYear a)
    (hb : FourDigitYear b) :
    Comparison.ge.holds (.text (K.toRfc3339 a)) (.text (K.toRfc3339 b)) =
      !(a.atMicros.lt b.atMicros) := by
  rw [atMicros_lt_atMicros]
  simp only [Comparison.holds, text_lt_iff hK ha hb]

theorem le_time (hK : Renders K) {a b : Rfc3339Timestamp} (ha : FourDigitYear a)
    (hb : FourDigitYear b) :
    Comparison.le.holds (.text (K.toRfc3339 a)) (.text (K.toRfc3339 b)) = !(b.lt a.atMicros) := by
  rw [lt_atMicros]
  simp only [Comparison.holds, text_lt_iff hK hb ha]

theorem blob_injective : Function.Injective fun ns : NamespaceId => ns.inner.toList := by
  intro a b h
  exact congrArg NamespaceId.mk (Vector.toList_inj.mp h)

/-- A clause without a value holds. -/
theorem all_map_congr {α β : Type} {o : Option α} {f : α → β} {p : β → Bool} {r : α → Bool}
    (h : ∀ a, o = some a → p (f a) = r a) : (o.map f).all p = o.all r := by
  cases o with
  | none => rfl
  | some a => exact h a rfl

/-- **A row is selected when the reloaded entry is accepted**, the lower bound cut to the
microsecond. -/
theorem row_accepted (hK : Renders K) {q : AuditQuery} (hq : q.InYears) {e : AuditEntry}
    (he : Printable e) : q.conditions.all (Condition.holds (q.binds K) (entryRow K e)) =
      q.rounded.accepts (reloaded e) := by
  have hns : ∀ a b : NamespaceId,
      Comparison.eq.holds (.blob a.inner.toList) (.blob b.inner.toList) = decide (a = b) := by
    intro a b
    simp only [Comparison.holds, blob_injective.eq_iff]
  rw [conditions_hold]
  simp only [AuditQuery.clauses, List.all_cons, List.all_nil, Bool.and_true, Clause.holds,
    AuditQuery.accepts, Bool.and_assoc]
  congr 1
  · exact all_map_congr fun op _ => eq_text AuditOp.display_injective e.op op
  congr 1
  · exact all_map_congr fun outcome _ => eq_text AuditOutcome.display_injective e.outcome outcome
  congr 1
  · exact all_map_congr fun ns _ => hns e.namespaceId ns
  congr 1
  · exact all_map_congr fun h _ => eq_ofText Handle.display_injective e.handle h
  congr 1
  · exact all_map_congr fun sens _ => eq_ofText Sensitivity.display_injective e.sensitivity sens
  congr 1
  · show _ = (q.from_.map Rfc3339Timestamp.atMicros).all fun t => !e.ts.atMicros.lt t
    rw [Option.all_map (f := Rfc3339Timestamp.atMicros)]
    exact all_map_congr fun t ht => ge_time hK he.ts (hq.from_ t ht)
  · exact all_map_congr fun t ht => le_time hK he.ts (hq.to_ t ht)

/-! ### The order -/

/-- A selection of rows stands in the order of all rows: no two have one number. -/
theorem orderBySeq_filter {rows : List EntryRow} (hrows : rows.Pairwise Apart) (p : EntryRow → Bool) :
    orderBySeq (rows.filter p) = (orderBySeq rows).filter p := by
  have hsorted : ∀ l : List EntryRow, (orderBySeq l).Pairwise fun a b => a.seq ≤ b.seq := by
    intro l
    have h := @List.pairwise_mergeSort _ (fun a b : EntryRow => decide (a.seq ≤ b.seq))
      (by simp; omega) (by simp; omega) l
    exact h.imp of_decide_eq_true
  have hseqs : ∀ a ∈ rows, ∀ b ∈ rows, a.seq ≤ b.seq → b.seq ≤ a.seq → a = b := by
    have hnodup : (rows.map EntryRow.seq).Nodup := List.pairwise_map.mpr (hrows.imp Apart.seq)
    intro a ha b hb hle hge
    exact List.inj_on_of_nodup_map hnodup ha hb (Int.le_antisymm hle hge)
  apply @List.Perm.eq_of_pairwise _ fun a b => a.seq ≤ b.seq
  · intro a b ha hb
    have ha' := List.mem_mergeSort.mp ha
    have hb' := List.mem_mergeSort.mp (List.mem_of_mem_filter hb)
    exact hseqs a (List.mem_of_mem_filter ha') b hb'
  · exact hsorted _
  · exact (hsorted rows).filter p
  · exact (List.mergeSort_perm _ _).trans ((List.mergeSort_perm _ _).filter p).symm

/-- The entries in the order of their rows. -/
def sorted (es : List AuditEntry) : List AuditEntry :=
  es.mergeSort fun a b => decide (toI64 a.seq ≤ toI64 b.seq)

theorem orderBySeq_entryRow (K : Crates) (es : List AuditEntry) :
    orderBySeq (es.map (entryRow K)) = (sorted es).map (entryRow K) := by
  refine (List.map_mergeSort (f := entryRow K) ?_).symm
  intro a _ b _
  rfl

theorem map_limited {α β : Type} (f : α → β) (limit : Option UInt32) (l : List α) :
    (limited limit l).map f = limited limit (l.map f) := by
  cases limit with
  | none => rfl
  | some n => exact List.map_take

theorem mem_of_mem_limited {α : Type} {limit : Option UInt32} {l : List α} {a : α}
    (h : a ∈ limited limit l) : a ∈ l := by
  cases limit with
  | none => exact h
  | some n => exact List.mem_of_mem_take h

theorem readRows_entryRow {R : Readers} (hR : R.Lawful K) {es : List AuditEntry}
    (hes : ∀ e ∈ es, Printable e) :
    readRows K R (es.map (entryRow K)) = .ok (es.map reloaded) := by
  rw [readRows, List.mapM_map]
  refine mapM_ok fun e he => ?_
  rw [Function.comp_apply, rowToAuditEntry_entryRow hR (hes e he)]
  rfl

/-! ### What the queries return -/

/-- The log that the stored entries of a run of commits make. -/
theorem readAllEntries_commitAll {R : Readers} (hR : R.Lawful K) {ws : List (AuditEntry × PinnedHead)}
    (hs : ∀ w ∈ ws, Printable w.1) {t : AuditTables} (ht : AuditTables.empty.commitAll K ws = .ok t) :
    readAllEntries K R t = .ok ((sorted (ws.map (·.1))).map reloaded) := by
  have hrows : t.auditEntries = (ws.map (·.1)).map (entryRow K) := by
    rw [commitAll_ok ht, List.map_map]
    exact List.nil_append _
  rw [readAllEntries, hrows, orderBySeq_entryRow]
  refine readRows_entryRow hR fun e he => ?_
  obtain ⟨w, hw, rfl⟩ := List.mem_map.mp (List.mem_mergeSort.mp he)
  exact hs w hw

/-- **`read_audit` answers the query with its lower bound cut to the microsecond.** -/
theorem readAudit_eq {R : Readers} (hR : R.Lawful K) (hK : Renders K)
    {ws : List (AuditEntry × PinnedHead)} (hs : ∀ w ∈ ws, Printable w.1) {t : AuditTables}
    (ht : AuditTables.empty.commitAll K ws = .ok t) {q : AuditQuery} (hq : q.InYears)
    {entries : List AuditEntry} (hentries : readAllEntries K R t = .ok entries) :
    readAudit K R t q = .ok (execute (AuditLog.fromPersisted entries) q.rounded) := by
  obtain rfl := Except.ok.inj (hentries.symm.trans (readAllEntries_commitAll hR hs ht))
  have hrows : t.auditEntries = (ws.map (·.1)).map (entryRow K) := by
    rw [commitAll_ok ht, List.map_map]
    exact List.nil_append _
  have hapart : t.auditEntries.Pairwise Apart := by
    have h := (exists_commitAll_iff (t := AuditTables.empty) List.Pairwise.nil).mp ⟨t, ht⟩
    rwa [commitAll_ok ht]
  have hprintable : ∀ e ∈ sorted (ws.map (·.1)), Printable e := by
    intro e he
    obtain ⟨w, hw, rfl⟩ := List.mem_map.mp (List.mem_mergeSort.mp he)
    exact hs w hw
  have hselect : AuditTables.select K t q = (limited q.limit
      ((sorted (ws.map (·.1))).filter fun e => q.rounded.accepts (reloaded e))).map (entryRow K) := by
    rw [AuditTables.select, orderBySeq_filter hapart, hrows, orderBySeq_entryRow, List.filter_map,
      map_limited]
    congr 2
    exact List.filter_congr fun e he => row_accepted hK hq (hprintable e he)
  have hlimited : ∀ e ∈ limited q.limit ((sorted (ws.map (·.1))).filter fun e =>
      q.rounded.accepts (reloaded e)), Printable e := by
    exact fun e he => hprintable e (List.mem_filter.mp (mem_of_mem_limited he)).1
  rw [readAudit, hselect, readRows_entryRow hR hlimited, map_limited, execute]
  show _ = Except.ok (limited q.limit (((sorted (ws.map (·.1))).map reloaded).filter _))
  rw [List.filter_map]
  rfl

end Rows

/-! ### Where the cut shows -/

/-- The first `n` that pass the one test are the first `n` that pass the weaker one as long as no
other comes before the `n`-th. -/
theorem take_filter_eq_iff {α : Type} {p r : α → Bool} (hpr : ∀ a, p a = true → r a = true) :
    ∀ (l : List α) (n : ℕ), (l.filter r).take n = (l.filter p).take n ↔
      ∀ pre a post, l = pre ++ a :: post → r a = true → p a = false → n ≤ (pre.filter p).length
  | [], n => by simp
  | b :: l, n => by
    have hrest : ∀ m, (∀ pre a post, b :: l = pre ++ a :: post → r a = true → p a = false →
        m ≤ (pre.filter p).length) ↔ (r b = true → p b = false → m = 0) ∧
        ∀ pre a post, l = pre ++ a :: post → r a = true → p a = false →
          m ≤ ((b :: pre).filter p).length := by
      intro m
      constructor
      · intro h
        exact ⟨fun hr hp => Nat.le_zero.mp (h [] b l rfl hr hp),
          fun pre a post hl => h (b :: pre) a post (congrArg (b :: ·) hl)⟩
      · rintro ⟨hhead, htail⟩ pre a post hl hr hp
        cases pre with
        | nil =>
          obtain ⟨rfl, rfl⟩ := List.cons.inj hl
          exact (hhead hr hp).le
        | cons c pre =>
          obtain ⟨rfl, htl⟩ := List.cons.inj hl
          exact htail pre a post htl hr hp
    rw [hrest]
    by_cases hp : p b = true
    · cases n with
      | zero => simp
      | succ n =>
        simp only [List.filter_cons, hp, hpr b hp, if_true, List.take_succ_cons, List.cons.injEq,
          true_and, take_filter_eq_iff hpr l n, Bool.true_eq_false, false_implies, implies_true,
          List.length_cons, Nat.add_le_add_iff_right]
    · by_cases hr : r b = true
      · cases n with
        | zero => simp
        | succ n =>
          -- the weaker test takes this one, the other cannot
          refine iff_of_false (fun h => ?_) (fun h => Nat.succ_ne_zero n (h.1 hr (by simpa using hp)))
          have hmem : b ∈ (l.filter p).take (n + 1) := by
            rw [List.filter_cons_of_pos hr, List.filter_cons_of_neg hp] at h
            rw [← h]
            exact List.mem_cons_self
          exact hp (List.of_mem_filter (List.mem_of_mem_take hmem))
      · simp only [List.filter_cons, hp, hr, if_false, Bool.false_eq_true, take_filter_eq_iff hpr l n,
          false_implies, true_and]

theorem limited_filter_eq_iff {α : Type} {p r : α → Bool} (hpr : ∀ a, p a = true → r a = true)
    (limit : Option UInt32) (l : List α) :
    limited limit (l.filter r) = limited limit (l.filter p) ↔
      ∀ pre a post, l = pre ++ a :: post → r a = true → p a = false →
        ∃ n, limit = some n ∧ n.toNat ≤ (pre.filter p).length := by
  cases limit with
  | some n =>
    simp only [Option.some.injEq, exists_eq_left']
    exact take_filter_eq_iff hpr l n.toNat
  | none =>
    simp only [reduceCtorEq, false_and, exists_false]
    constructor
    · intro h pre a post hl hr hp
      have hmem : a ∈ l.filter r := List.mem_filter.mpr ⟨hl ▸ List.mem_append_cons_self, hr⟩
      rw [show l.filter r = l.filter p from h] at hmem
      simp [hp] at hmem
    · intro h
      refine List.filter_congr fun a ha => ?_
      obtain ⟨pre, post, hl⟩ := List.append_of_mem ha
      rw [Bool.eq_iff_iff]
      exact ⟨fun hr => by simpa using h pre a post hl hr, hpr a⟩

/-- The entry lies on the lower bound cut to the microsecond, before the bound itself, and passes
every other filter. -/
def AuditQuery.BelowBound (q : AuditQuery) (e : AuditEntry) : Prop :=
  ∃ from_, q.from_ = some from_ ∧ e.ts = from_.atMicros ∧ e.ts.lt from_ = true ∧
    AuditQuery.accepts { q with from_ := none } e = true

/-- The lower bound is one of the filters. -/
theorem accepts_eq (q : AuditQuery) (e : AuditEntry) : q.accepts e =
    (AuditQuery.accepts { q with from_ := none } e && q.from_.all fun from_ => !e.ts.lt from_) := by
  simp only [AuditQuery.accepts, Option.all_none, Bool.and_true]
  ac_rfl

section Bound

variable {from_ ts : Rfc3339Timestamp}

/-- Between the cut bound and the bound there is no time at microseconds but the cut bound. -/
theorem between_iff (hts : ts.atMicros = ts) :
    (ts.lt from_.atMicros = false ∧ ts.lt from_ = true) ↔ ts = from_.atMicros ∧ ts.lt from_ = true := by
  refine and_congr_left fun hlt => ?_
  have hmicros : ts.subsec / 1000 * 1000 = ts.subsec := congrArg Rfc3339Timestamp.subsec hts
  simp only [Rfc3339Timestamp.lt, Bool.or_eq_true, Bool.and_eq_true, beq_iff_eq,
    decide_eq_true_eq] at hlt
  constructor
  · intro h
    rw [← hts, atMicros_lt_atMicros, decide_eq_false_iff_not, MicrosLt] at h
    rw [← hts]
    exact atMicros_congr (Prod.ext (by simp only [Rfc3339Timestamp.micros]; omega)
      (by simp only [Rfc3339Timestamp.micros]; omega))
  · rintro rfl
    rw [atMicros_lt_atMicros, decide_eq_false_iff_not, MicrosLt]
    omega

theorem not_lt_atMicros (h : ts.lt from_ = false) : ts.lt from_.atMicros = false := by
  rw [Bool.eq_false_iff] at h ⊢
  simp only [ne_eq, Rfc3339Timestamp.lt, Bool.or_eq_true, Bool.and_eq_true, beq_iff_eq,
    decide_eq_true_eq] at h ⊢
  have : from_.atMicros.timestamp = from_.timestamp := rfl
  have : from_.atMicros.subsec = from_.subsec / 1000 * 1000 := rfl
  omega

end Bound

/-- The cut only widens the query. -/
theorem accepts_rounded {q : AuditQuery} {e : AuditEntry} (h : q.accepts e = true) :
    q.rounded.accepts e = true := by
  rw [accepts_eq, Bool.and_eq_true] at h ⊢
  refine ⟨h.1, ?_⟩
  have hbound := h.2
  unfold AuditQuery.rounded
  rw [Option.all_map]
  cases hfrom : q.from_ with
  | none => rfl
  | some from_ =>
    rw [hfrom] at hbound
    simpa using not_lt_atMicros (by simpa using hbound)

/-- An entry that only the cut query accepts. -/
theorem rounded_only_iff {q : AuditQuery} {e : AuditEntry} (hts : e.ts.atMicros = e.ts) :
    (q.rounded.accepts e = true ∧ q.accepts e = false) ↔ q.BelowBound e := by
  have hother : AuditQuery.accepts { q.rounded with from_ := none } e =
      AuditQuery.accepts { q with from_ := none } e := rfl
  rw [accepts_eq q, accepts_eq q.rounded, hother, AuditQuery.BelowBound]
  cases hfrom : q.from_ with
  | none => simp [AuditQuery.rounded, hfrom]
  | some from_ =>
    have hbetween := @between_iff from_ _ hts
    simp only [AuditQuery.rounded, hfrom, Option.map_some, Option.all_some, Option.some.injEq,
      exists_eq_left', Bool.and_eq_true, Bool.not_eq_true', Bool.and_eq_false_iff,
      Bool.not_eq_false']
    constructor
    · rintro ⟨⟨hacc, hge⟩, hlt⟩
      have hlt' := hlt.resolve_left (by simp [hacc])
      obtain ⟨heq, -⟩ := hbetween.mp ⟨hge, hlt'⟩
      exact ⟨heq, hlt', hacc⟩
    · rintro ⟨heq, hlt, hacc⟩
      exact ⟨⟨hacc, (hbetween.mpr ⟨heq, hlt⟩).1⟩, .inr hlt⟩

/-- **`read_audit` agrees with the query model** unless an entry lies on a lower bound that was cut
to the microsecond, and before the limit is reached. -/
theorem readAudit_agrees_iff (K : Crates) (R : Readers) (hR : R.Lawful K) (hK : Renders K)
    (ws : List (AuditEntry × PinnedHead)) (hs : ∀ w ∈ ws, Printable w.1) (t : AuditTables)
    (ht : AuditTables.empty.commitAll K ws = .ok t) (q : AuditQuery) (hq : q.InYears) :
    ∃ entries, readAllEntries K R t = .ok entries ∧
      (readAudit K R t q = .ok (execute (AuditLog.fromPersisted entries) q) ↔
        ∀ pre e post, entries = pre ++ e :: post → q.BelowBound e →
          ∃ n, q.limit = some n ∧ n.toNat ≤ (pre.filter q.accepts).length) := by
  have hentries := readAllEntries_commitAll hR hs ht
  refine ⟨_, hentries, ?_⟩
  have hlimit : q.rounded.limit = q.limit := rfl
  have hmicros : ∀ e ∈ (sorted (ws.map (·.1))).map reloaded, e.ts.atMicros = e.ts := by
    intro e he
    obtain ⟨e', -, rfl⟩ := List.mem_map.mp he
    exact atMicros_congr (Rfc3339Timestamp.micros_atMicros _)
  rw [readAudit_eq hR hK hs ht hq hentries, Except.ok.injEq, execute, execute, hlimit,
    limited_filter_eq_iff (p := q.accepts) fun _ => accepts_rounded]
  refine forall_congr' fun pre => forall_congr' fun e => forall_congr' fun post =>
    forall_congr' fun hl => ?_
  have he : e ∈ (sorted (ws.map (·.1))).map reloaded := by
    rw [show (sorted (ws.map (·.1))).map reloaded = pre ++ e :: post from hl]
    exact List.mem_append_cons_self
  rw [← and_imp, rounded_only_iff (hmicros e he)]

/-! ### A bound finer than the column -/

/-- An entry at the epoch, with identifiers of version 7. -/
def boundaryEntry : AuditEntry :=
  { sampleEntry epoch with
    id := ⟨Vector.replicate 16 0x70⟩
    namespaceId := ⟨Vector.replicate 16 0x70⟩ }

/-- The head after the entry. -/
def boundaryHead : PinnedHead := PinnedHead.new boundaryEntry.currentHash 7 boundaryEntry.id epoch

/-- All entries from a time on. -/
def queryFrom (from_ : Rfc3339Timestamp) : AuditQuery where
  op := none
  outcome := none
  namespaceId := none
  handle := none
  sensitivity := none
  from_ := some from_
  to_ := none
  limit := none

/-- Half a microsecond after the epoch. -/
def halfMicro : Rfc3339Timestamp := ⟨0, 500, by decide, by decide⟩

theorem printing_renders : Renders printingCrates := fun _ ht => if_pos ht

theorem boundary_printable : ∀ w ∈ [(boundaryEntry, boundaryHead)], Printable w.1 := by
  intro w hw
  rw [List.mem_singleton.mp hw]
  exact ⟨by decide, by decide, fourDigitYear_epoch⟩

theorem boundary_committed :
    ∃ t, AuditTables.empty.commitAll printingCrates [(boundaryEntry, boundaryHead)] = .ok t :=
  (exists_commitAll_iff List.Pairwise.nil).mpr (List.pairwise_singleton _ _)

theorem queryFrom_inYears {t : Rfc3339Timestamp} (ht : FourDigitYear t) : (queryFrom t).InYears where
  from_ := fun _ h => Option.some.inj h ▸ ht
  to_ := nofun

/-- The entry at the bound itself. -/
theorem query_at_bound : ∃ t entries,
    AuditTables.empty.commitAll printingCrates [(boundaryEntry, boundaryHead)] = .ok t ∧
    readAllEntries printingCrates (.inverse printingCrates) t = .ok entries ∧
    readAudit printingCrates (.inverse printingCrates) t (queryFrom epoch) =
      .ok (execute (AuditLog.fromPersisted entries) (queryFrom epoch)) := by
  obtain ⟨t, ht⟩ := boundary_committed
  obtain ⟨entries, hentries, hiff⟩ := readAudit_agrees_iff printingCrates (.inverse printingCrates)
    printing_lawful printing_renders [(boundaryEntry, boundaryHead)] boundary_printable t ht
    (queryFrom epoch) (queryFrom_inYears fourDigitYear_epoch)
  refine ⟨t, entries, ht, hentries, hiff.mpr ?_⟩
  rintro pre e post - ⟨from_, hfrom, hts, hlt, -⟩
  obtain rfl := Option.some.inj hfrom
  rw [hts] at hlt
  exact absurd hlt (by decide)

/-- A bound half a microsecond after the entry: `read_audit` returns the entry, the query model does
not. -/
theorem query_below_bound : ∃ t entries,
    AuditTables.empty.commitAll printingCrates [(boundaryEntry, boundaryHead)] = .ok t ∧
    readAllEntries printingCrates (.inverse printingCrates) t = .ok entries ∧
    readAudit printingCrates (.inverse printingCrates) t (queryFrom halfMicro) = .ok [boundaryEntry] ∧
    execute (AuditLog.fromPersisted entries) (queryFrom halfMicro) = [] := by
  obtain ⟨t, ht⟩ := boundary_committed
  have hentries := readAllEntries_commitAll printing_lawful boundary_printable ht
  have hread := readAudit_eq printing_lawful printing_renders boundary_printable ht
    (queryFrom_inYears (t := halfMicro) ⟨by decide, by decide⟩) hentries
  have hsorted : (sorted ([(boundaryEntry, boundaryHead)].map (·.1))).map reloaded =
      [boundaryEntry] := by
    simp only [List.map_cons, List.map_nil, sorted, List.mergeSort_singleton]
    decide
  rw [hsorted] at hentries hread
  refine ⟨t, _, ht, hentries, ?_, by decide⟩
  rw [hread]
  decide

end MerkleVault.Sqlite.AuditQueries
