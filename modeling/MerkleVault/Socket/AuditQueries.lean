import MerkleVault.App.Context
import MerkleVault.Lib.FormUrlencoded
import MerkleVault.Lib.Json
import MerkleVault.Sqlite.AuditQueries

/-! # Audit Queries over the Socket

`query_audit` of the client writes the filters into the query string of `GET /v1/audit`.  The handler
reads the string back into the query of the contract, maps that to the query of the domain and asks
the store.

* `deserialize_queryAuditPath`: the server reads what the client wrote, times apart;
* `queryAudit_selects`: the entries that it selects;
* `filters_lost`: a filter that names no operation, and a lower bound. -/

namespace MerkleVault.Socket.AuditQueries

open MerkleVault.Types MerkleVault.External MerkleVault.Lib.FormUrlencoded MerkleVault.Lib.Json
open MerkleVault.Audit.Entry MerkleVault.Audit.Writer MerkleVault.Audit.Verifier
open MerkleVault.Audit.Integrity (epoch)
open MerkleVault.Audit.Baseline MerkleVault.App.Context
open MerkleVault.Sqlite.Tables MerkleVault.Sqlite.AuditRows MerkleVault.Sqlite.TimestampText
open MerkleVault.Sqlite.AuditQueries (limited execute readAudit readAllEntries readAudit_eq Renders
  readAllEntries_commitAll boundaryEntry boundaryHead boundary_printable boundary_committed sorted
  printing_renders)

/-- The query of the domain. -/
abbrev DomainAuditQuery := Sqlite.AuditQueries.AuditQuery

/-- The query of the contract. -/
structure AuditQuery where
  handle : Option String
  op : Option String
  since : Option Rfc3339Timestamp
  until_ : Option Rfc3339Timestamp
  sessionId : Option Uuid
  outcome : Option String
  verifyChain : Bool
  limit : UInt32

/-- `default_limit`. -/
def defaultLimit : UInt32 := 50

/-- What the two ends use of the crates outside the repository. -/
structure QueryCrates where
  /-- `utf8_percent_encode(value, NON_ALPHANUMERIC)`. -/
  enc : String → String
  /-- A key or value of a query, decoded by `form_urlencoded`. -/
  decode : String → String
  /-- `DateTime<Utc>` from a text. -/
  parseDateTime : String → Option Rfc3339Timestamp
  /-- `DateTime::to_rfc3339`. -/
  toRfc3339 : Rfc3339Timestamp → String

section Client

variable (K : Crates) (W : QueryCrates)

/-- `write!(path, "&key={text}")`, when there is a text. -/
def addParam (path key : String) (value : Option String) : String :=
  match value with
  | some text => path ++ "&" ++ key ++ "=" ++ text
  | none => path

/-- The path that `CompanionSocketClient::query_audit` requests. -/
def queryAuditPath (query : AuditQuery) : String :=
  let path := "/v1/audit?limit=" ++ String.ofList (Nat.toDigits 10 query.limit.toNat)
  let path := addParam path "op" (query.op.map W.enc)
  let path := addParam path "handle" (query.handle.map W.enc)
  let path := addParam path "outcome" (query.outcome.map W.enc)
  let path := addParam path "session_id" (query.sessionId.map K.hyphenated)
  addParam path "verify_chain" (if query.verifyChain then some "true" else none)

end Client

/-! ### The server -/

/-- Why `Query<AuditQuery>` refuses a request. -/
inductive QueryRejection
  | duplicateField (name : String)
  | invalidValue (name text : String)
deriving DecidableEq

/-- The fields that have been read. -/
structure Fields where
  handle : Option String
  op : Option String
  since : Option Rfc3339Timestamp
  until_ : Option Rfc3339Timestamp
  sessionId : Option Uuid
  outcome : Option String
  verifyChain : Option Bool
  limit : Option UInt32

/-- No parameter was read. -/
def Fields.empty : Fields := ⟨none, none, none, none, none, none, none, none⟩

/-- The text after a plus sign. -/
def afterPlus : List Char → List Char
  | '+' :: rest => rest
  | cs => cs

/-- `u32::from_str`. -/
def parseU32 (text : String) : Option UInt32 :=
  let digits := afterPlus text.toList
  if digits ≠ [] ∧ (∀ c ∈ digits, c.isDigit = true) ∧ Nat.ofDigitChars 10 digits 0 < 2 ^ 32 then
    some (UInt32.ofNat (Nat.ofDigitChars 10 digits 0))
  else none

/-- `bool::from_str`. -/
def parseBool : String → Option Bool
  | "true" => some true
  | "false" => some false
  | _ => none

/-- A field is read once. -/
def readOnce {α : Type} (name : String) (parse : String → Option α) (old : Option α)
    (text : String) : Except QueryRejection (Option α) :=
  if old.isSome then .error (.duplicateField name)
  else match parse text with
    | some v => .ok (some v)
    | none => .error (.invalidValue name text)

section Server

variable (K : Crates) (R : Readers) (W : QueryCrates)

/-- One pair of the query; unknown keys are skipped. -/
def readField (fields : Fields) (pair : String × String) : Except QueryRejection Fields :=
  match pair.1 with
  | "handle" => return { fields with handle := ← readOnce "handle" some fields.handle pair.2 }
  | "op" => return { fields with op := ← readOnce "op" some fields.op pair.2 }
  | "since" => return { fields with since := ← readOnce "since" W.parseDateTime fields.since pair.2 }
  | "until" => return { fields with until_ := ← readOnce "until" W.parseDateTime fields.until_ pair.2 }
  | "session_id" =>
    return { fields with sessionId := ← readOnce "session_id" R.parseUuid fields.sessionId pair.2 }
  | "outcome" => return { fields with outcome := ← readOnce "outcome" some fields.outcome pair.2 }
  | "verify_chain" =>
    return { fields with
      verifyChain := ← readOnce "verify_chain" parseBool fields.verifyChain pair.2 }
  | "limit" => return { fields with limit := ← readOnce "limit" parseU32 fields.limit pair.2 }
  | _ => return fields

/-- The defaults of the fields that were not given. -/
def Fields.query (f : Fields) : AuditQuery where
  handle := f.handle
  op := f.op
  since := f.since
  until_ := f.until_
  sessionId := f.sessionId
  outcome := f.outcome
  verifyChain := f.verifyChain.getD false
  limit := f.limit.getD defaultLimit

/-- The text after the first `?` of a path. -/
def queryPart (path : String) : List Char := (path.toList.dropWhile (· ≠ '?')).tail

/-- `Query<AuditQuery>`. -/
def deserialize (path : String) : Except QueryRejection AuditQuery := do
  let pairs := parse (fun cs => W.decode (String.ofList cs)) (queryPart path)
  let fields ← pairs.foldlM (readField R W) Fields.empty
  return fields.query

/-- `to_domain_query`. -/
def toDomainQuery (params : AuditQuery) : DomainAuditQuery where
  op := params.op.bind AuditOp.fromStr
  outcome := params.outcome.bind AuditOutcome.fromStr
  namespaceId := none
  handle := params.handle.bind Handle.fromStr
  sensitivity := none
  from_ := params.since.bind fun dt => R.parseRfc3339 (W.toRfc3339 dt)
  to_ := params.until_.bind fun dt => R.parseRfc3339 (W.toRfc3339 dt)
  limit := some params.limit

/-- The entries, and the chain's verdict where it was asked for. -/
structure QueryAuditOutput where
  entries : List AuditEntry
  chainValid : Option Bool

/-- What the query reads of the vault. -/
structure VaultView where
  unsealed : Bool
  hmacKey : Option Key
  tables : AuditTables

/-- A vault whose chain has no head. -/
def noPinnedHead : AppError := .domain (.text "no pinned head found — vault may be uninitialized")

/-- The verdict on the whole chain: from the baseline when one is pinned. -/
def chainIntact (snapshot : AuditSnapshot) (head : PinnedHead) (key : Key) (now : Rfc3339Timestamp) :
    Bool :=
  let log := AuditLog.fromPersisted snapshot.entries
  let result := match snapshot.baseline with
    | some baseline => verifyFromBaseline K log head baseline key.toList now
    | none => verifyFull K log head key.toList now
  result.outcome = .intact

/-- `QueryAuditQuery::execute`. -/
def queryAudit (vault : VaultView) (filter : DomainAuditQuery) (verifyChain : Bool)
    (now : Rfc3339Timestamp) : Except AppError QueryAuditOutput := do
  if !vault.unsealed then throw .vaultSealed
  let entries ← (readAudit K R vault.tables filter).mapError AppError.storage
  if verifyChain then
    let key ← vault.hmacKey.elim (.error .vaultSealed) .ok
    let snapshot ← (vault.tables.auditSnapshot K R).mapError AppError.storage
    let head ← snapshot.pinnedHead.elim (.error noPinnedHead) .ok
    return ⟨entries, some (chainIntact K snapshot head key now)⟩
  else
    return ⟨entries, none⟩

/-- The handler `query_audit`. -/
def handleQueryAudit (vault : VaultView) (path : String) (now : Rfc3339Timestamp) :
    Except QueryRejection (Except AppError QueryAuditOutput) := do
  let params ← deserialize R W path
  return queryAudit K R vault (toDomainQuery R W params) params.verifyChain now

end Server

/-! ### The query string -/

/-- A letter or digit of ASCII, or a character that is never escaped. -/
def IsPlainChar (c : Char) : Prop := c.isAlphanum = true ∨ c = '-' ∨ c = '_'

instance (c : Char) : Decidable (IsPlainChar c) := inferInstanceAs (Decidable (_ ∨ _))

/-- What the documentation says of the encoder, the decoder and the texts of identifiers. -/
structure QueryCrates.Lawful (W : QueryCrates) (K : Crates) : Prop where
  /-- Decoding inverts percent-encoding. -/
  decode_enc : ∀ s, W.decode (W.enc s) = s
  /-- Everything but letters and digits is escaped. -/
  enc_chars : ∀ s, ∀ c ∈ (W.enc s).toList, c.isAlphanum = true ∨ c = '%'
  /-- A text without escapes stands for itself. -/
  decode_plain : ∀ s, (∀ c ∈ s.toList, IsPlainChar c) → W.decode s = s
  hyphenated_chars : ∀ u, ∀ c ∈ (K.hyphenated u).toList, c.isAlphanum = true ∨ c = '-'

section Query

variable {K : Crates} {R : Readers} {W : QueryCrates}

/-- A key and its value, as the client writes them. -/
abbrev Param := String × String

/-- The characters of a parameter. -/
def Param.chars (p : Param) : List Char × List Char := (p.1.toList, p.2.toList)

/-- The path asks for the parameters. -/
structure Asks (path : String) (params : List Param) : Prop where
  path : path.toList = "/v1/audit?".toList ++ render (params.map Param.chars)
  nonempty : params ≠ []

theorem asks_limit (text : String) : Asks ("/v1/audit?limit=" ++ text) [("limit", text)] where
  path := by simp [String.toList_append, render, Lib.FormUrlencoded.segment, Param.chars]
  nonempty := by simp

/-- The parameter, when there is one. -/
def optParam (key : String) (value : Option String) : List Param :=
  (value.map fun text => (key, text)).toList

theorem Asks.addParam {path : String} {params : List Param} (h : Asks path params) (key : String)
    (value : Option String) : Asks (addParam path key value) (params ++ optParam key value) := by
  cases value with
  | none => simpa [AuditQueries.addParam, optParam] using h
  | some text =>
    refine ⟨?_, by simp [optParam]⟩
    have hne : params.map Param.chars ≠ [] := by simpa using h.nonempty
    rw [optParam, Option.map_some, Option.toList_some, List.map_append, List.map_singleton,
      render_concat hne]
    simp [AuditQueries.addParam, String.toList_append, h.path, Lib.FormUrlencoded.segment, Param.chars]

/-- The parameters of a query, in the order of the writes. -/
def AuditQuery.params (K : Crates) (W : QueryCrates) (q : AuditQuery) : List Param :=
  ("limit", String.ofList (Nat.toDigits 10 q.limit.toNat)) ::
    (optParam "op" (q.op.map W.enc) ++ optParam "handle" (q.handle.map W.enc) ++
      optParam "outcome" (q.outcome.map W.enc) ++
      optParam "session_id" (q.sessionId.map K.hyphenated) ++
      optParam "verify_chain" (if q.verifyChain then some "true" else none))

theorem asks_queryAuditPath (q : AuditQuery) : Asks (queryAuditPath K W q) (q.params K W) := by
  have h := (((((asks_limit (String.ofList (Nat.toDigits 10 q.limit.toNat))).addParam "op"
    (q.op.map W.enc)).addParam "handle" (q.handle.map W.enc)).addParam "outcome"
    (q.outcome.map W.enc)).addParam "session_id" (q.sessionId.map K.hyphenated)).addParam
    "verify_chain" (if q.verifyChain then some "true" else none)
  simpa [queryAuditPath, AuditQuery.params] using h

theorem Asks.queryPart_eq {path : String} {params : List Param} (h : Asks path params) :
    queryPart path = render (params.map Param.chars) := by
  rw [queryPart, h.path]
  simp

/-- The keys that the client writes. -/
def paramKeys : List String := ["limit", "op", "handle", "outcome", "session_id", "verify_chain"]

/-- A key of the client, and a value without separators. -/
structure Param.Written (p : Param) : Prop where
  key : p.1 ∈ paramKeys
  value : '&' ∉ p.2.toList

/-- A text whose characters pass the test. -/
theorem plainText {s : String} (h : s.toList.all (IsPlainChar ·) = true) : ∀ c ∈ s.toList, IsPlainChar c :=
  fun c hc => of_decide_eq_true (List.all_eq_true.mp h c hc)

theorem paramKeys_plain : ∀ key ∈ paramKeys, ∀ c ∈ key.toList, IsPlainChar c := by
  have hall : paramKeys.all (fun key => key.toList.all (IsPlainChar ·)) = true := by decide
  exact fun key hkey => plainText (List.all_eq_true.mp hall key hkey)

theorem Param.Written.plain {p : Param} (h : p.Written) : Plain p.chars where
  key := fun hc => absurd (paramKeys_plain p.1 h.key _ hc) (by decide)
  equals := fun hc => absurd (paramKeys_plain p.1 h.key _ hc) (by decide)
  value := h.value

theorem written_optParam {key : String} (hkey : key ∈ paramKeys) {value : Option String}
    (h : ∀ text, value = some text → '&' ∉ text.toList) : ∀ p ∈ optParam key value, Param.Written p := by
  intro p hp
  obtain ⟨text, htext, rfl⟩ := Option.map_eq_some_iff.mp (Option.mem_toList.mp hp)
  exact ⟨hkey, h text htext⟩

theorem enc_separator (hW : W.Lawful K) (s : String) : '&' ∉ (W.enc s).toList := by
  intro h
  exact absurd (hW.enc_chars s '&' h) (by decide)

theorem digits_plain (n : ℕ) : ∀ c ∈ Nat.toDigits 10 n, IsPlainChar c := by
  intro c hc
  have hdigit := isDigit_of_mem_toDigits hc
  exact .inl (by simp [Char.isAlphanum, hdigit])

theorem params_written (hW : W.Lawful K) (q : AuditQuery) : ∀ p ∈ q.params K W, Param.Written p := by
  have henc : ∀ (o : Option String) text, o.map W.enc = some text → '&' ∉ text.toList := by
    intro o text h
    obtain ⟨s, -, rfl⟩ := Option.map_eq_some_iff.mp h
    exact enc_separator hW s
  have huuid : ∀ text, q.sessionId.map K.hyphenated = some text → '&' ∉ text.toList := by
    intro text h
    obtain ⟨u, -, rfl⟩ := Option.map_eq_some_iff.mp h
    exact fun hc => absurd (hW.hyphenated_chars u '&' hc) (by decide)
  have hchain : ∀ text, (if q.verifyChain then some "true" else none) = some text →
      '&' ∉ text.toList := by
    intro text h
    split_ifs at h
    obtain rfl := Option.some.inj h
    decide
  have hlimit : Param.Written ("limit", String.ofList (Nat.toDigits 10 q.limit.toNat)) := by
    refine ⟨List.mem_cons_self, fun hc => ?_⟩
    rw [String.toList_ofList] at hc
    exact absurd (digits_plain _ _ hc) (by decide)
  simp only [AuditQuery.params, List.forall_mem_cons, List.forall_mem_append]
  exact ⟨hlimit, ⟨⟨⟨written_optParam (by decide) (henc _), written_optParam (by decide) (henc _)⟩,
    written_optParam (by decide) (henc _)⟩, written_optParam (by decide) huuid⟩,
    written_optParam (by decide) hchain⟩

/-- The parameters as the server decodes them. -/
def AuditQuery.decoded (K : Crates) (q : AuditQuery) : List Param :=
  ("limit", String.ofList (Nat.toDigits 10 q.limit.toNat)) ::
    (optParam "op" q.op ++ optParam "handle" q.handle ++ optParam "outcome" q.outcome ++
      optParam "session_id" (q.sessionId.map K.hyphenated) ++
      optParam "verify_chain" (if q.verifyChain then some "true" else none))

theorem decode_optParam (hW : W.Lawful K) {key : String} (hkey : key ∈ paramKeys)
    {value decoded : Option String} (h : value.map W.decode = decoded) :
    (optParam key value).map (Prod.map W.decode W.decode) = optParam key decoded := by
  have hdecode : W.decode key = key := hW.decode_plain key (paramKeys_plain key hkey)
  subst h
  cases value with
  | none => rfl
  | some text => simp [optParam, hdecode]

/-- **The server decodes what the client wrote.** -/
theorem params_decoded (hW : W.Lawful K) (q : AuditQuery) :
    (q.params K W).map (Prod.map W.decode W.decode) = q.decoded K := by
  have henc : ∀ o : Option String, (o.map W.enc).map W.decode = o := by
    intro o
    rw [Option.map_map, show W.decode ∘ W.enc = id from funext hW.decode_enc, Option.map_id, id]
  have huuid : (q.sessionId.map K.hyphenated).map W.decode = q.sessionId.map K.hyphenated := by
    have hplain : W.decode ∘ K.hyphenated = K.hyphenated := funext fun u =>
      hW.decode_plain _ fun c hc => (hW.hyphenated_chars u c hc).imp_right .inl
    rw [Option.map_map, hplain]
  have hchain : (if q.verifyChain then some "true" else none).map W.decode =
      if q.verifyChain then some "true" else none := by
    split_ifs
    · exact congrArg some (hW.decode_plain "true" (plainText (by decide)))
    · rfl
  have hlimit : W.decode "limit" = "limit" := hW.decode_plain _ (plainText (by decide))
  have hdigits : W.decode (String.ofList (Nat.toDigits 10 q.limit.toNat)) =
      String.ofList (Nat.toDigits 10 q.limit.toNat) := by
    refine hW.decode_plain _ fun c hc => digits_plain q.limit.toNat c ?_
    rwa [String.toList_ofList] at hc
  simp only [AuditQuery.params, AuditQuery.decoded, List.map_cons, List.map_append, Prod.map_apply,
    hlimit, hdigits]
  rw [decode_optParam hW (by decide) (henc _), decode_optParam hW (by decide) (henc _),
    decode_optParam hW (by decide) (henc _), decode_optParam hW (by decide) huuid,
    decode_optParam hW (by decide) hchain]

theorem afterPlus_toDigits (n : ℕ) : afterPlus (Nat.toDigits 10 n) = Nat.toDigits 10 n := by
  unfold afterPlus
  split
  · next rest h =>
    have hdigit := isDigit_of_mem_toDigits (n := n) (c := '+') (by rw [h]; exact List.mem_cons_self)
    exact absurd hdigit (by decide)
  · rfl

theorem parseU32_toDigits (n : UInt32) : parseU32 (String.ofList (Nat.toDigits 10 n.toNat)) = some n := by
  have hdigits : ∀ c ∈ Nat.toDigits 10 n.toNat, c.isDigit = true := fun c hc =>
    isDigit_of_mem_toDigits hc
  have hvalue : Nat.ofDigitChars 10 (Nat.toDigits 10 n.toNat) 0 = n.toNat := by simp
  have hlt := n.toNat_lt
  unfold parseU32
  simp only [String.toList_ofList, afterPlus_toDigits]
  rw [hvalue, if_pos ⟨Nat.toDigits_ne_nil, hdigits, hlt⟩, UInt32.ofNat_toNat]

theorem foldlM_ok {α β ε : Type} {f : β → α → Except ε β} {l l' : List α} {a b c : β}
    (h : l.foldlM f a = .ok b) (h' : l'.foldlM f b = .ok c) : (l ++ l').foldlM f a = .ok c := by
  rw [List.foldlM_append, h]
  exact h'

theorem readField_ok {key : String} {value : Option String} {f g : Fields}
    (hnone : value = none → g = f)
    (hsome : ∀ text, value = some text → readField R W f (key, text) = .ok g) :
    (optParam key value).foldlM (readField R W) f = .ok g := by
  cases value with
  | none => exact congrArg Except.ok (hnone rfl).symm
  | some text =>
    rw [optParam, Option.map_some, Option.toList_some, List.foldlM_cons, hsome text rfl]
    rfl

/-- The fields that the decoded parameters fill. -/
theorem decoded_fields (hR : R.Lawful K) (q : AuditQuery) :
    (q.decoded K).foldlM (readField R W) Fields.empty = .ok {
      Fields.empty with
      limit := some q.limit
      op := q.op
      handle := q.handle
      outcome := q.outcome
      sessionId := q.sessionId
      verifyChain := if q.verifyChain then some true else none } := by
  have hlimit : readField R W Fields.empty ("limit", String.ofList (Nat.toDigits 10 q.limit.toNat)) =
      .ok { Fields.empty with limit := some q.limit } := by
    simp only [readField, readOnce, Fields.empty, parseU32_toDigits]
    rfl
  let f₁ : Fields := { Fields.empty with limit := some q.limit }
  let f₂ : Fields := { f₁ with op := q.op }
  let f₃ : Fields := { f₂ with handle := q.handle }
  let f₄ : Fields := { f₃ with outcome := q.outcome }
  let f₅ : Fields := { f₄ with sessionId := q.sessionId }
  let f₆ : Fields := { f₅ with verifyChain := if q.verifyChain then some true else none }
  have hop : (optParam "op" q.op).foldlM (readField R W) f₁ = .ok f₂ :=
    readField_ok (fun h => by simp only [f₂, h]; rfl) (fun text h => by simp only [f₂, h]; rfl)
  have hhandle : (optParam "handle" q.handle).foldlM (readField R W) f₂ = .ok f₃ :=
    readField_ok (fun h => by simp only [f₃, h]; rfl) (fun text h => by simp only [f₃, h]; rfl)
  have houtcome : (optParam "outcome" q.outcome).foldlM (readField R W) f₃ = .ok f₄ :=
    readField_ok (fun h => by simp only [f₄, h]; rfl) (fun text h => by simp only [f₄, h]; rfl)
  have hsession : (optParam "session_id" (q.sessionId.map K.hyphenated)).foldlM (readField R W) f₄ =
      .ok f₅ := by
    refine readField_ok (fun h => ?_) (fun text h => ?_)
    · rw [Option.map_eq_none_iff] at h
      simp only [f₅, h]
      rfl
    · obtain ⟨u, hu, rfl⟩ := Option.map_eq_some_iff.mp h
      have hread : readOnce "session_id" R.parseUuid f₄.sessionId (K.hyphenated u) = .ok (some u) := by
        simp only [readOnce, hR.parseUuid_hyphenated]
        rfl
      simp only [readField, hread, f₅, hu]
      rfl
  have hchain : (optParam "verify_chain" (if q.verifyChain then some "true" else none)).foldlM
      (readField R W) f₅ = .ok f₆ := by
    cases h : q.verifyChain with
    | true => exact readField_ok nofun (fun text ht => by simp only [f₆, h, ← Option.some.inj ht]; rfl)
    | false => exact readField_ok (fun _ => by simp only [f₆, h]; rfl) nofun
  rw [AuditQuery.decoded, List.foldlM_cons, hlimit]
  exact foldlM_ok (foldlM_ok (foldlM_ok (foldlM_ok hop hhandle) houtcome) hsession) hchain

/-- **The server reads the query that the client wrote**, times apart. -/
theorem deserialize_queryAuditPath (hR : R.Lawful K) (hW : W.Lawful K) (q : AuditQuery) :
    deserialize R W (queryAuditPath K W q) = .ok { q with since := none, until_ := none } := by
  have hpairs : parse (fun cs => W.decode (String.ofList cs)) (queryPart (queryAuditPath K W q)) =
      q.decoded K := by
    have hne : (q.params K W).map Param.chars ≠ [] := by simp [AuditQuery.params]
    have hplain : ∀ p ∈ (q.params K W).map Param.chars, Plain p :=
      List.forall_mem_map.mpr fun p hp => (params_written hW q p hp).plain
    rw [(asks_queryAuditPath q).queryPart_eq, parse_render _ hne hplain, List.map_map,
      ← params_decoded hW q]
    refine List.map_congr_left fun p _ => ?_
    simp [Param.chars, Prod.map]
  have hchain : (if q.verifyChain then some true else none).getD false = q.verifyChain := by
    cases q.verifyChain <;> rfl
  unfold deserialize
  simp only [hpairs, decoded_fields hR q]
  exact congrArg Except.ok (by simp only [Fields.query, Fields.empty, Option.getD_some, hchain])

/-! ### What the server selects -/

/-- The entry passes every filter of the query that names a handle, an operation or an outcome. -/
def AuditQuery.selects (q : AuditQuery) (e : AuditEntry) : Bool :=
  (q.handle.bind Handle.fromStr).all (fun handle => e.handle = some handle) &&
    (q.op.bind AuditOp.fromStr).all (fun op => e.op = op) &&
    (q.outcome.bind AuditOutcome.fromStr).all fun outcome => e.outcome = outcome

theorem toDomainQuery_accepts {q : AuditQuery} (hsince : q.since = none) (huntil : q.until_ = none)
    (e : AuditEntry) : (toDomainQuery R W q).accepts e = q.selects e := by
  simp only [toDomainQuery, Sqlite.AuditQueries.AuditQuery.accepts, AuditQuery.selects, hsince, huntil,
    Option.bind_none, Option.all_none, Bool.and_true]
  ac_rfl

/-- The entries of a query without bounds. -/
theorem readAudit_toDomainQuery (hR : R.Lawful K) (hK : Renders K)
    {ws : List (AuditEntry × PinnedHead)} (hs : ∀ w ∈ ws, Printable w.1) {t : AuditTables}
    (ht : AuditTables.empty.commitAll K ws = .ok t) {q : AuditQuery} (hsince : q.since = none)
    (huntil : q.until_ = none) {entries : List AuditEntry}
    (hentries : readAllEntries K R t = .ok entries) :
    readAudit K R t (toDomainQuery R W q) = .ok ((entries.filter q.selects).take q.limit.toNat) := by
  have hfrom : (toDomainQuery R W q).from_ = none := by simp [toDomainQuery, hsince]
  have hto : (toDomainQuery R W q).to_ = none := by simp [toDomainQuery, huntil]
  have hyears : (toDomainQuery R W q).InYears := by
    constructor
    · intro t h
      rw [hfrom] at h
      cases h
    · intro t h
      rw [hto] at h
      cases h
  have hrounded : (toDomainQuery R W q).rounded = toDomainQuery R W q := by
    simp only [Sqlite.AuditQueries.AuditQuery.rounded, toDomainQuery, hsince, Option.bind_none,
      Option.map_none]
  rw [readAudit_eq hR hK hs ht hyears hentries, hrounded, execute]
  show Except.ok (((entries.filter (toDomainQuery R W q).accepts)).take q.limit.toNat) = _
  rw [funext (toDomainQuery_accepts (R := R) (W := W) hsince huntil)]

/-- An answer holds what `read_audit` returned. -/
theorem queryAudit_entries {vault : VaultView} {filter : DomainAuditQuery} {verifyChain : Bool}
    {now : Rfc3339Timestamp} {out : QueryAuditOutput}
    (h : queryAudit K R vault filter verifyChain now = .ok out) :
    readAudit K R vault.tables filter = .ok out.entries := by
  unfold queryAudit at h
  cases hu : vault.unsealed with
  | false => simp [hu, throw, throwThe, MonadExceptOf.throw, bind, Except.bind] at h
  | true =>
    cases hread : readAudit K R vault.tables filter with
    | error e => simp [hu, hread, Except.mapError, bind, Except.bind] at h
    | ok entries =>
      simp only [hu, hread, Except.mapError, bind, Except.bind, pure, Except.pure, Bool.not_true,
        Bool.false_eq_true, if_false] at h
      refine congrArg Except.ok ?_
      split_ifs at h
      · split at h
        · cases h
        split at h
        · cases h
        split at h
        · cases h
        · rw [← Except.ok.inj h]
      · rw [← Except.ok.inj h]

/-- The tables of an unsealed vault. -/
def openVault (t : AuditTables) : VaultView := ⟨true, none, t⟩

theorem queryAudit_open {t : AuditTables} {filter : DomainAuditQuery} {entries : List AuditEntry}
    {verifyChain : Bool} (hread : readAudit K R t filter = .ok entries)
    (hverify : verifyChain = false) (now : Rfc3339Timestamp) :
    queryAudit K R (openVault t) filter verifyChain now = .ok ⟨entries, none⟩ := by
  subst hverify
  simp only [queryAudit, openVault, hread]
  rfl

/-- The answer to a query of the client that asks for no verdict: the bounds never arrive. -/
theorem handleQueryAudit_open (hR : R.Lawful K) (hK : Renders K) (hW : W.Lawful K)
    {ws : List (AuditEntry × PinnedHead)} (hs : ∀ w ∈ ws, Printable w.1) {t : AuditTables}
    (ht : AuditTables.empty.commitAll K ws = .ok t) {entries : List AuditEntry}
    (hentries : readAllEntries K R t = .ok entries) {q : AuditQuery} (hverify : q.verifyChain = false)
    (now : Rfc3339Timestamp) :
    handleQueryAudit K R W (openVault t) (queryAuditPath K W q) now =
      .ok (.ok ⟨(entries.filter q.selects).take q.limit.toNat, none⟩) := by
  have hread := readAudit_toDomainQuery (W := W) (q := { q with since := none, until_ := none })
    hR hK hs ht rfl rfl hentries
  unfold handleQueryAudit
  rw [deserialize_queryAuditPath hR hW q]
  exact congrArg Except.ok (queryAudit_open hread hverify now)

/-- **Audit filters over the socket.**  For a query without time bounds the server reads what the
client was given, and selects the first entries that pass every filter that names a handle, an
operation or an outcome. -/
theorem queryAudit_selects (K : Crates) (R : Readers) (W : QueryCrates) (hR : R.Lawful K)
    (hK : Renders K) (hW : W.Lawful K) (ws : List (AuditEntry × PinnedHead))
    (hs : ∀ w ∈ ws, Printable w.1) (t : AuditTables) (ht : AuditTables.empty.commitAll K ws = .ok t)
    (q : AuditQuery) (hsince : q.since = none) (huntil : q.until_ = none) :
    deserialize R W (queryAuditPath K W q) = .ok q ∧ ∃ entries, readAllEntries K R t = .ok entries ∧
      readAudit K R t (toDomainQuery R W q) = .ok ((entries.filter q.selects).take q.limit.toNat) ∧
      ∀ vault now out, vault.tables = t →
        handleQueryAudit K R W vault (queryAuditPath K W q) now = .ok (.ok out) →
        out.entries = (entries.filter q.selects).take q.limit.toNat := by
  have hparams : deserialize R W (queryAuditPath K W q) = .ok q := by
    rw [deserialize_queryAuditPath hR hW q]
    cases q
    cases hsince
    cases huntil
    rfl
  have hentries := readAllEntries_commitAll hR hs ht
  have hread := readAudit_toDomainQuery (W := W) hR hK hs ht hsince huntil hentries
  refine ⟨hparams, _, hentries, hread, ?_⟩
  rintro vault now out rfl hout
  have hquery : queryAudit K R vault (toDomainQuery R W q) q.verifyChain now = .ok out := by
    unfold handleQueryAudit at hout
    rw [hparams] at hout
    exact Except.ok.inj hout
  exact Except.ok.inj ((queryAudit_entries hquery).symm.trans hread)

end Query

/-! ### A query, and two filters that are lost -/

/-- Percent-encoding as it is; the texts of times do not matter here. -/
def sampleQueryCrates : QueryCrates where
  enc := encodeText
  decode := decodeText
  parseDateTime := fun _ => none
  toRfc3339 := timeText

theorem hexDigit_alphanum : ∀ n < 16, (hexDigit n).isAlphanum = true := by decide

theorem mem_hexBytes {bytes : List UInt8} {c : Char} (h : c ∈ hexBytes bytes) :
    c.isAlphanum = true := by
  obtain ⟨b, -, hc⟩ := List.mem_flatMap.mp h
  have hb := b.toNat_lt
  simp only [List.mem_cons, List.not_mem_nil, or_false] at hc
  rcases hc with rfl | rfl <;> exact hexDigit_alphanum _ (by omega)

theorem uuidText_chars (u : Uuid) : ∀ c ∈ (uuidText u).toList, c.isAlphanum = true ∨ c = '-' := by
  intro c hc
  rw [uuidText, String.toList_ofList] at hc
  simp only [uuidChars, List.mem_append, List.mem_cons] at hc
  rcases hc with h | h | h | h | h | h | h | h | h
  all_goals first | exact .inl (mem_hexBytes h) | exact .inr h

theorem plainChar_code : ∀ c : Char, IsPlainChar c → c.toNat < 128 ∧ c ≠ '%' ∧ c ≠ '+' := by
  intro c h
  have hplus : ∀ d : Char, ¬IsPlainChar d → c ≠ d := by
    rintro d hd rfl
    exact hd h
  refine ⟨?_, hplus '%' (by decide), hplus '+' (by decide)⟩
  rcases h with h | rfl | rfl
  · simp only [Char.isAlphanum, Char.isAlpha, Char.isUpper, Char.isLower, Char.isDigit,
      Bool.or_eq_true, Bool.and_eq_true, decide_eq_true_eq, UInt32.le_iff_toNat_le] at h
    show c.val.toNat < 128
    have hupper : 'Z'.val.toNat = 90 := rfl
    have hlower : 'z'.val.toNat = 122 := rfl
    have hdigit : '9'.val.toNat = 57 := rfl
    omega
  · decide
  · decide

theorem sampleQueryCrates_lawful : sampleQueryCrates.Lawful printingCrates where
  decode_enc := decodeText_encodeText
  enc_chars := by
    intro s c hc
    rw [show sampleQueryCrates.enc s = encodeText s from rfl, encodeText, String.toList_ofList] at hc
    exact mem_percentEncode hc
  decode_plain := by
    intro s h
    exact decodeText_plain (fun c hc => (plainChar_code c (h c hc)).1)
      (fun hc => (plainChar_code _ (h _ hc)).2.1 rfl) (fun hc => (plainChar_code _ (h _ hc)).2.2 rfl)
  hyphenated_chars := uuidText_chars

/-- A query of one operation. -/
def queryOf (op : Option String) (since : Option Rfc3339Timestamp) : AuditQuery where
  handle := none
  op := op
  since := since
  until_ := none
  sessionId := none
  outcome := none
  verifyChain := false
  limit := defaultLimit

/-- The handle that is asked for. -/
def loggedHandle : Handle := ⟨sampleLabel, .database, sampleSecretName⟩

/-- A handle of the same name in another category. -/
def otherHandle : Handle := ⟨sampleLabel, .sshKey, sampleSecretName⟩

/-- An entry of the log, by its number. -/
def loggedEntry (n : UInt8) (op : AuditOp) (handle : Handle) : AuditEntry :=
  { boundaryEntry with
    id := ⟨Vector.replicate 16 (0x70 + n)⟩
    seq := n.toUInt64
    op := op
    handle := some handle
    currentHash := ⟨Vector.replicate 32 n⟩ }

/-- Three reveals of the handle, and two entries that are not. -/
def loggedEntries : List AuditEntry :=
  [loggedEntry 1 .reveal loggedHandle, loggedEntry 2 .put loggedHandle,
    loggedEntry 3 .reveal otherHandle, loggedEntry 4 .reveal loggedHandle,
    loggedEntry 5 .reveal loggedHandle]

/-- The commits of these entries. -/
def loggedWrites : List (AuditEntry × PinnedHead) :=
  loggedEntries.map fun e => (e, PinnedHead.new e.currentHash e.seq e.id epoch)

theorem logged_printable : ∀ w ∈ loggedWrites, Printable w.1 := by
  intro w hw
  obtain ⟨e, he, rfl⟩ := List.mem_map.mp hw
  have hids : ∀ e ∈ loggedEntries,
      versionNum e.id.inner = 7 ∧ versionNum e.namespaceId.inner = 7 ∧ e.ts = epoch := by decide
  obtain ⟨hid, hnamespace, hts⟩ := hids e he
  exact ⟨hid, hnamespace, hts ▸ fourDigitYear_epoch⟩

theorem logged_committed : ∃ t, AuditTables.empty.commitAll printingCrates loggedWrites = .ok t := by
  have hapart : loggedEntries.Pairwise fun e f => e.id.inner.toList ≠ f.id.inner.toList ∧
      toI64 e.seq ≠ toI64 f.seq ∧ e.currentHash ≠ f.currentHash := by decide
  refine (exists_commitAll_iff List.Pairwise.nil).mpr ?_
  show (entryRows printingCrates loggedWrites).Pairwise Apart
  rw [entryRows, loggedWrites, List.pairwise_map, List.pairwise_map]
  refine hapart.imp ?_
  rintro e f ⟨hid, hseq, hhash⟩
  exact ⟨hid, hseq, fun heq => hhash (displayHash_injective heq)⟩

theorem logged_read {t : AuditTables}
    (ht : AuditTables.empty.commitAll printingCrates loggedWrites = .ok t) :
    readAllEntries printingCrates (.inverse printingCrates) t = .ok loggedEntries := by
  have hentries : loggedWrites.map (·.1) = loggedEntries := by
    simp only [loggedWrites, List.map_map, Function.comp_def, List.map_id']
  have hsorted : sorted loggedEntries = loggedEntries :=
    List.mergeSort_of_pairwise (by decide)
  rw [readAllEntries_commitAll printing_lawful logged_printable ht, hentries, hsorted]
  decide

/-- At most two reveals of the handle; the outcome names none, with characters that a query uses. -/
def revealQuery : AuditQuery where
  handle := some loggedHandle.display
  op := some "reveal"
  since := none
  until_ := none
  sessionId := some (Vector.replicate 16 0x70)
  outcome := some "allow&limit=0#"
  verifyChain := false
  limit := 2

theorem revealQuery_selects (e : AuditEntry) :
    revealQuery.selects e = (decide (e.handle = some loggedHandle) && decide (e.op = .reveal)) := by
  have hhandle : revealQuery.handle.bind Handle.fromStr = some loggedHandle :=
    Handle.fromStr_display loggedHandle
  have hop : revealQuery.op.bind AuditOp.fromStr = some .reveal := rfl
  have houtcome : revealQuery.outcome.bind AuditOutcome.fromStr = none := by decide
  simp only [AuditQuery.selects, hhandle, hop, houtcome, Option.all_some, Option.all_none,
    Bool.and_true]

/-- The server reads the query as it was meant, and answers the first two reveals of the handle. -/
theorem reveal_query_selects : ∃ t,
    AuditTables.empty.commitAll printingCrates loggedWrites = .ok t ∧
    deserialize (.inverse printingCrates) sampleQueryCrates
      (queryAuditPath printingCrates sampleQueryCrates revealQuery) = .ok revealQuery ∧
    readAudit printingCrates (.inverse printingCrates) t
      (toDomainQuery (.inverse printingCrates) sampleQueryCrates revealQuery) =
      .ok [loggedEntry 1 .reveal loggedHandle, loggedEntry 4 .reveal loggedHandle] := by
  obtain ⟨t, ht⟩ := logged_committed
  obtain ⟨hparams, entries, hentries, hread, -⟩ := queryAudit_selects printingCrates
    (.inverse printingCrates) sampleQueryCrates printing_lawful printing_renders
    sampleQueryCrates_lawful loggedWrites logged_printable t ht revealQuery rfl rfl
  obtain rfl := Except.ok.inj (hentries.symm.trans (logged_read ht))
  refine ⟨t, ht, hparams, hread.trans (congrArg Except.ok ?_)⟩
  rw [funext revealQuery_selects]
  decide

/-- A second after the epoch. -/
def laterTime : Rfc3339Timestamp := .ofSeconds 1

/-- Two requests of the client that select the entry at the epoch: one filters by a text that names
no operation, one asks for later entries. -/
theorem filters_lost : ∃ t,
    AuditTables.empty.commitAll printingCrates [(boundaryEntry, boundaryHead)] = .ok t ∧
    readAllEntries printingCrates (.inverse printingCrates) t = .ok [boundaryEntry] ∧
    AuditOp.fromStr "not-an-op" = none ∧ boundaryEntry.ts.lt laterTime = true ∧
    ∀ q ∈ [queryOf (some "not-an-op") none, queryOf none (some laterTime)],
      handleQueryAudit printingCrates (.inverse printingCrates) sampleQueryCrates (openVault t)
        (queryAuditPath printingCrates sampleQueryCrates q) epoch = .ok (.ok ⟨[boundaryEntry], none⟩) := by
  obtain ⟨t, ht⟩ := boundary_committed
  have hentries : readAllEntries printingCrates (.inverse printingCrates) t = .ok [boundaryEntry] := by
    rw [readAllEntries_commitAll printing_lawful boundary_printable ht]
    simp only [List.map_cons, List.map_nil, sorted, List.mergeSort_singleton]
    decide
  have hanswer : ∀ q : AuditQuery, q.verifyChain = false → q.limit = defaultLimit →
      q.selects boundaryEntry = true → handleQueryAudit printingCrates (.inverse printingCrates)
        sampleQueryCrates (openVault t) (queryAuditPath printingCrates sampleQueryCrates q) epoch =
        .ok (.ok ⟨[boundaryEntry], none⟩) := by
    intro q hverify hlimit hselects
    rw [handleQueryAudit_open printing_lawful printing_renders sampleQueryCrates_lawful
      boundary_printable ht hentries hverify epoch, hlimit, List.filter_cons_of_pos hselects]
    rfl
  refine ⟨t, ht, hentries, rfl, by decide, ?_⟩
  intro q hq
  simp only [List.mem_cons, List.not_mem_nil, or_false] at hq
  rcases hq with rfl | rfl
  · exact hanswer _ rfl rfl (by decide)
  · exact hanswer _ rfl rfl (by decide)

end MerkleVault.Socket.AuditQueries
