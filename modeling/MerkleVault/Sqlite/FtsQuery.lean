import MerkleVault.Types
import Mathlib

/-!
# Sanitized Search Expressions

`sanitize_fts5_query` walks an expression of FTS5 and puts bare tokens with a hyphen in double quotes.
Quoted spans and separators are copied, and so is a bare token with a quote of its own: its quotes open
and close phrases that the walk does not see.

The walk cuts the expression into pieces and writes each of them on its own.  Written pieces have as
many quotes as the pieces up to an even number, so whether a hyphen stands in a phrase is decided by
the quotes before it in the expression, and by whether it is one of those that were wrapped.

* `sanitizeFrom_eq`: the output is written piece by piece;
* `sanitizeFrom_idem`: a second walk changes nothing;
* `sanitize_protects_iff`: when every hyphen of the output stands in a phrase.
-/

namespace MerkleVault.Sqlite.FtsQuery

open MerkleVault.Types

/-! ### The walk -/

/-- Whitespace or one of `:`, `(` and `)`. -/
def isSeparator (c : Char) : Bool := isWhiteSpace c || c = ':' || c = '(' || c = ')'

/-- A quoted span after its first quote, up to the quote that closes it, and what follows. -/
def quotedSpan : List Char → List Char × List Char
  | [] => ([], [])
  | '"' :: '"' :: cs => ('"' :: '"' :: (quotedSpan cs).1, (quotedSpan cs).2)
  | '"' :: cs => (['"'], cs)
  | c :: cs => (c :: (quotedSpan cs).1, (quotedSpan cs).2)

/-- The characters up to a separator. -/
def bareToken (cs : List Char) : List Char := cs.takeWhile fun c => !isSeparator c

/-- The rest from that separator on. -/
def afterToken (cs : List Char) : List Char := cs.dropWhile fun c => !isSeparator c

/-- A bare token in quotes when it has a hyphen and no quote. -/
def wrap (token : List Char) : List Char :=
  if '-' ∈ token ∧ '"' ∉ token then '"' :: (token ++ ['"']) else token

theorem length_quotedSpan (cs : List Char) : (quotedSpan cs).2.length ≤ cs.length := by
  fun_induction quotedSpan cs with
  | case1 => exact Nat.le_refl _
  | case2 cs ih =>
    simp only [List.length_cons]
    omega
  | case3 cs => simp
  | case4 c cs _ _ ih =>
    simp only [List.length_cons]
    omega

theorem length_afterToken {c : Char} (cs : List Char) (h : isSeparator c = false) :
    (afterToken (c :: cs)).length < (c :: cs).length := by
  have hle := (List.dropWhile_suffix (l := cs) fun c => !isSeparator c).length_le
  unfold afterToken
  rw [List.dropWhile_cons_of_pos (by rw [h]; rfl), List.length_cons]
  omega

/-- The loop of `sanitize_fts5_query`, on what is left of the expression. -/
def sanitizeFrom : List Char → List Char
  | [] => []
  | first :: rest =>
    if isSeparator first then first :: sanitizeFrom rest
    else if first = '"' then '"' :: ((quotedSpan rest).1 ++ sanitizeFrom (quotedSpan rest).2)
    else wrap (bareToken (first :: rest)) ++ sanitizeFrom (afterToken (first :: rest))
termination_by cs => cs.length
decreasing_by
  · simp
  · have := length_quotedSpan rest
    simp only [List.length_cons]
    omega
  · exact length_afterToken rest (by simpa using ‹¬isSeparator first = true›)

theorem sanitizeFrom_nil : sanitizeFrom [] = [] := by
  rw [sanitizeFrom.eq_def]

theorem sanitizeFrom_cons (first : Char) (rest : List Char) : sanitizeFrom (first :: rest) =
    if isSeparator first then first :: sanitizeFrom rest
    else if first = '"' then '"' :: ((quotedSpan rest).1 ++ sanitizeFrom (quotedSpan rest).2)
    else wrap (bareToken (first :: rest)) ++ sanitizeFrom (afterToken (first :: rest)) := by
  rw [sanitizeFrom.eq_def]

/-- `sanitize_fts5_query`. -/
def sanitizeFts5Query (query : String) : String := String.ofList (sanitizeFrom query.toList)

/-! ### Pieces -/

/-- What the walk cuts the expression into. -/
inductive Piece
  | separator (c : Char)
  | quoted (span : List Char)
  | bare (token : List Char)

/-- The piece as it stands in the expression. -/
def Piece.text : Piece → List Char
  | separator c => [c]
  | quoted span => '"' :: span
  | bare token => token

/-- The piece as it is written. -/
def Piece.written : Piece → List Char
  | separator c => [c]
  | quoted span => '"' :: span
  | bare token => wrap token

/-- The query cut into separators, quoted spans and bare tokens. -/
def pieces : List Char → List Piece
  | [] => []
  | first :: rest =>
    if isSeparator first then .separator first :: pieces rest
    else if first = '"' then .quoted (quotedSpan rest).1 :: pieces (quotedSpan rest).2
    else .bare (bareToken (first :: rest)) :: pieces (afterToken (first :: rest))
termination_by cs => cs.length
decreasing_by
  · simp
  · have := length_quotedSpan rest
    simp only [List.length_cons]
    omega
  · exact length_afterToken rest (by simpa using ‹¬isSeparator first = true›)

/-- **The output is written piece by piece.** -/
theorem sanitizeFrom_eq (cs : List Char) : sanitizeFrom cs = (pieces cs).flatMap Piece.written := by
  fun_induction pieces cs with
  | case1 => exact sanitizeFrom_nil
  | case2 first rest h ih =>
    rw [sanitizeFrom_cons, if_pos h, ih]
    rfl
  | case3 rest h ih =>
    rw [sanitizeFrom_cons, if_neg h, if_pos rfl, ih]
    rfl
  | case4 first rest h hquote ih =>
    rw [sanitizeFrom_cons, if_neg h, if_neg hquote, ih]
    rfl

theorem quotedSpan_append (cs : List Char) : (quotedSpan cs).1 ++ (quotedSpan cs).2 = cs := by
  fun_induction quotedSpan cs with
  | case1 => rfl
  | case2 cs ih => rw [List.cons_append, List.cons_append, ih]
  | case3 cs => rfl
  | case4 c cs _ _ ih => rw [List.cons_append, ih]

theorem bareToken_append (cs : List Char) : bareToken cs ++ afterToken cs = cs :=
  List.takeWhile_append_dropWhile

/-- The pieces make up the expression. -/
theorem pieces_text (cs : List Char) : (pieces cs).flatMap Piece.text = cs := by
  fun_induction pieces cs with
  | case1 => rfl
  | case2 first rest h ih =>
    rw [List.flatMap_cons, ih]
    rfl
  | case3 rest h ih =>
    rw [List.flatMap_cons, ih, Piece.text, List.cons_append, quotedSpan_append]
  | case4 first rest h hquote ih => rw [List.flatMap_cons, ih, Piece.text, bareToken_append]

/-! ### Quoted spans -/

/-- The inside of a phrase: its quotes come doubled. -/
inductive QuotedBody : List Char → Prop
  | nil : QuotedBody []
  | pair {body : List Char} : QuotedBody body → QuotedBody ('"' :: '"' :: body)
  | char {c : Char} {body : List Char} : c ≠ '"' → QuotedBody body → QuotedBody (c :: body)

theorem quotedBody_of_notMem {body : List Char} (h : '"' ∉ body) : QuotedBody body := by
  induction body with
  | nil => exact .nil
  | cons c body ih =>
    rw [List.mem_cons, not_or] at h
    exact .char (Ne.symm h.1) (ih h.2)

theorem QuotedBody.append {body body' : List Char} (h : QuotedBody body) (h' : QuotedBody body') :
    QuotedBody (body ++ body') := by
  induction h with
  | nil => exact h'
  | pair _ ih => exact .pair ih
  | char hc _ ih => exact .char hc ih

/-- The text does not go on with a quote. -/
def NoQuoteNext (cs : List Char) : Prop := cs.head? ≠ some '"'

/-- A span is closed by a quote that is not doubled, or it is all that is left. -/
theorem quotedSpan_cases (cs : List Char) :
    (∃ body, QuotedBody body ∧ (quotedSpan cs).1 = body ++ ['"'] ∧ NoQuoteNext (quotedSpan cs).2) ∨
      QuotedBody (quotedSpan cs).1 ∧ (quotedSpan cs).2 = [] := by
  fun_induction quotedSpan cs with
  | case1 => exact .inr ⟨.nil, rfl⟩
  | case2 cs ih =>
    rcases ih with ⟨body, hbody, hspan, hnext⟩ | ⟨hbody, hrest⟩
    · exact .inl ⟨'"' :: '"' :: body, .pair hbody, by rw [hspan]; rfl, hnext⟩
    · exact .inr ⟨.pair hbody, hrest⟩
  | case3 cs hpair =>
    refine .inl ⟨[], .nil, rfl, fun h => ?_⟩
    obtain ⟨d, rest, rfl⟩ := List.exists_cons_of_ne_nil (l := cs) (by rintro rfl; simp at h)
    obtain rfl := Option.some.inj h
    exact hpair rest rfl
  | case4 c cs _ hchar ih =>
    have hc : c ≠ '"' := fun h => hchar h
    rcases ih with ⟨body, hbody, hspan, hnext⟩ | ⟨hbody, hrest⟩
    · exact .inl ⟨c :: body, .char hc hbody, by rw [hspan]; rfl, hnext⟩
    · exact .inr ⟨.char hc hbody, hrest⟩

theorem quotedSpan_char {c : Char} (hc : c ≠ '"') (cs : List Char) :
    quotedSpan (c :: cs) = (c :: (quotedSpan cs).1, (quotedSpan cs).2) := by
  rw [quotedSpan.eq_def]
  split
  · next h => cases h
  · next h => exact absurd (List.cons.inj h).1 hc
  · next h => exact absurd (List.cons.inj h).1 hc
  · next h =>
    obtain ⟨rfl, rfl⟩ := List.cons.inj h
    rfl

theorem quotedSpan_pair (cs : List Char) :
    quotedSpan ('"' :: '"' :: cs) = ('"' :: '"' :: (quotedSpan cs).1, (quotedSpan cs).2) := rfl

theorem quotedSpan_close {cs : List Char} (h : NoQuoteNext cs) : quotedSpan ('"' :: cs) = (['"'], cs) := by
  cases cs with
  | nil => rfl
  | cons c cs =>
    have hc : c ≠ '"' := by
      rintro rfl
      exact h rfl
    rw [quotedSpan.eq_def]
    split
    · next h => cases h
    · next h => exact absurd (List.cons.inj (List.cons.inj h).2).1 hc
    · next h => rw [(List.cons.inj h).2]
    · next hchar h => exact absurd (List.cons.inj h).1.symm hchar

/-- A span goes past the inside of a phrase. -/
theorem quotedSpan_body {body : List Char} (h : QuotedBody body) (cs : List Char) :
    quotedSpan (body ++ cs) = (body ++ (quotedSpan cs).1, (quotedSpan cs).2) := by
  induction h with
  | nil => rfl
  | pair _ ih => rw [List.cons_append, List.cons_append, quotedSpan_pair, ih]; rfl
  | char hc _ ih => rw [List.cons_append, quotedSpan_char hc, ih]; rfl

/-! ### The second walk -/

/-- The text ends, or goes on with a separator. -/
def Boundary (cs : List Char) : Prop := ∀ c, cs.head? = some c → isSeparator c = true

theorem Boundary.noQuoteNext {cs : List Char} (h : Boundary cs) : NoQuoteNext cs := by
  intro hquote
  exact absurd (h _ hquote) (by decide)

theorem boundary_afterToken (cs : List Char) : Boundary (afterToken cs) := by
  intro c hc
  have hhead := List.head?_dropWhile_not (fun c => !isSeparator c) cs
  rw [afterToken] at hc
  rw [hc] at hhead
  simpa using hhead

/-- The output starts with the separator that the expression starts with. -/
theorem boundary_sanitizeFrom {cs : List Char} (h : Boundary cs) : Boundary (sanitizeFrom cs) := by
  cases cs with
  | nil =>
    rw [sanitizeFrom_nil]
    exact h
  | cons c cs =>
    have hc : isSeparator c = true := h c rfl
    rw [sanitizeFrom_cons, if_pos hc]
    intro d hd
    obtain rfl := Option.some.inj hd
    exact hc

theorem sanitizeFrom_quote (cs : List Char) : sanitizeFrom ('"' :: cs) =
    '"' :: ((quotedSpan cs).1 ++ sanitizeFrom (quotedSpan cs).2) := by
  rw [sanitizeFrom_cons, if_neg (by decide), if_pos rfl]

/-- A phrase is copied. -/
theorem sanitizeFrom_phrase {body cs : List Char} (h : QuotedBody body) (hnext : NoQuoteNext cs) :
    sanitizeFrom ('"' :: (body ++ '"' :: cs)) = '"' :: (body ++ '"' :: sanitizeFrom cs) := by
  rw [sanitizeFrom_quote, quotedSpan_body h, quotedSpan_close hnext]
  simp

/-- A bare token is neither empty nor does it start with a quote or a separator. -/
theorem bareToken_cons {c : Char} (cs : List Char) (h : isSeparator c = false) :
    bareToken (c :: cs) = c :: bareToken cs := by
  unfold bareToken
  rw [List.takeWhile_cons_of_pos (by rw [h]; rfl)]

theorem bareToken_of_boundary {token cs : List Char} (htoken : ∀ c ∈ token, isSeparator c = false)
    (h : Boundary cs) : bareToken (token ++ cs) = token ∧ afterToken (token ++ cs) = cs := by
  have hall : ∀ c ∈ token, (!isSeparator c) = true := by
    intro c hc
    rw [htoken c hc]
    rfl
  have hstop : cs.takeWhile (fun c => !isSeparator c) = [] ∧ cs.dropWhile (fun c => !isSeparator c) = cs := by
    cases cs with
    | nil => exact ⟨rfl, rfl⟩
    | cons c cs =>
      have hc : ¬(!isSeparator c) = true := by
        rw [h c rfl]
        decide
      exact ⟨List.takeWhile_cons_of_neg hc, List.dropWhile_cons_of_neg hc⟩
  unfold bareToken afterToken
  rw [List.takeWhile_append_of_pos hall, List.dropWhile_append_of_pos hall, hstop.1, hstop.2,
    List.append_nil]
  exact ⟨rfl, rfl⟩

theorem mem_bareToken {cs : List Char} {c : Char} (h : c ∈ bareToken cs) : isSeparator c = false := by
  have := List.mem_takeWhile_imp h
  simpa using this

/-- A bare token is written in quotes, or as it stands and again as one bare token. -/
theorem sanitizeFrom_bare {c : Char} (cs : List Char) (h : isSeparator c = false) (hc : c ≠ '"') :
    (∃ token rest, '"' ∉ token ∧ Boundary (sanitizeFrom rest) ∧ rest = afterToken (c :: cs) ∧
      sanitizeFrom (c :: cs) = '"' :: (token ++ '"' :: sanitizeFrom rest)) ∨
    ∃ rest, Boundary (sanitizeFrom rest) ∧ rest = afterToken (c :: cs) ∧
      wrap (bareToken (c :: cs)) = bareToken (c :: cs) ∧
      sanitizeFrom (c :: cs) = bareToken (c :: cs) ++ sanitizeFrom rest := by
  have hsep : ¬isSeparator c = true := by
    rw [h]
    decide
  have hrest := boundary_sanitizeFrom (boundary_afterToken (c :: cs))
  rw [sanitizeFrom_cons, if_neg hsep, if_neg hc]
  by_cases hwrap : '-' ∈ bareToken (c :: cs) ∧ '"' ∉ bareToken (c :: cs)
  · refine .inl ⟨bareToken (c :: cs), _, hwrap.2, hrest, rfl, ?_⟩
    rw [wrap, if_pos hwrap]
    simp
  · have hplain : wrap (bareToken (c :: cs)) = bareToken (c :: cs) := if_neg hwrap
    exact .inr ⟨_, hrest, rfl, hplain, by rw [hplain]⟩

/-- Only a wrapped token starts the output with a quote that the expression does not start with. -/
theorem wrapped_of_quote {cs : List Char} (hcs : NoQuoteNext cs) (h : ¬NoQuoteNext (sanitizeFrom cs)) :
    ∃ token rest, '"' ∉ token ∧ Boundary (sanitizeFrom rest) ∧
      sanitizeFrom cs = '"' :: (token ++ '"' :: sanitizeFrom rest) := by
  cases cs with
  | nil =>
    rw [sanitizeFrom_nil] at h
    exact absurd hcs h
  | cons c cs =>
    have hc : c ≠ '"' := by
      rintro rfl
      exact hcs rfl
    by_cases hsep : isSeparator c = true
    · refine absurd (fun hquote => ?_) h
      rw [sanitizeFrom_cons, if_pos hsep] at hquote
      exact hc (Option.some.inj hquote)
    · rcases sanitizeFrom_bare cs (by simpa using hsep) hc with
        ⟨token, rest, htoken, hrest, -, heq⟩ | ⟨rest, -, -, -, heq⟩
      · exact ⟨token, rest, htoken, hrest, heq⟩
      · refine absurd (fun hquote => ?_) h
        rw [heq, bareToken_cons cs (by simpa using hsep)] at hquote
        exact hc (Option.some.inj hquote)

/-- **A second walk changes nothing.** -/
theorem sanitizeFrom_idem (cs : List Char) : sanitizeFrom (sanitizeFrom cs) = sanitizeFrom cs := by
  induction cs using sanitizeFrom.induct with
  | case1 => rw [sanitizeFrom_nil, sanitizeFrom_nil]
  | case2 first rest h ih => rw [sanitizeFrom_cons, if_pos h, sanitizeFrom_cons, if_pos h, ih]
  | case3 rest h ih =>
    rw [sanitizeFrom_quote]
    rcases quotedSpan_cases rest with ⟨body, hbody, hspan, hnext⟩ | ⟨hbody, hrest⟩
    · have hshape : '"' :: ((quotedSpan rest).1 ++ sanitizeFrom (quotedSpan rest).2) =
          '"' :: (body ++ '"' :: sanitizeFrom (quotedSpan rest).2) := by
        rw [hspan]
        simp
      rw [hshape]
      by_cases hquote : NoQuoteNext (sanitizeFrom (quotedSpan rest).2)
      · rw [sanitizeFrom_phrase hbody hquote, ih]
      · -- the phrase and the wrapped token after it are one phrase now, with a doubled quote
        obtain ⟨token, after, htoken, hafter, heq⟩ := wrapped_of_quote hnext hquote
        have htoken := quotedBody_of_notMem htoken
        rw [heq, sanitizeFrom_phrase htoken hafter.noQuoteNext] at ih
        have hmerged : body ++ '"' :: '"' :: (token ++ '"' :: sanitizeFrom after) =
            (body ++ '"' :: '"' :: token) ++ '"' :: sanitizeFrom after := by
          simp
        have hjoined : QuotedBody (body ++ '"' :: '"' :: token) := hbody.append (.pair htoken)
        rw [heq, hmerged, sanitizeFrom_phrase hjoined hafter.noQuoteNext]
        have hsame := List.append_cancel_left (List.cons.inj ih).2
        rw [(List.cons.inj hsame).2]
    · rw [hrest, sanitizeFrom_nil, List.append_nil, sanitizeFrom_quote]
      have hspan := quotedSpan_body hbody []
      rw [List.append_nil] at hspan
      rw [hspan]
      simp [quotedSpan, sanitizeFrom_nil]
  | case4 first rest h hc ih =>
    have hsep : isSeparator first = false := by simpa using h
    rcases sanitizeFrom_bare rest hsep hc with
      ⟨token, after, htoken, hafter, rfl, heq⟩ | ⟨after, hafter, rfl, hplain, heq⟩
    · rw [heq, sanitizeFrom_phrase (quotedBody_of_notMem htoken) hafter.noQuoteNext, ih]
    · have hagain := @bareToken_of_boundary (bareToken (first :: rest)) _ (fun _ => mem_bareToken) hafter
      rw [heq]
      rw [bareToken_cons rest hsep] at hagain hplain ⊢
      rw [List.cons_append] at hagain ⊢
      rw [sanitizeFrom_cons, if_neg h, if_neg hc, hagain.1, hagain.2, hplain, ih, List.cons_append]

/-! ### Quotes that are inserted -/

/-- The second text is the first with quotes inserted. -/
inductive QuotesInserted : List Char → List Char → Prop
  | nil : QuotesInserted [] []
  | keep (c : Char) {cs ds : List Char} : QuotesInserted cs ds → QuotesInserted (c :: cs) (c :: ds)
  | insert {cs ds : List Char} : QuotesInserted cs ds → QuotesInserted cs ('"' :: ds)

theorem QuotesInserted.refl : ∀ cs, QuotesInserted cs cs
  | [] => .nil
  | c :: cs => .keep c (refl cs)

theorem QuotesInserted.append {cs cs' ds ds' : List Char} (h : QuotesInserted cs ds)
    (h' : QuotesInserted cs' ds') : QuotesInserted (cs ++ cs') (ds ++ ds') := by
  induction h with
  | nil => exact h'
  | keep c _ ih => exact .keep c ih
  | insert _ ih => exact .insert ih

/-- The piece is a bare token that is wrapped. -/
def Piece.Wrapped : Piece → Prop
  | bare token => '-' ∈ token ∧ '"' ∉ token
  | _ => False

theorem Piece.written_wrapped {p : Piece} (h : p.Wrapped) : p.written = '"' :: (p.text ++ ['"']) := by
  cases p with
  | separator c => cases h
  | quoted span => cases h
  | bare token => exact if_pos h

theorem Piece.written_plain {p : Piece} (h : ¬p.Wrapped) : p.written = p.text := by
  cases p with
  | separator c => rfl
  | quoted span => rfl
  | bare token => exact if_neg h

theorem Piece.quotesInserted (p : Piece) : QuotesInserted p.text p.written := by
  by_cases h : p.Wrapped
  · rw [p.written_wrapped h]
    have hend := (QuotesInserted.refl p.text).append (.insert .nil)
    rw [List.append_nil] at hend
    exact .insert hend
  · rw [p.written_plain h]
    exact .refl _

/-- **The output is the expression with quotes inserted.** -/
theorem sanitizeFrom_quotesInserted (cs : List Char) : QuotesInserted cs (sanitizeFrom cs) := by
  have hpieces : ∀ ps : List Piece, QuotesInserted (ps.flatMap Piece.text) (ps.flatMap Piece.written) := by
    intro ps
    induction ps with
    | nil => exact .nil
    | cons p ps ih => exact p.quotesInserted.append ih
  have h := hpieces (pieces cs)
  rwa [pieces_text, ← sanitizeFrom_eq] at h

/-! ### Hyphens in phrases -/

/-- A phrase is open after the text: its quotes are odd in number.  A doubled quote changes nothing. -/
def Opens (before : List Char) : Prop := before.count '"' % 2 = 1

instance (before : List Char) : Decidable (Opens before) := inferInstanceAs (Decidable (_ = _))

/-- An open phrase is closed by the text: the inside of a phrase, and a quote that is not doubled. -/
def Closes (after : List Char) : Prop :=
  ∃ body rest, after = body ++ '"' :: rest ∧ QuotedBody body ∧ NoQuoteNext rest

/-- Every hyphen comes after a quote that opens a phrase. -/
def HyphensOpened (cs : List Char) : Prop := ∀ before after, cs = before ++ '-' :: after → Opens before

/-- Every hyphen lies inside a phrase. -/
def HyphensInPhrases (cs : List Char) : Prop :=
  ∀ before after, cs = before ++ '-' :: after → Opens before ∧ Closes after

/-- The text up to a hyphen of a piece opens a phrase: a wrapped token stands outside of the phrases of
the expression, every other hyphen inside. -/
def OpensAt (earlier : List Piece) (p : Piece) (before : List Char) : Prop :=
  (p.Wrapped → (earlier.flatMap Piece.text).count '"' % 2 = 0) ∧
    (¬p.Wrapped → Opens (earlier.flatMap Piece.text ++ before))

/-- The phrase around a hyphen is closed: by the quote of a wrapped token, its own or a later one, or
in the expression. -/
def ClosesAt (p : Piece) (after : List Char) (later : List Piece) : Prop :=
  p.Wrapped ∨ (∃ p' ∈ later, p'.Wrapped) ∨ Closes (after ++ later.flatMap Piece.text)

/-- What holds at every hyphen of the expression. -/
def AtHyphens (cs : List Char) (holds : List Piece → Piece → List Piece → List Char → List Char → Prop) :
    Prop :=
  ∀ earlier p later before after, pieces cs = earlier ++ p :: later → p.text = before ++ '-' :: after →
    holds earlier p later before after

/-- The text up to every hyphen opens a phrase. -/
def HyphensPlaced (cs : List Char) : Prop :=
  AtHyphens cs fun earlier p _ before _ => OpensAt earlier p before

/-- The text up to every hyphen opens a phrase, and the rest closes it. -/
def HyphensEnclosed (cs : List Char) : Prop :=
  AtHyphens cs fun earlier p later before after => OpensAt earlier p before ∧ ClosesAt p after later

/-- A symbol of a text that is made of pieces is in one of them. -/
theorem flatMap_split {α β : Type} {f : α → List β} {x : β} {l : List α} {before after : List β}
    (h : l.flatMap f = before ++ x :: after) : ∃ earlier p later front back, l = earlier ++ p :: later ∧
      f p = front ++ x :: back ∧ before = earlier.flatMap f ++ front ∧ after = back ++ later.flatMap f := by
  induction l generalizing before with
  | nil => simp at h
  | cons p l ih =>
    rw [List.flatMap_cons, List.append_eq_append_iff] at h
    rcases h with ⟨rest, hbefore, hl⟩ | ⟨rest, hp, hafter⟩
    · obtain ⟨earlier, p', later, front, back, rfl, hp', hrest, hafter⟩ := ih hl
      exact ⟨p :: earlier, p', later, front, back, rfl, hp', by rw [hbefore, hrest]; simp, hafter⟩
    · cases rest with
      | nil =>
        rw [List.nil_append] at hafter
        obtain ⟨earlier, p', later, front, back, rfl, hp', hrest, hafter⟩ :=
          @ih [] hafter.symm
        refine ⟨p :: earlier, p', later, front, back, rfl, hp', ?_, hafter⟩
        rw [List.append_nil] at hp
        rw [List.flatMap_cons, hp, List.append_assoc, ← hrest, List.append_nil]
      | cons y rest =>
        obtain ⟨hxy, hrest⟩ := List.cons.inj hafter
        rw [← hxy] at hp
        exact ⟨[], p, l, before, rest, rfl, hp, rfl, hrest⟩

/-- Written pieces have as many quotes as the pieces, up to an even number. -/
theorem count_written (ps : List Piece) :
    (ps.flatMap Piece.written).count '"' % 2 = (ps.flatMap Piece.text).count '"' % 2 := by
  induction ps with
  | nil => rfl
  | cons p ps ih =>
    have hp : p.written.count '"' % 2 = p.text.count '"' % 2 := by
      by_cases h : p.Wrapped
      · rw [p.written_wrapped h, List.count_cons, List.count_append]
        simp
        omega
      · rw [p.written_plain h]
    rw [List.flatMap_cons, List.flatMap_cons, List.count_append, List.count_append]
    omega

/-- A hyphen of a wrapped token, in the token and as it is written. -/
theorem wrapped_split {p : Piece} (hp : p.Wrapped) {front back : List Char} :
    p.written = front ++ '-' :: back ↔
      ∃ before after, p.text = before ++ '-' :: after ∧ front = '"' :: before ∧ back = after ++ ['"'] := by
  rw [p.written_wrapped hp]
  constructor
  · intro h
    cases front with
    | nil => cases h
    | cons c front =>
      obtain ⟨rfl, htail⟩ := List.cons.inj h
      rcases List.eq_nil_or_concat' back with rfl | ⟨after, d, rfl⟩
      · have hlast : p.text ++ ['"'] = front ++ ['-'] := htail
        have := (List.append_inj' hlast rfl).2
        cases this
      · have hassoc : p.text ++ ['"'] = (front ++ '-' :: after) ++ [d] := by
          rw [List.append_assoc]
          exact htail
        obtain ⟨htext, hd⟩ := List.append_inj' hassoc rfl
        obtain rfl := List.singleton_inj.mp hd
        exact ⟨front, after, htext, rfl, rfl⟩
  · rintro ⟨before, after, htext, rfl, rfl⟩
    rw [htext]
    simp

theorem wrapped_count {p : Piece} (hp : p.Wrapped) {before after : List Char}
    (h : p.text = before ++ '-' :: after) : before.count '"' = 0 ∧ '"' ∉ after := by
  cases p with
  | separator c => cases hp
  | quoted span => cases hp
  | bare token =>
    obtain ⟨-, hquote⟩ := hp
    change token = _ at h
    rw [h, List.mem_append, List.mem_cons, not_or, not_or] at hquote
    exact ⟨List.count_eq_zero.mpr hquote.1, hquote.2.2⟩

/-- What follows a bare token is the walk of a rest that starts at a boundary. -/
theorem pieces_after_bare (cs : List Char) {earlier later : List Piece} {token : List Char}
    (h : pieces cs = earlier ++ .bare token :: later) :
    ∃ rest, later = pieces rest ∧ Boundary rest := by
  induction cs using pieces.induct generalizing earlier with
  | case1 =>
    rw [pieces.eq_def] at h
    simp at h
  | case2 first rest hsep ih =>
    rw [pieces.eq_def] at h
    simp only [if_pos hsep] at h
    cases earlier with
    | nil => cases h
    | cons p earlier => exact ih (List.cons.inj h).2
  | case3 rest hsep ih =>
    rw [pieces.eq_def] at h
    simp only [if_neg hsep, if_true] at h
    cases earlier with
    | nil => cases h
    | cons p earlier => exact ih (List.cons.inj h).2
  | case4 first rest hsep hquote ih =>
    rw [pieces.eq_def] at h
    simp only [if_neg hsep, if_neg hquote] at h
    cases earlier with
    | nil => exact ⟨_, (List.cons.inj h).2.symm, boundary_afterToken _⟩
    | cons p earlier => exact ih (List.cons.inj h).2

theorem noQuote_after_bare {cs : List Char} {earlier later : List Piece} {p : Piece} (hp : p.Wrapped)
    (h : pieces cs = earlier ++ p :: later) : NoQuoteNext (later.flatMap Piece.written) := by
  cases p with
  | separator c => cases hp
  | quoted span => cases hp
  | bare token =>
    obtain ⟨rest, rfl, hrest⟩ := pieces_after_bare cs h
    rw [← sanitizeFrom_eq]
    exact (boundary_sanitizeFrom hrest).noQuoteNext

/-- A quote on its own ends the inside of a phrase. -/
theorem not_quotedBody {w : List Char} (hw : QuotedBody w) {c : Char} {rest : List Char} (hc : c ≠ '"')
    (hrest : NoQuoteNext rest) (front : List Char) : w ≠ front ++ c :: '"' :: rest := by
  induction hw generalizing front with
  | nil =>
    intro h
    simp at h
  | pair _ ih =>
    intro h
    cases front with
    | nil => exact hc (List.cons.inj h).1.symm
    | cons d front =>
      cases front with
      | nil => exact hc (List.cons.inj (List.cons.inj h).2).1.symm
      | cons e front => exact ih front (List.cons.inj (List.cons.inj h).2).2
  | @char d body hd hbody ih =>
    intro h
    cases front with
    | nil =>
      obtain ⟨-, hbody'⟩ := List.cons.inj h
      rw [hbody'] at hbody
      cases hbody with
      | pair _ => exact hrest rfl
      | char hne _ => exact hne rfl
    | cons e front => exact ih front (List.cons.inj h).2

theorem closes_of_lone_quote {c : Char} {rest : List Char} (hc : c ≠ '"') (hrest : NoQuoteNext rest)
    (front : List Char) : Closes (front ++ c :: '"' :: rest) := by
  have happend := quotedSpan_append (front ++ c :: '"' :: rest)
  rcases quotedSpan_cases (front ++ c :: '"' :: rest) with ⟨body, hbody, hspan, hnext⟩ | ⟨hbody, hnil⟩
  · rw [hspan, List.append_assoc] at happend
    exact ⟨body, _, happend.symm, hbody, hnext⟩
  · rw [hnil, List.append_nil] at happend
    exact absurd happend (not_quotedBody hbody hc hrest front)

/-- A wrapped token closes the phrase that is open before it. -/
theorem closes_of_wrapped {cs : List Char} {earlier middle later : List Piece} {p p' : Piece}
    (hp' : p'.Wrapped) (h : pieces cs = earlier ++ p :: (middle ++ p' :: later)) (back : List Char) :
    Closes (back ++ (middle ++ p' :: later).flatMap Piece.written) := by
  have hlater : NoQuoteNext (later.flatMap Piece.written) := by
    have hcut : pieces cs = (earlier ++ p :: middle) ++ p' :: later := by
      rw [h]
      simp
    exact noQuote_after_bare hp' hcut
  obtain ⟨front, c, htext, hc⟩ : ∃ front c, p'.text = front ++ [c] ∧ c ≠ '"' := by
    cases p' with
    | separator c => cases hp'
    | quoted span => cases hp'
    | bare token =>
      obtain ⟨hhyphen, hquote⟩ := hp'
      rcases List.eq_nil_or_concat' token with rfl | ⟨front, c, rfl⟩
      · cases hhyphen
      · refine ⟨front, c, rfl, ?_⟩
        rintro rfl
        exact hquote (by simp)
  have hshape : back ++ (middle ++ p' :: later).flatMap Piece.written =
      (back ++ middle.flatMap Piece.written ++ '"' :: front) ++ c :: '"' :: later.flatMap Piece.written := by
    rw [List.flatMap_append, List.flatMap_cons, p'.written_wrapped hp', htext]
    simp
  rw [hshape]
  exact closes_of_lone_quote hc hlater _

section Positions

variable {cs before after : List Char} {earlier later : List Piece} {p : Piece}

/-- What holds at every hyphen of the output holds at every hyphen of the expression, with the pieces
around it as they are written. -/
theorem at_written_hyphens (holds : List Char → List Char → Prop) :
    (∀ front back, sanitizeFrom cs = front ++ '-' :: back → holds front back) ↔
      AtHyphens cs fun earlier p later before after =>
        (p.Wrapped → holds (earlier.flatMap Piece.written ++ '"' :: before)
          (after ++ '"' :: later.flatMap Piece.written)) ∧
        (¬p.Wrapped → holds (earlier.flatMap Piece.written ++ before)
          (after ++ later.flatMap Piece.written)) := by
  constructor
  · intro h earlier p later before after hpieces htext
    rw [sanitizeFrom_eq, hpieces] at h
    refine ⟨fun hp => h _ _ ?_, fun hp => h _ _ ?_⟩
    · rw [List.flatMap_append, List.flatMap_cons, (wrapped_split hp).mpr ⟨before, after, htext, rfl, rfl⟩]
      simp
    · rw [List.flatMap_append, List.flatMap_cons, p.written_plain hp, htext]
      simp
  · intro h front back heq
    rw [sanitizeFrom_eq] at heq
    obtain ⟨earlier, p, later, front', back', hpieces, hwritten, rfl, rfl⟩ := flatMap_split heq
    by_cases hp : p.Wrapped
    · obtain ⟨before, after, htext, rfl, rfl⟩ := (wrapped_split hp).mp hwritten
      have hholds := (h earlier p later before after hpieces htext).1 hp
      rw [List.append_assoc]
      exact hholds
    · rw [p.written_plain hp] at hwritten
      exact (h earlier p later front' back' hpieces hwritten).2 hp

/-- Whether a written hyphen comes after an opening quote. -/
theorem opens_written (htext : p.text = before ++ '-' :: after) :
    ((p.Wrapped → Opens (earlier.flatMap Piece.written ++ '"' :: before)) ∧
      (¬p.Wrapped → Opens (earlier.flatMap Piece.written ++ before))) ↔ OpensAt earlier p before := by
  have hcount := count_written earlier
  unfold OpensAt Opens
  refine and_congr (forall_congr' fun hp => ?_) (forall_congr' fun _ => ?_)
  · have hbefore := (wrapped_count hp htext).1
    rw [List.count_append, List.count_cons_self, hbefore]
    omega
  · rw [List.count_append, List.count_append]
    omega

/-- Whether the phrase around a written hyphen is closed. -/
theorem closes_written (hpieces : pieces cs = earlier ++ p :: later)
    (htext : p.text = before ++ '-' :: after) :
    ((p.Wrapped → Closes (after ++ '"' :: later.flatMap Piece.written)) ∧
      (¬p.Wrapped → Closes (after ++ later.flatMap Piece.written))) ↔ ClosesAt p after later := by
  unfold ClosesAt
  by_cases hp : p.Wrapped
  · have hafter := (wrapped_count hp htext).2
    refine iff_of_true ⟨fun _ => ?_, fun hn => absurd hp hn⟩ (.inl hp)
    exact ⟨after, _, rfl, quotedBody_of_notMem hafter, noQuote_after_bare hp hpieces⟩
  · by_cases hlater : ∃ p' ∈ later, p'.Wrapped
    · refine iff_of_true ⟨fun h => absurd h hp, fun _ => ?_⟩ (.inr (.inl hlater))
      obtain ⟨p', hmem, hp'⟩ := hlater
      obtain ⟨middle, last, rfl⟩ := List.append_of_mem hmem
      exact closes_of_wrapped hp' hpieces after
    · have hplain : later.flatMap Piece.written = later.flatMap Piece.text :=
        List.flatMap_congr fun p' hmem => p'.written_plain fun hp' => hlater ⟨p', hmem, hp'⟩
      rw [hplain]
      constructor
      · rintro ⟨-, h⟩
        exact .inr (.inr (h hp))
      · rintro (h | h | h)
        · exact absurd h hp
        · exact absurd h hlater
        · exact ⟨fun h' => absurd h' hp, fun _ => h⟩

end Positions

/-- The hyphens of the output come after opening quotes exactly if those of the expression are placed. -/
theorem hyphensOpened_iff (cs : List Char) : HyphensOpened (sanitizeFrom cs) ↔ HyphensPlaced cs := by
  unfold HyphensOpened
  rw [at_written_hyphens fun front _ => Opens front]
  unfold HyphensPlaced AtHyphens
  refine forall₅_congr fun earlier p later before after => ?_
  exact forall₂_congr fun _ htext => opens_written htext

theorem hyphensInPhrases_iff (cs : List Char) :
    HyphensInPhrases (sanitizeFrom cs) ↔ HyphensEnclosed cs := by
  unfold HyphensInPhrases
  rw [at_written_hyphens fun front back => Opens front ∧ Closes back]
  unfold HyphensEnclosed AtHyphens
  refine forall₅_congr fun earlier p later before after => ?_
  refine forall₂_congr fun hpieces htext => ?_
  beta_reduce
  rw [← opens_written htext, ← closes_written hpieces htext]
  tauto

/-- **When a sanitized expression is as it should be**: the expression with quotes inserted, its
hyphens in phrases, and left as it is by a second walk.  In the expression the tokens that are wrapped
must stand outside of the phrases, and all other hyphens inside.  The second part does not ask that a
phrase ends. -/
theorem sanitize_protects_iff (query : String) :
    ((QuotesInserted query.toList (sanitizeFts5Query query).toList ∧
        HyphensInPhrases (sanitizeFts5Query query).toList ∧
        sanitizeFts5Query (sanitizeFts5Query query) = sanitizeFts5Query query) ↔
      HyphensEnclosed query.toList) ∧
    ((QuotesInserted query.toList (sanitizeFts5Query query).toList ∧
        HyphensOpened (sanitizeFts5Query query).toList ∧
        sanitizeFts5Query (sanitizeFts5Query query) = sanitizeFts5Query query) ↔
      HyphensPlaced query.toList) := by
  have hinserted := sanitizeFrom_quotesInserted query.toList
  have htext : (sanitizeFts5Query query).toList = sanitizeFrom query.toList := String.toList_ofList
  have hidem : sanitizeFts5Query (sanitizeFts5Query query) = sanitizeFts5Query query := by
    unfold sanitizeFts5Query
    rw [String.toList_ofList, sanitizeFrom_idem]
  rw [htext, hyphensInPhrases_iff, hyphensOpened_iff]
  constructor
  · exact ⟨fun h => h.2.1, fun h => ⟨hinserted, h, hidem⟩⟩
  · exact ⟨fun h => h.2.1, fun h => ⟨hinserted, h, hidem⟩⟩

/-- A bare token with a quote of its own keeps its hyphen outside of every phrase. -/
theorem quoted_tail_unprotected : sanitizeFts5Query "a-b\"c\"" = "a-b\"c\"" ∧
    ¬HyphensOpened (sanitizeFts5Query "a-b\"c\"").toList ∧
    ¬HyphensInPhrases (sanitizeFts5Query "a-b\"c\"").toList := by
  have hout : sanitizeFts5Query "a-b\"c\"" = "a-b\"c\"" := by
    have hwalk : sanitizeFrom ['a', '-', 'b', '"', 'c', '"'] = ['a', '-', 'b', '"', 'c', '"'] := by
      rw [sanitizeFrom_cons, if_neg (by decide), if_neg (by decide)]
      have htoken : wrap (bareToken ['a', '-', 'b', '"', 'c', '"']) = ['a', '-', 'b', '"', 'c', '"'] := by
        decide
      have hrest : afterToken ['a', '-', 'b', '"', 'c', '"'] = [] := by decide
      rw [htoken, hrest, sanitizeFrom_nil]
      rfl
    exact congrArg String.ofList hwalk
  have hopened : ¬HyphensOpened ['a', '-', 'b', '"', 'c', '"'] := by
    intro h
    exact absurd (h ['a'] ['b', '"', 'c', '"'] rfl) (by decide)
  rw [hout]
  exact ⟨rfl, hopened, fun h => hopened fun before after heq => (h before after heq).1⟩

end MerkleVault.Sqlite.FtsQuery
