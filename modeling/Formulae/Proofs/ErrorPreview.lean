import Formulae.Proofs.CheckedReading
import Formulae.Proofs.FirstFault
import Formulae.Proofs.OperandCount
import Formulae.Proofs.TextLayout
/-!
What the message of an error shows of the text. A reader stops at a token without a look at those
after it, so an error about a token shows tokens that were not yet taken, and at most seven of them.
Operands that are left over are another matter: they are found once all tokens are taken, and are
shown as terms, each with as many tokens as it has.
-/
namespace Formulae

open Token

namespace Reading

/-- How a reader stops: where the tokens end, or at a token, whatever tokens follow it. -/
inductive Stops {α : Type} (read : List String → Except ParseError α) :
    List String → ParseError → Prop
  | atEnd {tokens : List String} {expected : String}
      (fails : read tokens = .error (.endOfText expected)) : Stops read tokens (.endOfText expected)
  | atToken (taken : List String) {token : String} {fault : List String → ParseError}
      (reports : ∀ rest, (fault rest).Reports token rest)
      (fails : ∀ rest, read (taken ++ token :: rest) = .error (fault rest))
      (rest : List String) : Stops read (taken ++ token :: rest) (fault rest)

variable {α β : Type} {read read' : List String → Except ParseError α}
  {whole : List String → Except ParseError β} {reader : Reader} {style : Style} {limit : Limit}
  {frames : List Frame} {stack : List Term} {t : Term} {token : String}
  {rest tokens : List String} {o : Outcome} {e : ParseError}

theorem Stops.cons (same : ∀ rest, read (token :: rest) = read' rest)
    (h : Stops read' tokens e) : Stops read (token :: tokens) e := by
  cases h with
  | atEnd fails => exact .atEnd ((same _).trans fails)
  | atToken taken reports fails rest =>
    exact .atToken (token :: taken) reports (fun rest => (same _).trans (fails rest)) rest

theorem Stops.imp (keeps : ∀ {tokens e}, read tokens = .error e → whole tokens = .error e)
    (h : Stops read tokens e) : Stops whole tokens e := by
  cases h with
  | atEnd fails => exact .atEnd (keeps fails)
  | atToken taken reports fails rest =>
    exact .atToken taken reports (fun rest => keeps (fails rest)) rest

theorem Stops.remaining_suffix (h : Stops read tokens e) : e.remaining <:+ tokens := by
  cases h with
  | atEnd => exact List.nil_suffix
  | atToken taken reports fails rest => exact (reports rest).remaining_suffix

theorem Stops.ne_operandsLeft (h : Stops read tokens e) {count : Nat} {left : List String} :
    e ≠ .refused (.operandsLeft count) left := by
  intro same
  cases h with
  | atEnd => cases same
  | atToken taken reports fails rest => cases (reports rest).unwrapped_of_refused same

/-! ## Brackets -/

theorem stop_of_run (ordinary : ∀ rest, e ≠ .refused .tooDeep rest)
    (h : run reader limit frames tokens = .error e) :
    Stops (run reader limit frames) tokens e := by
  induction frames, tokens using run.induct reader limit with
  | case1 frames =>
    cases h
    exact .atEnd rfl
  | case2 frames token rest e' stepped =>
    rw [run, stepped] at h
    cases h
    -- a bracket that opens could be refused by the limit alone
    cases effect reader frames token with
    | takes same =>
      rw [same] at stepped
      cases stepped
    | fails reports same =>
      rw [same] at stepped
      cases stepped
      exact .atToken [] reports (fun rest => by rw [List.nil_append, run, same]) rest
    | enters _ same =>
      rw [same] at stepped
      split at stepped
      · cases stepped
      · exact absurd (Except.error.inj stepped).symm (ordinary rest)
  | case3 frames token rest t stepped =>
    rw [run_of_step stepped] at h
    cases h
  | case4 frames token rest frames' stepped ih =>
    rw [run_of_step stepped] at h
    exact .cons (fun rest' => run_of_step (step_of_ok stepped rest')) (ih h)

/-- A term that is read is read before any tokens. -/
theorem exists_of_run (h : run reader limit frames tokens = .ok (t, rest)) :
    ∃ taken, tokens = taken ++ rest
      ∧ ∀ rest', run reader limit frames (taken ++ rest') = .ok (t, rest') := by
  induction frames, tokens using run.induct reader limit with
  | case1 frames => cases h
  | case2 frames token tokens e stepped =>
    rw [run, stepped] at h
    cases h
  | case3 frames token tokens t' stepped =>
    rw [run_of_step stepped] at h
    cases h
    exact ⟨[token], rfl, fun rest' => run_of_step (step_of_ok stepped rest')⟩
  | case4 frames token tokens frames' stepped ih =>
    rw [run_of_step stepped] at h
    obtain ⟨taken, rfl, reads⟩ := ih h
    refine ⟨token :: taken, rfl, fun rest' => ?_⟩
    rw [List.cons_append, run_of_step (step_of_ok stepped _)]
    exact reads rest'

theorem stop_of_document (ordinary : ∀ rest, e ≠ .refused .tooDeep rest)
    (h : document reader limit tokens = .error e) :
    Stops (document reader limit) tokens e := by
  cases ran : run reader limit [] tokens with
  | error e' =>
    rw [document, element, ran] at h
    cases h
    refine (stop_of_run ordinary ran).imp fun failed => ?_
    rw [document, element, failed]
  | ok result =>
    obtain ⟨t, _ | ⟨token, rest⟩⟩ := result
    · rw [document, element, ran] at h
      cases h
    · rw [document, element, ran] at h
      cases h
      obtain ⟨taken, rfl, reads⟩ := exists_of_run ran
      refine .atToken taken (.unwrapped token) (fun rest' => ?_) rest
      rw [document, element, reads]

/-! ## The stack of operands -/

theorem bareEffect (stack : List Term) (token : String) :
    (∃ stack', ∀ rest, bareStep stack token rest = .ok stack')
      ∨ ∃ fault : List String → ParseError, (∀ rest, (fault rest).Reports token rest)
        ∧ ∀ rest, bareStep stack token rest = .error (fault rest) := by
  cases symbol : Op.ofSymbol? token with
  | none =>
    cases leaf : Term.ofToken? token with
    | some t => exact .inl ⟨t :: stack, fun rest => by simp [bareStep, symbol, leaf]⟩
    | none =>
      exact .inr ⟨_, .unexpected token, fun rest => by simp [bareStep, symbol, leaf]⟩
  | some op =>
    cases arity : op.arity with
    | none =>
      exact .inr ⟨_, .unexpected token, fun rest => by simp [bareStep, symbol, arity]⟩
    | some n =>
      by_cases few : stack.length < n
      · exact .inr ⟨_, .wrongCount n stack.length token,
          fun rest => by simp [bareStep, symbol, arity, few]⟩
      · exact .inl ⟨.app op (stack.take n).reverse :: stack.drop n,
          fun rest => by simp [bareStep, symbol, arity, few]⟩

theorem stop_of_bare (ordinary : ∀ rest, e ≠ .refused .tooDeep rest)
    (h : bare limit stack tokens = .error e) :
    Stops (bare limit stack) tokens e ∨ ∃ count left, e = .refused (.operandsLeft count) left := by
  induction tokens generalizing stack with
  | nil =>
    match stack, h with
    | [], rfl => exact .inl (.atEnd rfl)
    | last :: t :: older, h =>
      rw [bare, bareEnd_several] at h
      split at h
      · cases h
        exact .inr ⟨_, _, rfl⟩
      · exact absurd (Except.error.inj h).symm (ordinary [])
  | cons token tokens ih =>
    obtain ⟨stack', takes⟩ | ⟨fault, reports, fails⟩ := bareEffect stack token
    · have same (rest) : bare limit stack (token :: rest) = bare limit stack' rest := by
        rw [bare, takes]
      rw [same] at h
      exact (ih h).imp_left (.cons same)
    · rw [bare, fails] at h
      cases h
      exact .inl (.atToken [] reports (fun rest => by rw [List.nil_append, bare, fails]) tokens)

theorem exists_of_operandsLeft {count : Nat} {left : List String}
    (h : bare limit [] tokens = .error (.refused (.operandsLeft count) left)) :
    ∃ terms last, terms.length = count ∧ left = terms.map (Term.text .bare)
      ∧ (terms ++ [last]).flatMap (Term.tokens .bare) = tokens.map standard := by
  cases counted : tallyAll 0 tokens with
  | none =>
    obtain ⟨before, token, rest, n, rfl, counted, stop⟩ := exists_stop counted
    obtain ⟨noLeaf, noArity⟩ | ⟨k, arity, few⟩ := stop_cases stop
    · rw [bare_misplaced counted noLeaf noArity] at h
      cases h
    · rw [bare_tooFew counted arity few] at h
      cases h
  | some n =>
    obtain ⟨stack, ended, -, words⟩ := bare_end limit counted
    rw [ended] at h
    match stack, h with
    | last :: t :: older, h =>
      rw [bareEnd_several] at h
      split at h <;> cases h
      exact ⟨(t :: older).reverse, last, by simp, rfl, by simpa [spelled] using words⟩

/-! ## Any style -/

theorem stop_of_ofTokens (ordinary : ∀ rest, e ≠ .refused .tooDeep rest)
    (h : ofTokens style limit tokens = .error e) :
    Stops (ofTokens style limit) tokens e
      ∨ (style = .bare ∧ ∃ count left, e = .refused (.operandsLeft count) left) := by
  cases style with
  | operatorFirst => exact .inl (stop_of_document ordinary h)
  | operatorLast => exact .inl (stop_of_document ordinary h)
  | bare => exact (stop_of_bare ordinary h).imp_right fun left => ⟨rfl, left⟩

end Reading

open Reading

/-! ## Messages -/

theorem Text.trimRight_concat {c : Char} {p : Char → Bool} (h : p c = false) (cs : List Char) :
    trimRight p (cs ++ [c]) = cs ++ [c] := by
  simp [trimRight, h]

theorem Text.trimRight_concat_of_class {c : Char} {p : Char → Bool} (h : p c = true)
    (cs : List Char) : trimRight p (cs ++ [c]) = trimRight p cs := by
  simp [trimRight, h]

theorem Token.Piece.exists_last {cs : List Char} (h : Piece cs) :
    ∃ front c, cs = front ++ [c] ∧ Text.isBlank c = false := by
  have nonempty : cs ≠ [] := by
    cases h with
    | bracket => exact List.cons_ne_nil _ _
    | word word => exact word.nonempty
  refine ⟨cs.dropLast, cs.getLast nonempty, (List.dropLast_append_getLast nonempty).symm, ?_⟩
  exact h.isBlank_eq _ (List.getLast_mem nonempty)

namespace ParseError

variable {style : Style} {limit : Limit} {e : ParseError} {token : String}
  {rest tokens : List String}

theorem exists_last_intercalate (pieces : ∀ word ∈ token :: rest, Piece word.toList) :
    ∃ front c, (" ".intercalate (token :: rest)).toList = front ++ [c]
      ∧ Text.isBlank c = false := by
  induction rest generalizing token with
  | nil => simpa using (pieces token List.mem_cons_self).exists_last
  | cons word rest ih =>
    obtain ⟨front, c, last, ink⟩ := ih (List.forall_mem_cons.mp pieces).2
    refine ⟨(token ++ " ").toList ++ front, c, ?_, ink⟩
    rw [String.intercalate_cons_cons, String.toList_append, last, List.append_assoc]

theorem trimRight_intercalate (pieces : ∀ word ∈ token :: rest, Piece word.toList) :
    String.ofList (Text.trimRight Text.isBlank (token ++ " " ++ " ".intercalate rest).toList)
      = " ".intercalate (token :: rest) := by
  obtain ⟨front, c, last, ink⟩ := exists_last_intercalate pieces
  cases rest with
  | nil =>
    rw [String.intercalate_singleton] at last ⊢
    have text : (token ++ " " ++ " ".intercalate []).toList = front ++ [c] ++ [' '] := by
      rw [← last]
      simp
    rw [text, Text.trimRight_concat_of_class isBlank_space, Text.trimRight_concat ink, ← last,
      String.ofList_toList]
  | cons word rest =>
    rw [← String.intercalate_cons_cons, last, Text.trimRight_concat ink, ← last,
      String.ofList_toList]

def headline : ParseError → String
  | refused reason _ => reason.text
  | endOfText expected => "expected '" ++ expected ++ "', got end of expression"
  | otherToken expected actual _ => "expected '" ++ expected ++ "', got '" ++ actual ++ "'"
  | unexpected token _ => "unexpected token '" ++ token ++ "'"
  | wrongCount expected actual _ =>
    s!"wrong number of arguments: expected {expected}, got {actual}"

/-- A token that is not expected is taken, and shown before those after it. -/
def rejected : ParseError → List String
  | unexpected token _ => [token]
  | _ => []

def quoted (e : ParseError) : List String := e.rejected ++ e.remaining.take previewTokens

theorem Reports.describe_eq (h : e.Reports token rest)
    (pieces : ∀ word ∈ token :: rest, Piece word.toList) :
    e.describe = e.headline ++ shown ++ " ".intercalate e.quoted := by
  cases h with
  | otherToken | wrongCount | unwrapped => rfl
  | unexpected =>
    obtain ⟨first, others⟩ := List.forall_mem_cons.mp pieces
    have few : ∀ word ∈ token :: rest.take previewTokens, Piece word.toList :=
      List.forall_mem_cons.mpr ⟨first, fun word mem => others word (List.mem_of_mem_take mem)⟩
    exact congrArg (headline (.unexpected token rest) ++ shown ++ ·) (trimRight_intercalate few)

theorem message_eq (e : ParseError) :
    e.message = "Parsing error occurred: " ++ e.describe ++ "." := rfl

theorem Reports.quoted_ne_nil (h : e.Reports token rest) : e.quoted ≠ [] := by
  cases h <;> exact List.cons_ne_nil _ _

/-- An error that shows only tokens that were not yet taken. -/
structure QuotesUnread (style : Style) (limit : Limit) (tokens : List String) (e : ParseError) :
    Prop where
  stops : Stops (ofTokens style limit) tokens e
  remaining : e.remaining <:+ tokens
  preview : e.preview = " ".intercalate (e.remaining.take (min previewTokens e.remaining.length))
  /-- A count is wrong for the operator that comes next. -/
  operator : ∀ expected actual rest, e = .wrongCount expected actual rest →
    ∃ (op : Op) (n : Nat) (more : List String), rest = op.symbol :: more ∧ op.arity = some n
      ∧ expected = n
  message : e.message = "Parsing error occurred: "
    ++ (if e.quoted.isEmpty then e.headline else e.headline ++ shown ++ " ".intercalate e.quoted)
    ++ "."
  bound : e.quoted.length ≤ e.rejected.length + previewTokens

theorem preview_eq (e : ParseError) :
    e.preview = " ".intercalate (e.remaining.take (min previewTokens e.remaining.length)) := by
  rw [preview, ← List.take_eq_take_min]

theorem length_quoted_le (e : ParseError) :
    e.quoted.length ≤ e.rejected.length + previewTokens := by
  rw [quoted, List.length_append]
  exact Nat.add_le_add_left (List.length_take_le _ _) _

theorem Possible.operator {expected actual : Int}
    (h : Possible style (.wrongCount expected actual rest)) :
    ∃ (op : Op) (n : Nat) (more : List String), rest = op.symbol :: more ∧ op.arity = some n
      ∧ expected = n := by
  cases h with
  | wrongCount _ arity _ more => exact ⟨_, _, more, rfl, arity, rfl⟩

theorem message_of_stops {α : Type} {read : List String → Except ParseError α}
    (pieces : ∀ word ∈ tokens, Piece word.toList) (h : Stops read tokens e) :
    e.message = "Parsing error occurred: "
      ++ (if e.quoted.isEmpty then e.headline else e.headline ++ shown ++ " ".intercalate e.quoted)
      ++ "." := by
  cases h with
  | @atEnd _ expected =>
    have described : (endOfText expected).describe = (endOfText expected).headline := rfl
    have none_ : (endOfText expected).quoted.isEmpty = true := rfl
    rw [message_eq, described, if_pos none_]
  | @atToken taken token fault reports fails rest =>
    have described := (reports rest).describe_eq
      fun word mem => pieces word (List.mem_append_right taken mem)
    have some_ : ¬ (fault rest).quoted.isEmpty = true := by
      simpa using (reports rest).quoted_ne_nil
    rw [message_eq, described, if_neg some_]

theorem QuotesUnread.of_stops (pieces : ∀ word ∈ tokens, Piece word.toList)
    (h : Stops (ofTokens style limit) tokens e) (possible : e.Possible style) :
    QuotesUnread style limit tokens e where
  stops := h
  remaining := h.remaining_suffix
  preview := preview_eq e
  operator expected actual rest same := by
    subst same
    exact possible.operator
  message := message_of_stops pieces h
  bound := length_quoted_le e

end ParseError

/-- An error of a text shows tokens that were not yet taken and at most seven of them, after the one
that is rejected, unless operands are left over or the text is too deep. Operands that are left over
are terms in a style without brackets, made of all the tokens but those of the last term. -/
theorem parse_error_quotes_unread (style : Style) (limit : Limit) (text : String) (e : ParseError)
    (failed : ofTokens style limit (tokenize text) = .error e)
    (ordinary : ∀ rest, e ≠ .refused .tooDeep rest) :
    (e.QuotesUnread style limit (tokenize text)
      ↔ ∀ count left, e ≠ .refused (.operandsLeft count) left)
    ∧ ∀ count left, e = .refused (.operandsLeft count) left → style = .bare
      ∧ ∃ terms last, terms.length = count ∧ left = terms.map (Term.text .bare)
        ∧ (terms ++ [last]).flatMap (Term.tokens .bare) = (tokenize text).map standard := by
  constructor
  · constructor
    · exact fun quotes _ _ => quotes.stops.ne_operandsLeft
    · intro none_
      obtain stops | ⟨-, count, left, same⟩ := stop_of_ofTokens ordinary failed
      · exact .of_stops (fun _ => piece_of_mem_tokenize) stops (possible_of_ofTokens failed)
      · exact absurd same (none_ count left)
  · rintro count left rfl
    obtain rfl : style = .bare := by
      obtain stops | ⟨bare, -⟩ := stop_of_ofTokens ordinary failed
      · exact absurd rfl stops.ne_operandsLeft
      · exact bare
    exact ⟨rfl, exists_of_operandsLeft failed⟩

theorem parse_error_quotes_unread_miscount :
    let text := "(x y z distance2 1 2 3 4 5 6)"
    let e := ParseError.wrongCount 2 3 ["distance2", "1", "2", "3", "4", "5", "6", ")"]
    Term.parse .operatorLast text = .error e
      ∧ e.remaining <:+ tokenize text
      ∧ e.message = "Parsing error occurred: wrong number of arguments: expected 2, got 3"
        ++ ". In: -> distance2 1 2 3 4 5 6." := by
  intro text e
  have failed : Term.parse .operatorLast text = .error e := by decide +kernel
  have quotes := (parse_error_quotes_unread .operatorLast nestingLimit text e failed nofun).1.mpr
    nofun
  exact ⟨failed, quotes.remaining, quotes.message.trans (by decide +kernel)⟩

/-- What is shown of three operands that are left over are nine tokens, all of them taken. -/
theorem parse_error_quotes_read :
    let text := "x y + x y + x y + z"
    let e := ParseError.refused (.operandsLeft 3) ["x y +", "x y +", "x y +"]
    Term.parse .bare text = .error e
      ∧ ¬ e.remaining <:+ tokenize text
      ∧ e.preview = "x y + x y + x y +" := by
  decide +kernel

end Formulae
