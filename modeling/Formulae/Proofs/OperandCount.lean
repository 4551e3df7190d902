import Formulae.Proofs.StackReading
/-!
Reading without brackets, told from a running count. A leaf adds one operand, and an operator makes
one of as many as it takes. The count is the height of the stack, whose terms spell the tokens taken
so far, so it decides alone whether a text is read, and which error the text has if it is not.
-/
namespace Formulae

open Token

/-! ## Texts without brackets -/

namespace Term

theorem tokens_bare_ne_nil (t : Term) : t.tokens .bare ≠ [] := by
  cases t with
  | var v => exact List.cons_ne_nil _ _
  | const c => exact List.cons_ne_nil _ _
  | app op args => simp [tokens_app, Style.arrange]

theorem tokens_bare_app (op : Op) (args : List Term) :
    (app op args).tokens .bare = args.flatMap (tokens .bare) ++ [op.symbol] :=
  tokens_app_flatMap ..

theorem length_tokens_bare (t : Term) : (t.tokens .bare).length = t.size := by
  induction t using ind with
  | var v => rfl
  | const c => rfl
  | app op args ih =>
    rw [tokens_bare_app, List.length_append, length_flatMap_eq_sum ih, size_app, Nat.add_comm]
    rfl

end Term

theorem Style.spaced_append {ws vs : List (List Char)} (hw : ws ≠ []) (hv : vs ≠ []) :
    spaced (ws ++ vs) = spaced ws ++ ' ' :: spaced vs := by
  induction ws with
  | nil => exact absurd rfl hw
  | cons w ws ih =>
    cases ws with
    | nil => simp [spaced, List.intercalate_cons_of_ne_nil hv]
    | cons w' ws =>
      have rest := ih (List.cons_ne_nil w' ws)
      simp only [spaced, List.cons_append, List.intercalate_cons_cons] at rest ⊢
      simp [rest]

theorem Style.spaced_flatten {groups : List (List (List Char))}
    (nonempty : ∀ ws ∈ groups, ws ≠ []) :
    spaced (groups.map spaced) = spaced groups.flatten := by
  induction groups with
  | nil => rfl
  | cons ws groups ih =>
    obtain ⟨first, others⟩ := List.forall_mem_cons.mp nonempty
    cases groups with
    | nil => simp [spaced]
    | cons ws' groups =>
      have second : (ws' :: groups).flatten ≠ [] := by simp [others ws' List.mem_cons_self]
      rw [List.flatten_cons, spaced_append first second, ← ih others]
      simp [spaced]

theorem Term.text_bare (t : Term) : t.text .bare = " ".intercalate (t.tokens .bare) := by
  have chars : t.chars .bare = Style.spaced ((t.tokens .bare).map String.toList) := by
    induction t using ind with
    | var v => simp [Term.chars, Term.tokens, fold, Style.spaced]
    | const c => simp [Term.chars, Term.tokens, fold, Style.spaced, Double.constantText]
    | app op args ih =>
      have groups : ∀ ws ∈ args.map (fun a => (a.tokens .bare).map String.toList)
          ++ [[op.symbol.toList]], ws ≠ [] := by
        simp [or_imp, forall_and, tokens_bare_ne_nil]
      have operands : args.map (Term.chars .bare)
          = args.map (Style.spaced ∘ fun a => (a.tokens .bare).map String.toList) :=
        List.map_congr_left ih
      have joined := Style.spaced_flatten groups
      rw [List.map_append, List.map_map, ← operands] at joined
      simpa [chars_app, Style.place, tokens_bare_app, Style.spaced, List.flatMap_def,
        List.map_flatten, Function.comp_def] using joined
  rw [Term.text, chars, ← String.toList_inj, String.toList_ofList, String.toList_intercalate]
  rfl

namespace Reading

/-! ## The count -/

def isLeaf (token : String) : Bool :=
  (Variable.ofName? token).isSome || (Decimal.read? token).isSome

/-- The count of operands that the operator of a token takes, where it is fixed. Brackets, unknown
words and operators over any number of operands have none. -/
def fixedArity? (token : String) : Option Nat := (Op.ofSymbol? token).bind Op.arity

/-- The count of operands after a token, unless the token stops it. -/
def tally (count : Nat) (token : String) : Option Nat :=
  if isLeaf token then some (count + 1)
  else
    match fixedArity? token with
    | some n => if n ≤ count then some (count - n + 1) else none
    | none => none

def tallyAll (count : Nat) (tokens : List String) : Option Nat := tokens.foldlM tally count

theorem tallyAll_cons (count : Nat) (token : String) (tokens : List String) :
    tallyAll count (token :: tokens) = (tally count token).bind (tallyAll · tokens) :=
  List.foldlM_cons

theorem isLeaf_eq (token : String) : isLeaf token = (Term.ofToken? token).isSome := by
  unfold isLeaf Term.ofToken?
  cases Variable.ofName? token <;> simp

theorem tally_leaf {token : String} {t : Term} (leaf : Term.ofToken? token = some t)
    (count : Nat) : tally count token = some (count + 1) := by
  simp [tally, isLeaf_eq, leaf]

theorem tally_symbol (op : Op) (count : Nat) :
    tally count op.symbol
      = op.arity.bind fun n => if n ≤ count then some (count - n + 1) else none := by
  cases arity : op.arity <;>
    simp [tally, isLeaf_eq, ofToken?_symbol, fixedArity?, Op.ofSymbol?_symbol, arity]

theorem tally_unknown {token : String} (noSymbol : Op.ofSymbol? token = none)
    (noLeaf : Term.ofToken? token = none) (count : Nat) : tally count token = none := by
  simp [tally, isLeaf_eq, noLeaf, fixedArity?, noSymbol]

theorem token_cases (token : String) :
    (∃ op : Op, token = op.symbol) ∨ (∃ t, Term.ofToken? token = some t)
      ∨ (Op.ofSymbol? token = none ∧ Term.ofToken? token = none) := by
  cases symbol : Op.ofSymbol? token with
  | some op => exact Or.inl ⟨op, (Op.symbol_of_ofSymbol? symbol).symm⟩
  | none =>
    cases leaf : Term.ofToken? token with
    | some t => exact Or.inr (Or.inl ⟨t, rfl⟩)
    | none => exact Or.inr (Or.inr ⟨rfl, rfl⟩)

theorem exists_stop {count : Nat} {tokens : List String} (h : tallyAll count tokens = none) :
    ∃ before token rest n, tokens = before ++ token :: rest ∧ tallyAll count before = some n
      ∧ tally n token = none := by
  induction tokens generalizing count with
  | nil => cases h
  | cons token tokens ih =>
    cases next : tally count token with
    | none => exact ⟨[], token, tokens, count, rfl, rfl, next⟩
    | some m =>
      rw [tallyAll_cons, next, Option.bind_some] at h
      obtain ⟨before, token', rest, n, rfl, counted, stop⟩ := ih h
      refine ⟨token :: before, token', rest, n, rfl, ?_, stop⟩
      rw [tallyAll_cons, next, Option.bind_some, counted]

theorem stop_cases {count : Nat} {token : String} (stop : tally count token = none) :
    (isLeaf token = false ∧ fixedArity? token = none)
      ∨ ∃ n, fixedArity? token = some n ∧ count < n := by
  cases leaf : isLeaf token with
  | true => simp [tally, leaf] at stop
  | false =>
    cases arity : fixedArity? token with
    | none => exact Or.inl ⟨rfl, rfl⟩
    | some n => simpa [tally, leaf, arity] using stop

/-! ## The stack -/

variable {limit : Limit} {stack : List Term} {tokens : List String} {token : String} {n : Nat}

def spelled (stack : List Term) : List String := stack.reverse.flatMap (Term.tokens .bare)

theorem spelled_cons (t : Term) (stack : List Term) :
    spelled (t :: stack) = spelled stack ++ t.tokens .bare := by
  simp [spelled]

theorem spelled_app (op : Op) (n : Nat) (stack : List Term) :
    spelled (.app op (stack.take n).reverse :: stack.drop n) = spelled stack ++ [op.symbol] := by
  have parts : spelled stack = spelled (stack.drop n) ++ spelled (stack.take n) := by
    rw [spelled, spelled, spelled, ← List.flatMap_append, ← List.reverse_append,
      List.take_append_drop]
  rw [spelled_cons, Term.tokens_bare_app, parts, List.append_assoc]
  rfl

/-- A token that the count passes leaves a stack of the height counted, which spells it too. -/
theorem bareStep_of_tally (counted : tally stack.length token = some n) (rest : List String) :
    ∃ stack', bareStep stack token rest = .ok stack' ∧ stack'.length = n
      ∧ spelled stack' = spelled stack ++ [standard token] := by
  obtain ⟨op, rfl⟩ | ⟨t, leaf⟩ | ⟨noSymbol, noLeaf⟩ := token_cases token
  · rw [tally_symbol, Option.bind_eq_some_iff] at counted
    obtain ⟨k, arity, counted⟩ := counted
    by_cases enough : k ≤ stack.length
    · rw [if_pos enough, Option.some.injEq] at counted
      refine ⟨.app op (stack.take k).reverse :: stack.drop k, ?_, ?_, ?_⟩
      · simp [bareStep, Op.ofSymbol?_symbol, arity, Nat.not_lt.mpr enough]
      · simpa using counted
      · rw [spelled_app, standard_of_not_number (read?_symbol op)]
    · simp [enough] at counted
  · rw [tally_leaf leaf, Option.some.injEq] at counted
    have derived : Derives .bare [token] t := derives_leaf leaf
    refine ⟨t :: stack, bareStep_leaf leaf stack rest, counted, ?_⟩
    rw [spelled_cons, derived.tokens_eq, List.map_singleton]
  · simp [tally_unknown noSymbol noLeaf] at counted

theorem bare_of_tallyAll (limit : Limit) (stack : List Term)
    (counted : tallyAll stack.length tokens = some n) (rest : List String) :
    ∃ stack', bare limit stack (tokens ++ rest) = bare limit stack' rest ∧ stack'.length = n
      ∧ spelled stack' = spelled stack ++ tokens.map standard := by
  induction tokens generalizing stack with
  | nil => exact ⟨stack, rfl, Option.some.inj counted, by simp⟩
  | cons token tokens ih =>
    rw [tallyAll_cons, Option.bind_eq_some_iff] at counted
    obtain ⟨m, first, others⟩ := counted
    obtain ⟨middle, step, rfl, word⟩ := bareStep_of_tally first (tokens ++ rest)
    obtain ⟨stack', run, height, words⟩ := ih middle others
    refine ⟨stack', ?_, height, ?_⟩
    · rw [List.cons_append, bare, step]
      exact run
    · simp [words, word]

theorem bare_of_refused {before rest : List String} {e : ParseError}
    (counted : tallyAll 0 before = some n)
    (refused : ∀ stack : List Term, stack.length = n → bareStep stack token rest = .error e) :
    bare limit [] (before ++ token :: rest) = .error e := by
  obtain ⟨stack, run, height, -⟩ := bare_of_tallyAll limit [] counted (token :: rest)
  rw [run, bare, refused stack height]

theorem bareStep_misplaced (noLeaf : isLeaf token = false) (noArity : fixedArity? token = none)
    (rest : List String) : bareStep stack token rest = .error (.unexpected token rest) := by
  rw [isLeaf_eq, Option.isSome_eq_false_iff, Option.isNone_iff_eq_none] at noLeaf
  unfold bareStep
  unfold fixedArity? at noArity
  cases symbol : Op.ofSymbol? token with
  | none => simp [noLeaf]
  | some op =>
    rw [symbol, Option.bind_some] at noArity
    simp [noArity]

theorem bareStep_tooFew (arity : fixedArity? token = some n) (few : stack.length < n)
    (rest : List String) :
    bareStep stack token rest = .error (.wrongCount n stack.length (token :: rest)) := by
  obtain ⟨op, symbol, arity⟩ := Option.bind_eq_some_iff.mp arity
  simp [bareStep, symbol, arity, few]

theorem bare_misplaced {before rest : List String} (counted : tallyAll 0 before = some n)
    (noLeaf : isLeaf token = false) (noArity : fixedArity? token = none) :
    bare limit [] (before ++ token :: rest) = .error (.unexpected token rest) :=
  bare_of_refused counted fun _ _ => bareStep_misplaced noLeaf noArity rest

theorem bare_tooFew {before rest : List String} {count : Nat}
    (counted : tallyAll 0 before = some count) (arity : fixedArity? token = some n)
    (few : count < n) :
    bare limit [] (before ++ token :: rest) = .error (.wrongCount n count (token :: rest)) :=
  bare_of_refused counted fun _ height => height ▸ bareStep_tooFew arity (height ▸ few) rest

theorem exists_error_of_stop (limit : Limit) (h : tallyAll 0 tokens = none) :
    ∃ e, bare limit [] tokens = .error e := by
  obtain ⟨before, token, rest, n, rfl, counted, stop⟩ := exists_stop h
  obtain ⟨noLeaf, noArity⟩ | ⟨k, arity, few⟩ := stop_cases stop
  · exact ⟨_, bare_misplaced counted noLeaf noArity⟩
  · exact ⟨_, bare_tooFew counted arity few⟩

theorem bare_end (limit : Limit) (counted : tallyAll 0 tokens = some n) :
    ∃ stack : List Term, bare limit [] tokens = bareEnd limit stack ∧ stack.length = n
      ∧ spelled stack = tokens.map standard := by
  obtain ⟨stack, run, height, words⟩ := bare_of_tallyAll limit [] counted []
  rw [List.append_nil] at run
  exact ⟨stack, run, height, by simpa [spelled] using words⟩

theorem eq_nil_of_tallyAll (counted : tallyAll 0 tokens = some 0) : tokens = [] := by
  obtain ⟨stack, -, height, words⟩ := bare_end none counted
  rw [List.length_eq_zero_iff.mp height] at words
  exact List.map_eq_nil_iff.mp words.symm

theorem exists_bare (limit : Limit) (counted : tallyAll 0 tokens = some 1) :
    ∃ t : Term, bare limit [] tokens = .ok t ∧ t.tokens .bare = tokens.map standard := by
  obtain ⟨stack, run, height, words⟩ := bare_end limit counted
  obtain ⟨t, rfl⟩ := List.length_eq_one_iff.mp height
  exact ⟨t, run, by simpa [spelled] using words⟩

theorem tallyAll_of_bare {t : Term} (read : bare limit [] tokens = .ok t) :
    tallyAll 0 tokens = some 1 := by
  cases counted : tallyAll 0 tokens with
  | none =>
    obtain ⟨e, refused⟩ := exists_error_of_stop limit counted
    simp [refused] at read
  | some n =>
    obtain ⟨stack, run, rfl, -⟩ := bare_end limit counted
    rw [run] at read
    match stack, read with
    | [_], _ => rfl
    | _ :: _ :: _, read =>
      rw [bareEnd_several] at read
      split at read <;> cases read

theorem bare_leftOver (limit : Limit) (counted : tallyAll 0 tokens = some n) (several : 1 < n) :
    ∃ left last, left.length = n - 1
      ∧ (left ++ [last]).flatMap (Term.tokens .bare) = tokens.map standard
      ∧ bare limit [] tokens
        = if left.all fun t => limit.admits t.nesting then
            .error (.refused (.operandsLeft (n - 1)) (left.map (Term.text .bare)))
          else .error (.refused .tooDeep []) := by
  obtain ⟨stack, run, rfl, words⟩ := bare_end limit counted
  match stack, several with
  | last :: t :: older, _ =>
    refine ⟨(t :: older).reverse, last, by simp, by simpa [spelled] using words, ?_⟩
    rw [run, bareEnd_several, List.all_reverse]
    rfl

end Reading

open Reading

/-! ## Acceptance and errors -/

def announcement (left : List Term) : String :=
  "Parsing error occurred: "
    ++ (toString left.length ++ " operand(s) left without an operator" ++ ". In: -> "
      ++ " ".intercalate ((left.map (Term.text .bare)).take 7))
    ++ "."

theorem message_operandsLeft {left : List Term} (some_ : left ≠ []) :
    (ParseError.refused (.operandsLeft left.length) (left.map (Term.text .bare))).message
      = announcement left := by
  have shown : left.map (Term.text .bare) ≠ [] := by simpa using some_
  have described := ParseError.describe_refused (.operandsLeft left.length) shown
  unfold ParseError.message announcement
  rw [described, Reason.text, ParseError.shown, ParseError.previewTokens]
  rfl

/-- How tokens without brackets are read, told from the count of their operands. -/
structure ReadByCount (limit : Limit) (tokens : List String) (read : Except ParseError Term) :
    Prop where
  accepts : (∃ t, read = .ok t) ↔ tallyAll 0 tokens = some 1
  /-- The term has a node for each token and is written with the same tokens, but numbers in their
  standard spelling. -/
  written : ∀ t, read = .ok t → t.size = tokens.length
    ∧ t.text .bare = " ".intercalate (tokens.map standard)
  /-- A bracket, an operator over any number of operands or an unknown word is not expected. -/
  misplaced : ∀ {before token rest count}, tokens = before ++ token :: rest →
    tallyAll 0 before = some count → isLeaf token = false → fixedArity? token = none →
    read = .error (.unexpected token rest)
  tooFew : ∀ {before token rest count n}, tokens = before ++ token :: rest →
    tallyAll 0 before = some count → fixedArity? token = some n → count < n →
    read = .error (.wrongCount n count (token :: rest))
  empty : tokens = [] → read = .error (.endOfText "expression")
  /-- All operands but the last are left over; together they are what was read. They are announced
  with their number, unless one of them is too deep to be written out. -/
  leftOver : ∀ {count}, tallyAll 0 tokens = some count → tokens ≠ [] → count ≠ 1 →
    ∃ left last, left.length = count - 1
      ∧ (left ++ [last]).flatMap (Term.tokens .bare) = tokens.map standard
      ∧ ((∀ t ∈ left, limit.admits t.nesting = true) →
        let e := ParseError.refused (.operandsLeft (count - 1)) (left.map (Term.text .bare))
        read = .error e ∧ e.message = announcement left)
      ∧ ((∃ t ∈ left, limit.admits t.nesting = false) →
        let e := ParseError.refused .tooDeep []
        read = .error e
          ∧ e.message = "Parsing error occurred: expression is nested too deeply.")

/-- A running count of operands decides how every text without brackets is read, whatever the depth
up to which operands that are left over can be written out. That an interpreter may run out of stack
where no reader catches it is left aside. -/
theorem parse_bare_by_count (limit : Limit) (text : String) :
    ReadByCount limit (tokenize text) (ofTokens .bare limit (tokenize text)) where
  accepts := by
    constructor
    · rintro ⟨t, read⟩
      exact tallyAll_of_bare read
    · intro counted
      obtain ⟨t, read, -⟩ := exists_bare limit counted
      exact ⟨t, read⟩
  written t read := by
    obtain ⟨t', read', words⟩ := exists_bare limit (tallyAll_of_bare read)
    obtain rfl : t' = t := Except.ok.inj (read'.symm.trans read)
    rw [← Term.length_tokens_bare, Term.text_bare, words]
    exact ⟨List.length_map _, rfl⟩
  misplaced cut counted noLeaf noArity := by
    rw [cut]
    exact bare_misplaced counted noLeaf noArity
  tooFew cut counted arity few := by
    rw [cut]
    exact bare_tooFew counted arity few
  empty none_ := by
    rw [none_]
    rfl
  leftOver {count} counted nonempty differs := by
    have some_ : count ≠ 0 := by
      rintro rfl
      exact nonempty (eq_nil_of_tallyAll counted)
    have several : 1 < count := by omega
    obtain ⟨left, last, height, words, read⟩ := bare_leftOver limit counted several
    refine ⟨left, last, height, words, fun shallow => ?_, fun ⟨t, mem, deep⟩ => ?_⟩
    · have left_ : left ≠ [] := List.ne_nil_of_length_pos (by omega)
      rw [if_pos (List.all_eq_true.mpr shallow)] at read
      exact ⟨read, height ▸ message_operandsLeft left_⟩
    · have stuck : ¬ (left.all fun t => limit.admits t.nesting) = true := by
        rw [List.all_eq_true]
        exact fun all => by simp [all t mem] at deep
      rw [if_neg stuck] at read
      exact ⟨read, by decide +kernel⟩

/-! ## An operand that is too deep -/

def negations : Nat → Term
  | 0 => .var .x
  | n + 1 => .app .neg [negations n]

theorem nesting_negations (n : Nat) : (negations n).nesting = n := by
  induction n with
  | zero => rfl
  | succ n ih => simp [negations, ih, Nat.add_comm]

theorem pushes_negations (n : Nat) :
    Pushes ("x" :: List.replicate n "negate") (negations n) := by
  induction n with
  | zero => exact pushes_leaf (Term.ofToken?_name .x)
  | succ n ih =>
    have pushes : Pushes _ (.app .neg [negations n]) := pushes_app rfl rfl (.cons ih .nil)
    simpa [Style.arrange, List.replicate_succ', Op.symbol, negations] using pushes

theorem tallyAll_negations (n : Nat) :
    tallyAll 0 ("x" :: List.replicate n "negate" ++ ["y"]) = some 2 := by
  have negate : tally 1 "negate" = some 1 := tally_symbol .neg 1
  have all : tallyAll 1 (List.replicate n "negate" ++ ["y"]) = some 2 := by
    induction n with
    | zero => exact tally_leaf (Term.ofToken?_name .y) 1
    | succ n ih => rw [List.replicate_succ, List.cons_append, tallyAll_cons, negate]; exact ih
  have first : tally 0 "x" = some 1 := tally_leaf (Term.ofToken?_name .x) 0
  rw [List.cons_append, tallyAll_cons, first]
  exact all

theorem bare_negations (limit : Limit) (n : Nat) :
    ofTokens .bare limit ("x" :: List.replicate n "negate" ++ ["y"])
      = if limit.admits n then
          .error (.refused (.operandsLeft 1) [(negations n).text .bare])
        else .error (.refused .tooDeep []) := by
  have last : bareStep [negations n] "y" [] = .ok [.var .y, negations n] :=
    bareStep_leaf (Term.ofToken?_name .y) _ _
  rw [ofTokens, pushes_negations, bare, last]
  simp [bare, bareEnd, nesting_negations]

theorem tokenize_negations (n : Nat) :
    tokenize (" ".intercalate ("x" :: List.replicate n "negate" ++ ["y"]))
      = "x" :: List.replicate n "negate" ++ ["y"] := by
  refine tokenize_intercalate fun word mem => ?_
  have cases : word = "x" ∨ word = "negate" ∨ word = "y" := by
    simp only [List.cons_append, List.mem_cons, List.mem_append, List.mem_replicate,
      List.not_mem_nil, or_false] at mem
    exact mem.imp_right fun rest => rest.imp_left And.right
  rcases cases with rfl | rfl | rfl
  · exact .word (Term.word_name .x)
  · exact .word (Term.word_symbol .neg)
  · exact .word (Term.word_name .y)

/-- One operand is left over, and no number of operands is announced. -/
theorem parse_bare_left_too_deep :
    let text := " ".intercalate ("x" :: List.replicate 2000 "negate" ++ ["y"])
    tallyAll 0 (tokenize text) = some 2 ∧ tokenize text ≠ []
      ∧ Term.parse .bare text = .error (.refused .tooDeep [])
      ∧ ∀ remaining, Term.parse .bare text ≠ .error (.refused (.operandsLeft (2 - 1)) remaining) := by
  intro text
  have tokens := tokenize_negations 2000
  have read : Term.parse .bare text = .error (.refused .tooDeep []) := by
    rw [Term.parse, tokens, bare_negations]
    rfl
  refine ⟨tokens ▸ tallyAll_negations 2000, ?_, read, ?_⟩
  · rw [tokens]
    exact List.cons_ne_nil _ _
  · intro remaining same
    rw [read] at same
    cases same

end Formulae
