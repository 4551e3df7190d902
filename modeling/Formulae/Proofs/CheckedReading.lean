import Formulae.Proofs.Construction
import Formulae.Proofs.Soundness
import Formulae.Workspace.Basic
/-!
Reading in which every node comes from its constructor, whose refusals are no errors of a text. The
readers never meet one: each of them counts the operands of an operator before it makes the node,
in its own way. So a text is read as a well-formed term or is at fault itself.
-/
namespace Formulae

open Token

/-- What may be wrong with a text in a style. A count is wrong only where it is taken after the
operands, and then it is not that of the operator which comes next. -/
inductive ParseError.Possible (style : Style) : ParseError → Prop
  | refused (reason : Reason) (rest : List String) : Possible style (.refused reason rest)
  | endOfText (expected : String) : Possible style (.endOfText expected)
  | otherToken (bracketed : style ≠ .bare) (expected actual : String) (rest : List String) :
      Possible style (.otherToken expected actual rest)
  | unexpected (token : String) (rest : List String) : Possible style (.unexpected token rest)
  | wrongCount (late : style ≠ .operatorFirst) {op : Op} {n count : Nat}
      (arity : op.arity = some n) (differs : count ≠ n) (rest : List String) :
      Possible style (.wrongCount n count (op.symbol :: rest))

theorem Derives.wellFormed {style : Style} {tokens : List String} {t : Term}
    (h : Derives style tokens t) : t.WellFormed := by
  refine h.ind (motive := fun _ t => t.WellFormed) .var (fun {_ c} _ => .const c) ?_
  intro op parts args count _ ih
  have each : List.Forall₂ (fun a (_ : List String) => a.WellFormed ∧ True) args parts :=
    ih.flip.imp fun _ _ wf => ⟨wf, trivial⟩
  exact .app count ((List.forall₂_and_left args parts).mp each).1

namespace Reading

/-! ## Readers with constructors -/

def checkedLeaf (token : String) (rest : List String) : Except Failure Term :=
  match Variable.ofName? token with
  | some _ => (Term.ofName token).mapError .refusal
  | none =>
    match Decimal.read? token with
    | some c => ((Foreign.real c).number.map .const).mapError .refusal
    | none => .error (.parse (.unexpected token rest))

def checkedNode (op : Op) (args : List Term) : Except Failure Term :=
  (Term.construct op args).mapError .refusal

def checkedStep (reader : Reader) (limit : Limit) (frames : List Frame) (token : String)
    (rest : List String) : Except Failure Outcome :=
  match reader.act frames.head? token with
  | .supply _ => (checkedLeaf token rest).map (deliver · frames)
  | .close op =>
    match frames with
    | [] => .error (.parse (.unexpected token rest))
    | f :: fs => (checkedNode op f.operands.reverse).map (deliver · fs)
  | _ => (step reader limit frames token rest).mapError .parse

def checkedRun (reader : Reader) (limit : Limit) (frames : List Frame) :
    List String → Except Failure (Term × List String)
  | [] => .error (.parse (.endOfText (reader.missing frames.head?)))
  | token :: rest =>
    match checkedStep reader limit frames token rest with
    | .error e => .error e
    | .ok (.done t) => .ok (t, rest)
    | .ok (.more frames') => checkedRun reader limit frames' rest

def checkedDocument (reader : Reader) (limit : Limit) (tokens : List String) :
    Except Failure Term :=
  match checkedRun reader limit [] tokens with
  | .error e => .error e
  | .ok (t, []) => .ok t
  | .ok (_, rest) => .error (.parse (.refused .unwrapped rest))

def checkedBareStep (stack : List Term) (token : String) (rest : List String) :
    Except Failure (List Term) :=
  match Op.ofSymbol? token with
  | none => (checkedLeaf token rest).map (· :: stack)
  | some op =>
    match op.arity with
    | none => .error (.parse (.unexpected token rest))
    | some n =>
      if stack.length < n then .error (.parse (.wrongCount n stack.length (token :: rest)))
      else (checkedNode op (stack.take n).reverse).map (· :: stack.drop n)

def checkedBare (limit : Limit) (stack : List Term) : List String → Except Failure Term
  | [] => (bareEnd limit stack).mapError .parse
  | token :: rest =>
    match checkedBareStep stack token rest with
    | .error e => .error e
    | .ok stack' => checkedBare limit stack' rest

def checkedOfTokens (style : Style) (limit : Limit) (tokens : List String) : Except Failure Term :=
  match style with
  | .operatorFirst => checkedDocument operatorFirst limit tokens
  | .operatorLast => checkedDocument operatorLast limit tokens
  | .bare => checkedBare limit [] tokens

/-! ## Constructors that succeed -/

theorem checkedLeaf_eq (token : String) (rest : List String) :
    checkedLeaf token rest = match Term.ofToken? token with
      | some t => .ok t
      | none => .error (.parse (.unexpected token rest)) := by
  unfold checkedLeaf Term.ofToken?
  cases name : Variable.ofName? token with
  | some v =>
    simp only [Term.ofName, name]
    rfl
  | none => cases Decimal.read? token <;> rfl

theorem checkedNode_eq {op : Op} {args : List Term} (count : op.accepts args.length = true) :
    checkedNode op args = .ok (.app op args) := by
  rw [checkedNode, Term.construct_eq count]
  rfl

/-! ## Brackets -/

variable {reader : Reader} {style : Style} {limit : Limit} {frames : List Frame} {op : Op}
  {operands : List Term} {t : Term} {token : String} {rest taken tokens : List String}
  {e : ParseError}

theorem Opened.accepts (h : Opened style ⟨some op, operands⟩ taken)
    (count : style = .operatorFirst → ∀ n, op.arity = some n → n ≤ operands.length) :
    op.accepts operands.reverse.length = true :=
  (Term.wellFormed_app.mp (h.close count).wellFormed).1

/-- No constructor refuses at a step from brackets that were opened one after the other. -/
theorem checkedStep_eq (hr : Reads reader style) (reached : Reached style frames taken) :
    checkedStep reader limit frames token rest
      = (step reader limit frames token rest).mapError .parse := by
  have acted := hr.acts frames token
  generalize act : reader.act frames.head? token = action at acted
  unfold checkedStep
  -- only a leaf and a closing bracket make a node
  cases acted with
  | supply ready leaf =>
    simp only [step, act, checkedLeaf_eq, leaf]
    rfl
  | close count =>
    cases reached with
    | inside below ready opened =>
      simp only [step, act, checkedNode_eq (opened.accepts count)]
      rfl
  | enter | choose | refuse | demandClose | miscount => rw [act]

theorem possible_of_step (hr : Reads reader style)
    (h : step reader limit frames token rest = .error e) : e.Possible style := by
  have acted := hr.acts frames token
  generalize act : reader.act frames.head? token = action at acted
  unfold step at h
  rw [act] at h
  cases acted with
  | enter =>
    by_cases fits : limit.admits (frames.length + 1) = true
    · simp [fits] at h
    · simp only [fits] at h
      cases h
      exact .refused .tooDeep rest
  | supply | choose | close => cases h
  | refuse =>
    cases h
    exact .unexpected token rest
  | demandClose =>
    cases h
    exact .otherToken hr.bracketed closeBracket token _
  | miscount late arity differs =>
    cases h
    exact .wrongCount late arity differs rest

theorem checkedRun_eq (hr : Reads reader style) (reached : Reached style frames taken) :
    checkedRun reader limit frames tokens
      = (run reader limit frames tokens).mapError .parse := by
  induction tokens generalizing frames taken with
  | nil => rfl
  | cons token tokens ih =>
    rw [checkedRun, run, checkedStep_eq hr reached]
    cases stepped : step reader limit frames token tokens with
    | error e => rfl
    | ok o =>
      have explained := reached.step hr.bracketed (Steps.of_step hr stepped)
      cases o with
      | done t => rfl
      | more frames => exact ih explained

theorem possible_of_run (hr : Reads reader style)
    (h : run reader limit frames tokens = .error e) : e.Possible style := by
  induction tokens generalizing frames with
  | nil =>
    cases h
    exact .endOfText _
  | cons token tokens ih =>
    rw [run] at h
    cases stepped : step reader limit frames token tokens with
    | error e' =>
      rw [stepped] at h
      cases h
      exact possible_of_step hr stepped
    | ok o =>
      rw [stepped] at h
      cases o with
      | done t => cases h
      | more frames => exact ih h

theorem checkedDocument_eq (hr : Reads reader style) :
    checkedDocument reader limit tokens
      = (document reader limit tokens).mapError .parse := by
  rw [checkedDocument, document, element, checkedRun_eq hr .start]
  rcases run reader limit [] tokens with e | ⟨t, _ | ⟨token, rest⟩⟩ <;> rfl

theorem possible_of_document (hr : Reads reader style)
    (h : document reader limit tokens = .error e) : e.Possible style := by
  rw [document, element] at h
  cases read : run reader limit [] tokens with
  | error e' =>
    rw [read] at h
    cases h
    exact possible_of_run hr read
  | ok result =>
    rw [read] at h
    obtain ⟨t, _ | ⟨token, rest⟩⟩ := result
    · cases h
    · cases h
      exact .refused .unwrapped _

/-! ## The stack of operands -/

inductive BareSteps (stack : List Term) (token : String) (rest : List String) :
    Except ParseError (List Term) → Prop
  | leaf {t : Term} (leaf : Term.ofToken? token = some t) :
      BareSteps stack token rest (.ok (t :: stack))
  | node {op : Op} {n : Nat} (arity : op.arity = some n) (enough : n ≤ stack.length) :
      BareSteps stack token rest (.ok (.app op (stack.take n).reverse :: stack.drop n))
  | unexpected : BareSteps stack token rest (.error (.unexpected token rest))
  | wrongCount {op : Op} {n : Nat} (symbol : op.symbol = token) (arity : op.arity = some n)
      (few : stack.length < n) :
      BareSteps stack token rest (.error (.wrongCount n stack.length (token :: rest)))

variable {stack stack' : List Term}

theorem bareSteps (stack : List Term) (token : String) (rest : List String) :
    BareSteps stack token rest (bareStep stack token rest) := by
  unfold bareStep
  split
  · split
    · rename_i leaf
      exact .leaf leaf
    · exact .unexpected
  · rename_i op symbol
    split
    · exact .unexpected
    · rename_i n arity
      split
      · rename_i few
        exact .wrongCount (Op.symbol_of_ofSymbol? symbol) arity few
      · rename_i few
        exact .node arity (Nat.le_of_not_lt few)

theorem accepts_take {n : Nat} (arity : op.arity = some n) (enough : n ≤ stack.length) :
    op.accepts (stack.take n).reverse.length = true := by
  simp [Op.accepts, arity, enough]

theorem checkedBareStep_eq (stack : List Term) (token : String) (rest : List String) :
    checkedBareStep stack token rest = (bareStep stack token rest).mapError .parse := by
  unfold checkedBareStep bareStep
  cases Op.ofSymbol? token with
  | none =>
    rw [checkedLeaf_eq]
    cases Term.ofToken? token <;> rfl
  | some op =>
    cases arity : op.arity with
    | none => simp [arity, Except.mapError]
    | some n =>
      by_cases few : stack.length < n
      · simp [arity, few, Except.mapError]
      · have count := accepts_take arity (Nat.le_of_not_lt few)
        simp [arity, few, checkedNode_eq count, Except.map, Except.mapError]

theorem checkedBare_eq (limit : Limit) (stack : List Term) (tokens : List String) :
    checkedBare limit stack tokens = (bare limit stack tokens).mapError .parse := by
  induction tokens generalizing stack with
  | nil => rfl
  | cons token tokens ih =>
    rw [checkedBare, bare, checkedBareStep_eq]
    cases bareStep stack token tokens with
    | error e => rfl
    | ok stack' => exact ih stack'

theorem possible_of_bare (h : bare limit stack tokens = .error e) : e.Possible .bare := by
  induction tokens generalizing stack with
  | nil =>
    rw [bare] at h
    unfold bareEnd at h
    split at h
    · cases h
      exact .endOfText _
    · cases h
    · split at h
      · cases h
        exact .refused _ _
      · cases h
        exact .refused .tooDeep []
  | cons token tokens ih =>
    rw [bare] at h
    have steps := bareSteps stack token tokens
    generalize bareStep stack token tokens = result at steps h
    cases steps with
    | leaf | node => exact ih h
    | unexpected =>
      cases h
      exact .unexpected token tokens
    | wrongCount symbol arity few =>
      cases h
      subst symbol
      exact .wrongCount (by decide) arity (Nat.ne_of_lt few) tokens

theorem wellFormed_of_bareStep (wf : ∀ s ∈ stack, s.WellFormed)
    (h : bareStep stack token rest = .ok stack') : ∀ s ∈ stack', s.WellFormed := by
  have steps := bareSteps stack token rest
  rw [h] at steps
  cases steps with
  | leaf leaf =>
    have derived : Derives .bare [token] _ := derives_leaf leaf
    exact List.forall_mem_cons.mpr ⟨derived.wellFormed, wf⟩
  | node arity enough =>
    refine List.forall_mem_cons.mpr ⟨.app (accepts_take arity enough) ?_, ?_⟩
    · intro a ha
      exact wf a (List.mem_of_mem_take (List.mem_reverse.mp ha))
    · intro s hs
      exact wf s (List.mem_of_mem_drop hs)

theorem wellFormed_of_bare (wf : ∀ s ∈ stack, s.WellFormed) (h : bare limit stack tokens = .ok t) :
    t.WellFormed := by
  induction tokens generalizing stack with
  | nil =>
    rw [bare] at h
    unfold bareEnd at h
    split at h
    · cases h
    · cases h
      exact wf _ List.mem_cons_self
    · split at h <;> cases h
  | cons token tokens ih =>
    rw [bare] at h
    cases stepped : bareStep stack token tokens with
    | error e =>
      rw [stepped] at h
      cases h
    | ok stack' =>
      rw [stepped] at h
      exact ih (wellFormed_of_bareStep wf stepped) h

/-! ## Any style -/

theorem checkedOfTokens_eq (style : Style) (limit : Limit) (tokens : List String) :
    checkedOfTokens style limit tokens
      = (ofTokens style limit tokens).mapError .parse := by
  cases style with
  | operatorFirst => exact checkedDocument_eq .first
  | operatorLast => exact checkedDocument_eq .last
  | bare => exact checkedBare_eq limit [] tokens

theorem wellFormed_of_ofTokens (h : ofTokens style limit tokens = .ok t) : t.WellFormed := by
  cases style with
  | operatorFirst => exact (derives_of_document .first h).wellFormed
  | operatorLast => exact (derives_of_document .last h).wellFormed
  | bare => exact wellFormed_of_bare (fun _ none_ => absurd none_ List.not_mem_nil) h

theorem possible_of_ofTokens (h : ofTokens style limit tokens = .error e) : e.Possible style := by
  cases style with
  | operatorFirst => exact possible_of_document .first h
  | operatorLast => exact possible_of_document .last h
  | bare => exact possible_of_bare h

end Reading

open Reading

/-- Reading a text through the constructors of nodes meets no refusal of theirs: however deep it may
be nested, it comes to a well-formed term, or to an error of the text that its style can have. That
an interpreter may run out of stack where no reader catches it is left aside. -/
theorem parse_outcome (style : Style) (limit : Limit) (text : String) :
    let read := ofTokens style limit (tokenize text)
    checkedOfTokens style limit (tokenize text) = read.mapError .parse
      ∧ ((∃ t, read = .ok t ∧ t.WellFormed) ∨ ∃ e, read = .error e ∧ e.Possible style) := by
  intro read
  refine ⟨checkedOfTokens_eq style limit _, ?_⟩
  cases found : read with
  | ok t => exact Or.inl ⟨t, rfl, wellFormed_of_ofTokens found⟩
  | error e => exact Or.inr ⟨e, rfl, possible_of_ofTokens found⟩

end Formulae
