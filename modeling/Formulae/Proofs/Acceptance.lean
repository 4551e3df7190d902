import Formulae.Proofs.Soundness
/-!
Texts of the bracketed styles. Up to the supported nesting, a text is read as a term exactly where
its tokens derive that term, and they derive it in one way only. What a well-formed term is written
as is read as that term.
-/
namespace Formulae

open Token Reading

/-- How many brackets may be open at once in a text that is sure to be read. -/
def supportedNesting : Nat := 200

/-- A text is read as a term by the grammar and by nothing else. -/
structure ReadByGrammar (style : Style) (text : String) (t : Term) : Prop where
  accepts : Term.parse style text = .ok t ↔ Derives style (tokenize text) t
  one_term : ∀ t', Derives style (tokenize text) t → Derives style (tokenize text) t' → t' = t
  /-- The tokens of a bracket have one operator, and fall into its operands in one way. -/
  one_way : ∀ {op op' : Op} {parts parts' : List (List String)} {args args' : List Term},
    List.Forall₂ (Derives style) parts args → List.Forall₂ (Derives style) parts' args' →
    style.arrange op.symbol parts.flatten = style.arrange op'.symbol parts'.flatten →
    op = op' ∧ parts = parts' ∧ args = args'
  /-- The term is written with the same tokens, but numbers in their standard spelling. -/
  written : Derives style (tokenize text) t →
    tokenize (t.text style) = (tokenize text).map standard

variable {reader : Reader} {style : Style}

theorem ofTokens_eq (hr : Reads reader style) (limit : Limit)
    (tokens : List String) : ofTokens style limit tokens = document reader limit tokens := by
  cases hr <;> rfl

theorem derives_unique (hr : Reads reader style) {tokens : List String} {t t' : Term}
    (h : Derives style tokens t) (h' : Derives style tokens t') : t' = t :=
  (prefix_unique hr h' h (rfl : tokens ++ [] = tokens ++ [])).2

theorem readByGrammar (hr : Reads reader style) {text : String}
    (within : NestsWithin supportedNesting (tokenize text)) (t : Term) :
    ReadByGrammar style text t where
  accepts := by
    rw [Term.parse, ofTokens_eq hr]
    refine document_iff hr ?_
    intro most limit
    rw [← Option.some.inj limit]
    exact within.mono (by decide)
  one_term _ h h' := derives_unique hr h h'
  one_way ds ds' same := by
    obtain ⟨op_eq, inner⟩ := Style.arrange_inj same
    exact ⟨op_eq, operands_unique hr ds ds' inner⟩
  written h := by rw [Term.tokenize_text, h.tokens_eq]

theorem parse_own_text (hr : Reads reader style) {t : Term} (wf : t.WellFormed)
    (shallow : t.nesting ≤ supportedNesting) : Term.parse style (t.text style) = .ok t := by
  have fits : nestingLimit.admits t.nesting = true :=
    decide_eq_true (Nat.le_trans shallow (by decide))
  rw [Term.parse, ofTokens_eq hr, Term.tokenize_text]
  exact document_of_derives hr nestingLimit (Derives.of_wellFormed style wf) fits

/-- In both bracketed styles, a well-formed term is read back from its own text. -/
theorem parse_text (t : Term) (wf : t.WellFormed) (shallow : t.nesting ≤ supportedNesting) :
    Term.parse .operatorFirst (t.text .operatorFirst) = .ok t
      ∧ Term.parse .operatorLast (t.text .operatorLast) = .ok t :=
  ⟨parse_own_text .first wf shallow, parse_own_text .last wf shallow⟩

theorem parse_text_sum_of_none :
    let t := Term.app (.distance .two)
      [.app .lse [], .app .sub [.const (.zero true), .app .neg [.const .nan]]]
    t.text .operatorFirst = "(distance2 (lse) (- -0 (negate nan)))"
      ∧ Term.parse .operatorFirst (t.text .operatorFirst) = .ok t
      ∧ Term.parse .operatorLast (t.text .operatorLast) = .ok t :=
  ⟨by decide +kernel, parse_text _ (by decide +kernel) (by decide +kernel)⟩

/-- With the operator first, a text is read by the grammar of that style. -/
theorem parse_operatorFirst_iff (text : String)
    (within : NestsWithin supportedNesting (tokenize text)) (t : Term) :
    ReadByGrammar .operatorFirst text t :=
  readByGrammar .first within t

theorem parse_operatorFirst_iff_sum :
    let t := Term.app .add [.var .x, .app .sumexp [.const .one]]
    Derives .operatorFirst (tokenize "(+ x (sumexp 1.00))") t
      ∧ tokenize (t.text .operatorFirst) = ["(", "+", "x", "(", "sumexp", "1", ")", ")"] := by
  intro t
  have read := parse_operatorFirst_iff "(+ x (sumexp 1.00))" (by decide +kernel) t
  have derived := read.accepts.mp (by decide +kernel)
  exact ⟨derived, (read.written derived).trans (by decide +kernel)⟩

/-- With the operator last, a text is read by the grammar of that style. -/
theorem parse_operatorLast_iff (text : String)
    (within : NestsWithin supportedNesting (tokenize text)) (t : Term) :
    ReadByGrammar .operatorLast text t :=
  readByGrammar .last within t

theorem parse_operatorLast_iff_sum :
    let t := Term.app .add [.var .x, .app .sumexp [.const .one]]
    Derives .operatorLast (tokenize "(x (1.00 sumexp) +)") t
      ∧ tokenize (t.text .operatorLast) = ["(", "x", "(", "1", "sumexp", ")", "+", ")"] := by
  intro t
  have read := parse_operatorLast_iff "(x (1.00 sumexp) +)" (by decide +kernel) t
  have derived := read.accepts.mp (by decide +kernel)
  exact ⟨derived, (read.written derived).trans (by decide +kernel)⟩

end Formulae
