import Formulae.Proofs.Acceptance
import Formulae.Proofs.Spacing
import Formulae.Term.Traversal
/-!
Reading without brackets. Where every operator fixes the count of its operands, the tokens of a term
put that term on top of any stack. The brackets of the style with the operator last only show what
the stack finds by itself, so its tokens without brackets are read as the same term.
-/
namespace Formulae

open Token

namespace Term

/-- No operator of a term takes any number of operands. -/
def FixedCounts (t : Term) : Prop :=
  ∀ s ∈ t.depthFirst, s.hasOp .sumexp = false ∧ s.hasOp .lse = false

instance (t : Term) : Decidable t.FixedCounts :=
  inferInstanceAs (Decidable (∀ s ∈ t.depthFirst, _))

theorem fixedCounts_app {op : Op} {args : List Term} :
    (app op args).FixedCounts ↔ (∃ n, op.arity = some n) ∧ ∀ a ∈ args, a.FixedCounts := by
  have here : (app op args).hasOp .sumexp = false ∧ (app op args).hasOp .lse = false
      ↔ ∃ n, op.arity = some n := by
    cases op <;> simp [hasOp, Op.arity]
  simp only [FixedCounts, depthFirst_app, List.forall_mem_cons, List.forall_mem_flatMap, here]

end Term

namespace Reading

theorem bareStep_symbol {op : Op} {args : List Term} {n : Nat} (arity : op.arity = some n)
    (count : args.length = n) (stack : List Term) (rest : List String) :
    bareStep (args.reverse ++ stack) op.symbol rest = .ok (.app op args :: stack) := by
  have length : args.reverse.length = n := by rw [List.length_reverse, count]
  have enough : ¬ (args.reverse ++ stack).length < n := by
    rw [List.length_append, length]
    omega
  simp only [bareStep, Op.ofSymbol?_symbol, arity, if_neg enough, List.take_left' length,
    List.drop_left' length, List.reverse_reverse]

theorem bareStep_leaf {token : String} {t : Term} (leaf : Term.ofToken? token = some t)
    (stack : List Term) (rest : List String) : bareStep stack token rest = .ok (t :: stack) := by
  have operand : Starts token := Or.inr ⟨t, leaf⟩
  simp only [bareStep, operand.ofSymbol?, leaf]

/-- Tokens that put a term on top of any stack. -/
def Pushes (tokens : List String) (t : Term) : Prop :=
  ∀ limit stack rest, bare limit stack (tokens ++ rest) = bare limit (t :: stack) rest

theorem pushes_leaf {token : String} {t : Term} (leaf : Term.ofToken? token = some t) :
    Pushes [token] t := by
  intro limit stack rest
  rw [List.singleton_append, bare, bareStep_leaf leaf]

theorem bare_operands {parts : List (List String)} {args : List Term}
    (h : List.Forall₂ Pushes parts args) (limit : Limit) (stack : List Term) (rest : List String) :
    bare limit stack (parts.flatten ++ rest) = bare limit (args.reverse ++ stack) rest := by
  induction h generalizing stack with
  | nil => rfl
  | @cons u a parts args first _ ih =>
    rw [List.flatten_cons, List.append_assoc, first, ih, List.reverse_cons, List.append_assoc]
    rfl

theorem pushes_app {op : Op} {parts : List (List String)} {args : List Term} {n : Nat}
    (arity : op.arity = some n) (count : op.accepts args.length = true)
    (h : List.Forall₂ Pushes parts args) :
    Pushes (Style.bare.arrange op.symbol parts.flatten) (.app op args) := by
  intro limit stack rest
  have length : args.length = n := by simpa [Op.accepts, arity] using count
  rw [Style.arrange, List.append_assoc, bare_operands h, List.singleton_append, bare,
    bareStep_symbol arity length]

theorem forall₂_of_forall {R : List String → Term → Prop} {parts : List (List String)}
    {args : List Term} {P : Term → Prop} (h : List.Forall₂ (fun u a => P a → R u a) parts args)
    (all : ∀ a ∈ args, P a) : List.Forall₂ R parts args := by
  induction h with
  | nil => exact .nil
  | cons first _ ih =>
    obtain ⟨here, others⟩ := List.forall_mem_cons.mp all
    exact .cons (first here) (ih others)

theorem pushes_of_derives {tokens : List String} {t : Term} (h : Derives .bare tokens t) :
    t.FixedCounts → Pushes tokens t := by
  refine h.ind (motive := fun tokens t => t.FixedCounts → Pushes tokens t) ?_ ?_ ?_
  · intro v _
    exact pushes_leaf (Term.ofToken?_name v)
  · intro token c number _
    exact pushes_leaf (ofToken?_number number)
  · intro op parts args count _ ih fixed
    obtain ⟨⟨n, arity⟩, operands⟩ := Term.fixedCounts_app.mp fixed
    exact pushes_app arity count (forall₂_of_forall ih operands)

theorem bare_of_derives {tokens : List String} {t : Term} (h : Derives .bare tokens t)
    (fixed : t.FixedCounts) (limit : Limit) : bare limit [] tokens = .ok t := by
  have pushed := pushes_of_derives h fixed limit [] []
  rw [List.append_nil] at pushed
  exact pushed

end Reading

/-! ## Brackets left out -/

open Reading

def unbracketed (tokens : List String) : List String :=
  tokens.filter fun token => token ≠ openBracket ∧ token ≠ closeBracket

theorem unbracketed_flat {token : String} (h : Flat token) : unbracketed [token] = [token] := by
  simp [unbracketed, h.1, h.2]

theorem unbracketed_arrange (op : Op) (inner : List String) :
    unbracketed (Style.operatorLast.arrange op.symbol inner)
      = Style.bare.arrange op.symbol (unbracketed inner) := by
  have flat := flat_symbol op
  simp [unbracketed, Style.arrange, flat.1, flat.2]

theorem unbracketed_flatten (parts : List (List String)) :
    unbracketed parts.flatten = (parts.map unbracketed).flatten :=
  List.filter_flatten

/-- Without its brackets, a term that has its operators last is a term without brackets. -/
theorem Derives.unbracketed {tokens : List String} {t : Term}
    (h : Derives .operatorLast tokens t) : Derives .bare (unbracketed tokens) t := by
  refine h.ind (motive := fun tokens t => Derives .bare (Formulae.unbracketed tokens) t) ?_ ?_ ?_
  · intro v
    rw [unbracketed_flat (flat_name v)]
    exact .var v
  · intro token c number
    rw [unbracketed_flat (flat_of_number number)]
    exact .const number
  · intro op parts args count _ ih
    rw [unbracketed_arrange, unbracketed_flatten]
    exact .app count (List.forall₂_map_left_iff.mpr ih)

theorem tokenize_unbracketed (text : String) :
    tokenize (" ".intercalate (unbracketed (tokenize text))) = unbracketed (tokenize text) :=
  tokenize_intercalate fun _ mem => piece_of_mem_tokenize (List.mem_filter.mp mem).1

theorem derives_of_parse_operatorLast {text : String} {t : Term}
    (h : Term.parse .operatorLast text = .ok t) : Derives .operatorLast (tokenize text) t := by
  rw [Term.parse, ofTokens_eq .last] at h
  exact derives_of_document .last h

/-- Where every operator fixes the count of its operands, a term is read back from its text without
brackets, and a text with the operators last is read as the same term when its brackets are left
out. -/
theorem parse_bare (t : Term) (fixed : t.FixedCounts) :
    (t.WellFormed → Term.parse .bare (t.text .bare) = .ok t)
      ∧ ∀ text, Term.parse .operatorLast text = .ok t →
        Term.parse .bare (" ".intercalate (unbracketed (tokenize text))) = .ok t := by
  constructor
  · intro wf
    rw [Term.parse, Term.tokenize_text]
    exact bare_of_derives (.of_wellFormed .bare wf) fixed nestingLimit
  · intro text h
    rw [Term.parse, tokenize_unbracketed]
    exact bare_of_derives (derives_of_parse_operatorLast h).unbracketed fixed nestingLimit

theorem parse_bare_distance :
    let t := Term.app .sub
      [.app .neg [.const (.infinity true)], .app (.distance .three) [.var .x, .const .nan, .var .z]]
    t.text .bare = "-inf negate x nan z distance3 -"
      ∧ Term.parse .bare (t.text .bare) = .ok t
      ∧ " ".intercalate (unbracketed (tokenize "((-Infinity negate)(x NaN z distance3) -)"))
        = "-Infinity negate x NaN z distance3 -"
      ∧ Term.parse .bare "-Infinity negate x NaN z distance3 -" = .ok t := by
  intro t
  have read := parse_bare t (by decide +kernel)
  have text : " ".intercalate (unbracketed (tokenize "((-Infinity negate)(x NaN z distance3) -)"))
      = "-Infinity negate x NaN z distance3 -" := by decide +kernel
  exact ⟨by decide +kernel, read.1 (by decide +kernel), text,
    text ▸ read.2 "((-Infinity negate)(x NaN z distance3) -)" (by decide +kernel)⟩

end Formulae
