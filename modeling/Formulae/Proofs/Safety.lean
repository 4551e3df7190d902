import Formulae.Proofs.CallValue
import Formulae.Proofs.CheckedDerivative
import Formulae.Proofs.Sessions
import Formulae.Proofs.TableValue
import Formulae.Term.Evaluate
/-!
What may be done to a well-formed term without an error: evaluation on tables, differentiation,
conversion into calls, writing, traversal and validation. Counts of operands are looked at where a
node is made and nowhere else, and that is enough.
-/
namespace Formulae

open Token

universe u

/-! ## Tables -/

section Tables

variable {α : Type u}

theorem Tensor.exists_rows {n : Nat} {entries : List α} (length : entries.length = n * 3) :
    ∃ rows : List (Row α), rows.length = n ∧ entries = rows.flatMap Row.cells := by
  induction n generalizing entries with
  | zero => exact ⟨[], rfl, List.length_eq_zero_iff.mp (by omega)⟩
  | succ n ih =>
    rcases entries with _ | ⟨x, _ | ⟨y, _ | ⟨z, entries⟩⟩⟩
    · simp at length
    · simp at length
      omega
    · simp at length
      omega
    · have rest : entries.length = n * 3 := by
        simp only [List.length_cons] at length
        omega
      obtain ⟨rows, rfl, rfl⟩ := ih rest
      exact ⟨⟨x, y, z⟩ :: rows, rfl, rfl⟩

theorem Tensor.exists_ofRows {table : Tensor α} (full : table.Full) {n : Nat}
    (shape : table.shape = [n, 3]) : ∃ rows, rows.length = n ∧ table = .ofRows rows := by
  obtain ⟨_, entries⟩ := table
  cases shape
  obtain ⟨rows, rfl, rfl⟩ := exists_rows (full : entries.length = n * 3)
  exact ⟨rows, rfl, rfl⟩

theorem Row.ofArray_ofRows (absent : α) (rows : List (Row α)) :
    ofArray absent (.ofRows rows) = rows := by
  have cut : Tensor.pieces 3 rows.length (rows.flatMap cells) = rows.map cells :=
    Tensor.pieces_flatMap cells rows fun _ _ => rfl
  calc
    ofArray absent (.ofRows rows)
        = (Tensor.pieces 3 rows.length (rows.flatMap cells)).flatMap fun block =>
            [ofCells absent fun c => if c < 3 then block[c * 1 + 0]? else none] := rfl
    _ = rows := by
      rw [cut, List.flatMap_map]
      exact List.flatMap_singleton' rows

end Tables

namespace Term

variable {t : Term}

/-! ## Calls -/

theorem exists_ofOp?_of_accepts {op : Op} {calls : List Call}
    (count : op.accepts calls.length = true) : ∃ call, Call.ofOp? op calls = some call := by
  cases op with
  | add | sub | mul | div =>
    obtain ⟨a, b, rfl⟩ := Op.two_operands (of_decide_eq_true count)
    exact ⟨_, rfl⟩
  | neg =>
    obtain ⟨a, rfl⟩ := Op.one_operand (of_decide_eq_true count)
    exact ⟨_, rfl⟩
  | sumexp | lse | sumsq | distance => exact ⟨_, rfl⟩

theorem WellFormed.exists_call? (wf : t.WellFormed) : ∃ call, t.call? = some call := by
  induction t using ind with
  | var | const => exact ⟨_, rfl⟩
  | app op args ih =>
    obtain ⟨count, operands⟩ := wellFormed_app.mp wf
    have each : ∀ a ∈ args, ∃ call, a.call? = some call ∧ True := by
      intro a ha
      obtain ⟨call, converted⟩ := ih a ha (operands a ha)
      exact ⟨call, converted, trivial⟩
    obtain ⟨calls, converted, pairs⟩ := exists_mapM each
    rw [pairs.length_eq] at count
    rw [call?_app, converted, Option.bind_some]
    exact exists_ofOp?_of_accepts count

/-! ## Traversals -/

theorem WellFormed.children (wf : t.WellFormed) : ∀ s ∈ t.children, s.WellFormed := by
  cases wf with
  | var | const => simp [Term.children]
  | app _ operands => exact operands

theorem wellFormed_of_mem_release {queue : List Term} (wf : ∀ s ∈ queue, s.WellFormed) :
    ∀ s ∈ release queue, s.WellFormed := by
  induction queue using release.induct with
  | case1 => simp [release]
  | case2 t queue ih =>
    obtain ⟨first, others⟩ := List.forall_mem_cons.mp wf
    rw [release]
    exact List.forall_mem_cons.mpr
      ⟨first, ih (List.forall_mem_append.mpr ⟨others, first.children⟩)⟩

theorem WellFormed.breadthFirst (wf : t.WellFormed) : ∀ s ∈ t.breadthFirst, s.WellFormed :=
  wellFormed_of_mem_release (by simpa using wf)

theorem WellFormed.depthFirst (wf : t.WellFormed) : ∀ s ∈ t.depthFirst, s.WellFormed := by
  induction t using ind with
  | var | const => simpa [Term.depthFirst] using wf
  | app op args ih =>
    rw [depthFirst_app, List.forall_mem_cons, List.forall_mem_flatMap]
    exact ⟨wf, fun a ha => ih a ha (wf.children a ha)⟩

theorem WellFormed.nodes (wf : t.WellFormed) (order : Order) :
    ∀ s ∈ t.nodes order, s.WellFormed := by
  cases order with
  | breadthFirst => exact wf.breadthFirst
  | depthFirst => exact wf.depthFirst

/-! ## Validity -/

theorem WellFormed.isValid_eq (wf : t.WellFormed) :
    t.isValid = t.constants.all Double.isFinite := by
  induction t using ind with
  | var v => rfl
  | const c => simp [isValid, fold, constants, Term.depthFirst, constOf?]
  | app op args ih =>
    obtain ⟨count, operands⟩ := wellFormed_app.mp wf
    rw [isValid_app, count, Bool.true_and, constants_app, List.all_flatMap]
    rw [Bool.eq_iff_iff, List.all_eq_true, List.all_eq_true]
    exact forall₂_congr fun a ha => by rw [ih a ha (operands a ha)]

theorem WellFormed.isValidOn_eq (wf : t.WellFormed) (A : Arithmetic Double)
    (rows : List (Row Double)) : t.isValidOn A rows
      = (t.isValid && (rows.map fun row => t.value A row).all Double.isFinite) := by
  rw [isValidOn, column?_eq A rows wf, Option.map_some, Option.getD_some]

/-! ## All operations -/

/-- No operation on a term fails. -/
structure Safe (t : Term) : Prop where
  evaluates : ∀ {α : Type u} (A : Arithmetic α) (table : Tensor α) (n : Nat), table.Full →
    table.shape = [n, 3] → ∃ values, t.evaluateTable A table = .ok values ∧ values.length = n
  /-- The constructors of nodes make the derivative. -/
  differentiates : ∀ v : Variable, ∃ d, t.differentiate v.name = .ok d
    ∧ t.checkedDerivative v = .ok d ∧ d.WellFormed
  converts : ∃ call, t.call? = some call
  writes : ∀ style, Derives style (tokenize (t.text style)) t
  traverses : ∀ order ∈ ["breadth_first", "depth_first"],
    ∃ nodes, (Operand.term t).nodesBy order = .ok nodes ∧ ∀ s ∈ nodes, s.WellFormed
  finds : ∀ op : Op, ∃ nodes, (Operand.term t).withOpNamed op.symbol = .ok nodes
    ∧ ∀ s ∈ nodes, s.WellFormed
  /-- The count of operands has no part in validity. -/
  validates : ∀ A, (Operand.term t).isValid A none = t.constants.all Double.isFinite
  validatesOn : ∀ (A : Arithmetic Double) (table : Tensor Double) (n : Nat), table.Full →
    table.shape = [n, 3] → ∃ values, t.evaluateTable A table = .ok values
      ∧ (Operand.term t).isValid A (some table)
        = (t.constants.all Double.isFinite && values.all Double.isFinite)

theorem WellFormed.safe (wf : t.WellFormed) : t.Safe where
  evaluates A table n full shape := by
    obtain ⟨rows, rfl, rfl⟩ := Tensor.exists_ofRows full shape
    exact ⟨_, evaluateTable_eq A rows wf, List.length_map _⟩
  differentiates v := ⟨_, differentiate_eq wf v, checkedDerivative_eq wf v, wf.derivative v⟩
  converts := wf.exists_call?
  writes style := by
    rw [tokenize_text]
    exact .of_wellFormed style wf
  traverses order known := by
    obtain rfl | rfl : order = "breadth_first" ∨ order = "depth_first" := by simpa using known
    · exact ⟨_, rfl, wf.nodes .breadthFirst⟩
    · exact ⟨_, rfl, wf.nodes .depthFirst⟩
  finds op := by
    refine ⟨t.withOp op, ?_, fun s hs => wf.breadthFirst s (List.mem_of_mem_filter hs)⟩
    simp only [Operand.withOpNamed, Op.ofSymbol?_symbol, Operand.having]
  validates _ := wf.isValid_eq
  validatesOn A table n full shape := by
    obtain ⟨rows, rfl, rfl⟩ := Tensor.exists_ofRows full shape
    refine ⟨_, evaluateTable_eq A rows wf, ?_⟩
    rw [Operand.isValid, Row.ofArray_ofRows, wf.isValidOn_eq, wf.isValid_eq]

end Term

/-- A constructor of operators succeeds just for the code of an operator, over terms alone, in a
count that the operator accepts, and else reports the first of the three that fails. The nodes that
constructors, readers and differentiation make are the well-formed terms, and no operation on them
fails. How much of its stack an interpreter needs for a deep term is left aside. -/
theorem construction_safe :
    (∀ a operands t, Term.apply a operands = .ok t ↔ ∃ op args, a.Names op
        ∧ operands = List.map .term args ∧ op.accepts args.length = true ∧ t = .app op args)
      ∧ (∀ a operands e, Term.apply a operands = .error e ↔ Fails a operands e e.message)
      ∧ (∀ t : Term, (∃ made, Session made ∧ t ∈ made) ↔ t.WellFormed)
      ∧ ∀ made, Session made → ∀ t ∈ made, t.Safe :=
  ⟨fun _ _ _ => Term.apply_ok_iff, fun _ _ _ => Term.apply_error_iff, fun _ => exists_session_iff,
    fun _ session t mem => (session.wellFormed t mem).safe⟩

theorem construction_safe_empty_sum :
    let t := Term.app .lse []
    let d := Term.app .div [.zero, .app .sumexp []]
    let table : Tensor Double := ⟨[2, 3], List.replicate 6 .one⟩
    Session [d, t] ∧ (∃ call, d.call? = some call)
      ∧ ∃ values, d.evaluateTable Double.arithmetic table = .ok values ∧ values.length = 2 := by
  intro t d table
  have read : Reading.ofTokens .operatorFirst none (tokenize "(lse)") = .ok t := by decide +kernel
  have derived : t.differentiate "x" = .ok d := by rfl
  have session : Session [d, t] :=
    .call (.call .start (.reading read)) (.derivative List.mem_cons_self derived)
  have safe : d.Safe := construction_safe.2.2.2 [d, t] session d List.mem_cons_self
  exact ⟨session, safe.converts, safe.evaluates _ table 2 rfl rfl⟩

end Formulae
