import Formulae.Proofs.Safety
import Formulae.Proofs.VariablesRead
/-!
Validity told from single constants and single rows. A term is valid where each of its constants is
finite, and on a table where its value on each row is finite too. What an operator makes on the way
to that value has no part in it, and neither have the other rows, so tables may be put together and
their rows may change places.
-/
namespace Formulae

universe u

variable {α : Type u}

/-- Rows of one width, with a cell for each variable and maybe more. -/
structure Sheet (α : Type u) where
  width : Nat
  rows : List (List α)
  even : ∀ cells ∈ rows, cells.length = width
  wide : 3 ≤ width

namespace Sheet

def table (s : Sheet α) : Tensor α := ⟨[s.rows.length, s.width], s.rows.flatten⟩

theorem pieces_flatten (s : Sheet α) :
    Tensor.pieces s.width s.rows.length s.rows.flatten = s.rows := by
  have cut := Tensor.pieces_flatMap id s.rows s.even
  rwa [List.flatMap_id, List.map_id] at cut

theorem exists_row (s : Sheet α) {cells : List α} (mem : cells ∈ s.rows) :
    ∃ row, Row.ofList? cells = some row := by
  have enough : 3 ≤ cells.length := by
    rw [s.even cells mem]
    exact s.wide
  match cells, enough with
  | x :: y :: z :: _, _ => exact ⟨⟨x, y, z⟩, rfl⟩

theorem ofCells_eq (absent : α) {width : Nat} (wide : 3 ≤ width) {cells : List α} {row : Row α}
    (bound : Row.ofList? cells = some row) :
    Row.ofCells absent (fun c => if c < width then cells[c]? else none) = row := by
  match cells, bound with
  | x :: y :: z :: _, rfl =>
    have inside : 0 < width ∧ 1 < width ∧ 2 < width := by omega
    simp [Row.ofCells, inside]

/-- The bindings that a table makes are those of its rows. -/
theorem mem_ofArray_iff (absent : α) (s : Sheet α) {row : Row α} :
    row ∈ Row.ofArray absent s.table ↔ ∃ cells ∈ s.rows, Row.ofList? cells = some row := by
  rw [Row.ofArray_eq absent (rfl : s.table.shape = _), table, pieces_flatten, List.mem_map]
  refine exists_congr fun cells => and_congr_right fun mem => ?_
  obtain ⟨row', bound⟩ := s.exists_row mem
  rw [ofCells_eq absent s.wide bound, bound, Option.some_inj]

end Sheet

theorem Tensor.flatten_pieces {width n : Nat} {xs : List α} (length : xs.length = n * width) :
    (pieces width n xs).flatten = xs := by
  induction n generalizing xs with
  | zero => exact (List.length_eq_zero_iff.mp (by omega)).symm
  | succ n ih =>
    rw [Nat.succ_mul] at length
    have rest : (xs.drop width).length = n * width := by simp; omega
    rw [pieces, List.flatten_cons, ih rest, List.take_append_drop]

theorem Tensor.Binds.exists_sheet {table : Tensor α} {n : Nat} (binds : table.Binds n) :
    ∃ s : Sheet α, s.table = table ∧ s.rows.length = n := by
  obtain ⟨width, shape, wide⟩ := binds.wide
  have length : table.entries.length = n * width := by
    simpa [Full, shape, Shape.volume] using binds.full
  refine ⟨⟨width, pieces width n table.entries, length_of_mem_pieces length, wide⟩, ?_,
    length_pieces ..⟩
  rw [Sheet.table, length_pieces, flatten_pieces length, ← shape]

namespace Term

variable {t : Term}

theorem WellFormed.isValid_iff (wf : t.WellFormed) :
    t.isValid = true ↔ ∀ c ∈ t.constants, c.isFinite = true := by
  rw [wf.isValid_eq, List.all_eq_true]

theorem isValid_iff_depthFirst : t.isValid = true ↔ ∀ s ∈ t.depthFirst, s.isValid = true := by
  induction t using ind with
  | var | const => simp [depthFirst]
  | app op args ih =>
    rw [depthFirst_app, List.forall_mem_cons, List.forall_mem_flatMap]
    refine ⟨fun valid => ⟨valid, fun a ha => (ih a ha).mp ?_⟩, And.left⟩
    rw [isValid_app, Bool.and_eq_true, List.all_eq_true] at valid
    exact valid.2 a ha

theorem WellFormed.isValid_sheet_iff (wf : t.WellFormed) (A : Arithmetic Double)
    (s : Sheet Double) : (Operand.term t).isValid A (some s.table) = true
      ↔ t.isValid = true ∧ ∀ cells ∈ s.rows, ∃ row a, Row.ofList? cells = some row
        ∧ t.evaluateAt A row = .ok (.scalar a) ∧ a.isFinite = true := by
  rw [Operand.isValid, wf.isValidOn_eq, Bool.and_eq_true, List.all_eq_true, List.forall_mem_map]
  simp only [Sheet.mem_ofArray_iff .nan s]
  refine and_congr_right fun _ => ⟨?_, ?_⟩
  · intro finite cells mem
    obtain ⟨row, bound⟩ := s.exists_row mem
    exact ⟨row, _, bound, evaluateAt_eq A row wf, finite row ⟨cells, mem, bound⟩⟩
  · rintro finite row ⟨cells, mem, bound⟩
    obtain ⟨row', a, bound', value, finite⟩ := finite cells mem
    obtain rfl := Option.some.inj (bound.symm.trans bound')
    rw [evaluateAt_eq A row wf] at value
    cases value
    exact finite

/-- Validity is told from single constants and, on a table, from single rows. -/
theorem isValid_pointwise (t : Term) (wf : t.WellFormed) (A : Arithmetic Double) :
    let valid := fun table? => (Operand.term t).isValid A table? = true
    (valid none ↔ ∀ c ∈ t.constants, c.isFinite = true)
      ∧ (valid none ↔ ∀ s ∈ t.depthFirst, (Operand.term s).isValid A none = true)
      ∧ (∀ s : Sheet Double, valid (some s.table) ↔ valid none
        ∧ ∀ cells ∈ s.rows, ∃ row a, Row.ofList? cells = some row
          ∧ t.evaluateAt A row = .ok (.scalar a) ∧ a.isFinite = true)
      ∧ (∀ (table : Tensor Double) (n : Nat), table.Binds n →
        ∃ s : Sheet Double, s.table = table ∧ s.rows.length = n)
      ∧ (∀ whole above below : Sheet Double, whole.rows.Perm (above.rows ++ below.rows) →
        (valid (some whole.table) ↔ valid (some above.table) ∧ valid (some below.table))) := by
  intro valid
  refine ⟨wf.isValid_iff, isValid_iff_depthFirst, wf.isValid_sheet_iff A,
    fun _ _ binds => binds.exists_sheet, fun whole above below order => ?_⟩
  have onRows := wf.isValid_sheet_iff A
  simp only [valid, onRows, order.mem_iff, List.forall_mem_append]
  exact and_and_left

theorem isValid_pointwise_reciprocal :
    let inner := app .div [var .x, var .y]
    let t := app .div [.const .one, inner]
    let s : Sheet Double := ⟨4, [[.one, .zero false, .nan, .nan]], by decide, by decide⟩
    (Operand.term t).isValid Double.arithmetic (some s.table) = true
      ∧ (Operand.term inner).isValid Double.arithmetic (some s.table) = false := by
  intro inner t s
  constructor
  · obtain ⟨-, -, onRows, -⟩ := isValid_pointwise t (by decide) Double.arithmetic
    refine (onRows s).mpr ⟨by decide +kernel, ?_⟩
    simp only [s, List.forall_mem_singleton]
    exact ⟨_, _, rfl, evaluateAt_eq _ _ (by decide), by decide +kernel⟩
  · decide +kernel

end Term

end Formulae
