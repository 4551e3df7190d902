import Formulae.Proofs.IteratedDerivative
/-!
Which cells of a table the values of a term rest on. They rest on the columns of the variables that
occur in the term and on no others, and so do the values of its derivatives, since these have no
variables of their own. None of the columns can be spared in every arithmetic.
-/
namespace Formulae

universe u

variable {α : Type u}

/-! ## Columns -/

/-- A full table of `n` rows that have a cell for each variable, and maybe more. -/
structure Tensor.Binds (table : Tensor α) (n : Nat) : Prop where
  full : table.Full
  wide : ∃ width, table.shape = [n, width] ∧ 3 ≤ width

theorem Tensor.length_of_mem_pieces {width n : Nat} {xs : List α} (length : xs.length = n * width) :
    ∀ block ∈ pieces width n xs, block.length = width := by
  induction n generalizing xs with
  | zero => simp [pieces]
  | succ n ih =>
    rw [Nat.succ_mul] at length
    have rest : (xs.drop width).length = n * width := by simp; omega
    rw [pieces, List.forall_mem_cons]
    exact ⟨by simp; omega, ih rest⟩

theorem Variable.column_lt (v : Variable) : v.column < 3 := by cases v <;> decide

theorem Row.get_ofCells (absent : α) (cell : Nat → Option α) (v : Variable) :
    (ofCells absent cell).get v = (cell v.column).getD absent := by
  cases v <;> rfl

theorem Column.ofTable_column {table : Tensor α} {n width : Nat} (shape : table.shape = [n, width])
    {v : Variable} (inside : v.column < width) :
    ofTable table v.column
      = ⟨[n], (Tensor.pieces width n table.entries).flatMap fun b => (b.drop v.column).take 1⟩ := by
  have place : Position.get? (List.range width) v.column = some v.column :=
    List.getElem?_range inside
  simp [ofTable, shape, place, Tensor.atSecond, inside, Shape.volume]

theorem Row.ofArray_eq (absent : α) {table : Tensor α} {n width : Nat}
    (shape : table.shape = [n, width]) :
    ofArray absent table = (Tensor.pieces width n table.entries).map fun block =>
      ofCells absent fun c => if c < width then block[c]? else none := by
  simp [ofArray, shape, Shape.volume, List.map_eq_flatMap]

theorem Row.map_get_ofArray (absent : α) {table : Tensor α} {n : Nat} (binds : table.Binds n)
    (v : Variable) :
    (ofArray absent table).map (·.get v) = (Column.ofTable table v.column).entries := by
  obtain ⟨width, shape, wide⟩ := binds.wide
  have inside : v.column < width := Nat.lt_of_lt_of_le v.column_lt wide
  have length : table.entries.length = n * width := by
    simpa [Tensor.Full, shape, Shape.volume] using binds.full
  have cell : ∀ block ∈ Tensor.pieces width n table.entries,
      (block.drop v.column).take 1 = [(block[v.column]?).getD absent] := by
    intro block mem
    have bound : v.column < block.length := by
      rwa [Tensor.length_of_mem_pieces length block mem]
    rw [List.drop_eq_getElem_cons bound, List.take_succ_cons, List.take_zero,
      List.getElem?_eq_getElem bound, Option.getD_some]
  rw [ofArray_eq absent shape, Column.ofTable_column shape inside, List.flatMap_congr cell,
    List.map_map, List.map_eq_flatMap]
  simp [get_ofCells, inside]

theorem Row.length_ofArray (absent : α) {table : Tensor α} {n : Nat} (binds : table.Binds n) :
    (ofArray absent table).length = n := by
  obtain ⟨width, shape, -⟩ := binds.wide
  rw [ofArray_eq absent shape, List.length_map, Tensor.length_pieces]

namespace Term

/-! ## Columns that are not read -/

theorem value_congr (A : Arithmetic α) {t : Term} {row row' : Row α}
    (agree : ∀ v ∈ t.vars, row.get v = row'.get v) : t.value A row = t.value A row' := by
  induction t using ind with
  | var v => exact agree v (mem_vars_var.mpr rfl)
  | const c => rfl
  | app op args ih =>
    have operands : args.map (value A row) = args.map (value A row') :=
      List.map_congr_left fun a ha =>
        ih a ha fun v hv => agree v (mem_vars_app.mpr ⟨a, ha, hv⟩)
    rw [value_app, value_app, operands]

theorem map_value_congr (A : Arithmetic α) {t : Term} {rows rows' : List (Row α)}
    (length : rows.length = rows'.length)
    (agree : ∀ v ∈ t.vars, rows.map (·.get v) = rows'.map (·.get v)) :
    rows.map (t.value A) = rows'.map (t.value A) := by
  apply List.ext_getElem (by simpa using length)
  intro i inside inside'
  rw [List.length_map] at inside inside'
  rw [List.getElem_map, List.getElem_map]
  apply value_congr
  intro v hv
  simpa [inside, inside'] using congrArg (·[i]?) (agree v hv)

theorem exists_columnOn (A : Arithmetic α) (absent : α) {t : Term} (wf : t.WellFormed) {n : Nat}
    {table table' : Tensor α} (binds : table.Binds n) (binds' : table'.Binds n)
    (agree : ∀ v ∈ t.vars, Column.ofTable table v.column = Column.ofTable table' v.column) :
    ∃ values, t.columnOn A (Row.ofArray absent table) = .ok values
      ∧ t.columnOn A (Row.ofArray absent table') = .ok values := by
  refine ⟨_, columnOn_eq A _ wf, ?_⟩
  rw [columnOn_eq A _ wf]
  congr 1
  apply map_value_congr
  · rw [Row.length_ofArray absent binds, Row.length_ofArray absent binds']
  · intro v hv
    rw [Row.map_get_ofArray absent binds, Row.map_get_ofArray absent binds', agree v hv]

/-! ## Columns that are read -/

/-- Truth values, of which every operator makes a true one as soon as an operand is true. -/
def trace : Arithmetic Bool where
  zero := false
  ofDouble _ := false
  add := or
  sub := or
  mul := or
  div := or
  neg := id
  exp := id
  log := id
  sqrt := id

theorem trace_total {f : Bool → Bool} (keeps : ∀ b, f b = b) (marks : List Bool) :
    trace.total f marks = marks.any id := by
  have step : ∀ start, marks.foldl (fun s b => or s (f b)) start = (start || marks.any id) := by
    induction marks with
    | nil => simp
    | cons b marks ih =>
      intro start
      rw [List.foldl_cons, ih, keeps, List.any_cons, id, Bool.or_assoc]
  exact step false

theorem trace_apply {op : Op} {marks : List Bool} (count : op.accepts marks.length = true) :
    trace.apply op marks = marks.any id := by
  cases op with
  | add | sub | mul | div =>
    obtain ⟨a, b, rfl⟩ := Op.two_operands (of_decide_eq_true count)
    simp [Arithmetic.apply, Arithmetic.combine?, Arithmetic.role, trace]
  | neg =>
    obtain ⟨a, rfl⟩ := Op.one_operand (of_decide_eq_true count)
    simp [Arithmetic.apply, Arithmetic.combine?, Arithmetic.role, trace]
  | sumexp | lse => exact trace_total (fun _ => rfl) marks
  | sumsq | distance => exact trace_total Bool.or_self marks

/-- The value tells whether a variable with a true value occurs. -/
theorem trace_value {t : Term} (wf : t.WellFormed) (row : Row Bool) :
    t.value trace row = true ↔ ∃ v ∈ t.vars, row.get v = true := by
  induction t using ind with
  | var v => simp
  | const c => simp [trace]
  | app op args ih =>
    obtain ⟨count, operands⟩ := wellFormed_app.mp wf
    rw [value_app, trace_apply (by simpa using count)]
    simp only [List.any_map, List.any_eq_true, Function.comp_apply, id_eq, mem_vars_app]
    constructor
    · rintro ⟨a, ha, marked⟩
      obtain ⟨v, hv, true_⟩ := (ih a ha (operands a ha)).mp marked
      exact ⟨v, ⟨a, ha, hv⟩, true_⟩
    · rintro ⟨v, ⟨a, ha, hv⟩, true_⟩
      exact ⟨a, ha, (ih a ha (operands a ha)).mpr ⟨v, hv, true_⟩⟩

def only (v : Variable) : Row Bool := ⟨v = .x, v = .y, v = .z⟩

theorem get_only (v w : Variable) : (only v).get w = true ↔ w = v := by
  cases v <;> cases w <;> decide

/-- The term reads a variable: two rows that differ there alone give it two values. -/
def Reads (t : Term) (v : Variable) : Prop :=
  ∃ (A : Arithmetic Bool) (row row' : Row Bool), (∀ w, w ≠ v → row.get w = row'.get w)
    ∧ ∃ a a', t.columnOn A [row] = .ok [a] ∧ t.columnOn A [row'] = .ok [a'] ∧ a ≠ a'

theorem reads_of_mem_vars {t : Term} (wf : t.WellFormed) {v : Variable} (hv : v ∈ t.vars) :
    t.Reads v := by
  refine ⟨trace, only v, ⟨false, false, false⟩, ?_, _, _, columnOn_eq trace _ wf,
    columnOn_eq trace _ wf, ?_⟩
  · intro w other
    rw [Bool.eq_false_iff.mpr (mt (get_only v w).mp other)]
    cases w <;> rfl
  · have seen : t.value trace (only v) = true :=
      (trace_value wf _).mpr ⟨v, hv, (get_only v v).mpr rfl⟩
    have unseen : t.value trace ⟨false, false, false⟩ = false := by
      rw [← Bool.not_eq_true, trace_value wf]
      rintro ⟨w, -, true_⟩
      cases w <;> cases true_
    simp [seen, unseen]

/-! ## Both -/

/-- The values of a term on a table rest on the columns of its variables: on two tables with as many
rows that agree on these, the term has the same values, and so has each of its derivatives, whose
variables are among those of the term. Each variable of the term is read. -/
theorem columnOn_reads_vars (t : Term) (wf : t.WellFormed) :
    (∀ {α : Type u} (A : Arithmetic α) (absent : α) {n : Nat} {table table' : Tensor α},
        table.Binds n → table'.Binds n →
        (∀ v ∈ t.vars, Column.ofTable table v.column = Column.ofTable table' v.column) →
        (∃ values, t.columnOn A (Row.ofArray absent table) = .ok values
          ∧ t.columnOn A (Row.ofArray absent table') = .ok values)
        ∧ ∀ vs : List Variable, ∃ d values, t.differentiateAll (vs.map Variable.name) = .ok d
          ∧ d.columnOn A (Row.ofArray absent table) = .ok values
          ∧ d.columnOn A (Row.ofArray absent table') = .ok values)
      ∧ (∀ vs : List Variable, ∃ d, t.differentiateAll (vs.map Variable.name) = .ok d
        ∧ d.vars ⊆ t.vars)
      ∧ ∀ v ∈ t.vars, t.Reads v := by
  have rounds := fun vs =>
    (inherited_vars t).exists_differentiateAll wf (List.Subset.refl t.vars) vs
  refine ⟨?_, ?_, fun v hv => reads_of_mem_vars wf hv⟩
  · intro α A absent n table table' binds binds' agree
    refine ⟨exists_columnOn A absent wf binds binds' agree, fun vs => ?_⟩
    obtain ⟨d, made, wf', fewer⟩ := rounds vs
    obtain ⟨values, first, second⟩ :=
      exists_columnOn A absent wf' binds binds' fun v hv => agree v (fewer hv)
    exact ⟨d, values, made, first, second⟩
  · intro vs
    obtain ⟨d, made, -, fewer⟩ := rounds vs
    exact ⟨d, made, fewer⟩

theorem columnOn_reads_vars_product :
    let t := app .mul [var .x, app .sumexp [var .z]]
    let narrow : Tensor Int := ⟨[2, 3], [1, 5, 2, 3, 6, 4]⟩
    let wide : Tensor Int := ⟨[2, 4], [1, 0, 2, 9, 3, 0, 4, 9]⟩
    ∀ A : Arithmetic Int,
      (∃ values, t.columnOn A (Row.ofArray 0 narrow) = .ok values
        ∧ t.columnOn A (Row.ofArray 0 wide) = .ok values)
      ∧ (∃ d values, t.differentiateAll ["z", "x"] = .ok d
        ∧ d.columnOn A (Row.ofArray 0 narrow) = .ok values
        ∧ d.columnOn A (Row.ofArray 0 wide) = .ok values)
      ∧ t.Reads .x ∧ t.Reads .z := by
  intro t narrow wide A
  have narrow_binds : narrow.Binds 2 := ⟨rfl, 3, rfl, by decide⟩
  have wide_binds : wide.Binds 2 := ⟨rfl, 4, rfl, by decide⟩
  have vars : ∀ v, v ∈ t.vars ↔ v = .x ∨ v = .z := by simp [t]
  have agree : ∀ v ∈ t.vars, Column.ofTable narrow v.column = Column.ofTable wide v.column := by
    intro v hv
    obtain rfl | rfl := (vars v).mp hv <;> rfl
  obtain ⟨same, -, read⟩ := columnOn_reads_vars t (by decide)
  obtain ⟨values, derivatives⟩ := same A 0 narrow_binds wide_binds agree
  exact ⟨values, derivatives [.z, .x], read .x ((vars .x).mpr (.inl rfl)),
    read .z ((vars .z).mpr (.inr rfl))⟩

end Term

end Formulae
