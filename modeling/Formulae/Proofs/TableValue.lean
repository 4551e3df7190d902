import Formulae.Arithmetic
import Formulae.Proofs.Entries
import Formulae.Proofs.Rowwise
/-!
Values on the rows of a table. The rules of arithmetic give a well-formed term one value at each
row, by its operators from the leaves up. Evaluation at single numbers finds that value, and
evaluation on a table finds it row by row, so tables may be put together, cut and rearranged.
-/
namespace Formulae

universe u

variable {α : Type u}

/-! ## Rules of arithmetic -/

inductive Arithmetic.Gives (A : Arithmetic α) : Op → List α → α → Prop
  | add (a b : α) : Gives A .add [a, b] (A.add a b)
  | sub (a b : α) : Gives A .sub [a, b] (A.sub a b)
  | mul (a b : α) : Gives A .mul [a, b] (A.mul a b)
  | div (a b : α) : Gives A .div [a, b] (A.div a b)
  | neg (a : α) : Gives A .neg [a] (A.neg a)
  | sumexp (as : List α) :
      Gives A .sumexp as (as.foldl (fun s a => A.add s (A.exp a)) A.zero)
  | lse (as : List α) :
      Gives A .lse as (A.log (as.foldl (fun s a => A.add s (A.exp a)) A.zero))
  | sumsq (n : Few) (as : List α) :
      Gives A (.sumsq n) as (as.foldl (fun s a => A.add s (A.mul a a)) A.zero)
  | distance (n : Few) (as : List α) :
      Gives A (.distance n) as (A.sqrt (as.foldl (fun s a => A.add s (A.mul a a)) A.zero))

theorem Arithmetic.gives_iff (A : Arithmetic α) {op : Op} {as : List α}
    (count : op.accepts as.length = true) {a : α} : A.Gives op as a ↔ a = A.apply op as := by
  constructor
  · intro gives
    cases gives <;> rfl
  · rintro rfl
    cases op with
    | add | sub | mul | div =>
      obtain ⟨a, b, rfl⟩ := Op.two_operands (of_decide_eq_true count)
      constructor
    | neg =>
      obtain ⟨a, rfl⟩ := Op.one_operand (of_decide_eq_true count)
      constructor
    | sumexp | lse | sumsq | distance => constructor

namespace Term

/-- The value of a term on a row, from the leaves up. -/
inductive Computes (A : Arithmetic α) (row : Row α) : Term → α → Prop
  | var (v : Variable) : Computes A row (var v) (row.get v)
  | const (c : Double) : Computes A row (const c) (A.ofDouble c)
  | app {op : Op} {args : List Term} {as : List α} {a : α}
      (operands : List.Forall₂ (Computes A row) args as) (gives : A.Gives op as a) :
      Computes A row (app op args) a

theorem forall₂_computes_iff {A : Arithmetic α} {row : Row α} {args : List Term}
    (h : ∀ t ∈ args, ∀ a, t.Computes A row a ↔ a = t.value A row) {as : List α} :
    List.Forall₂ (Computes A row) args as ↔ as = args.map (value A row) := by
  induction args generalizing as with
  | nil => exact List.forall₂_nil_left_iff
  | cons t args ih =>
    obtain ⟨first, others⟩ := List.forall_mem_cons.mp h
    rw [List.forall₂_cons_left_iff, List.map_cons]
    constructor
    · rintro ⟨a, as, ha, has, rfl⟩
      rw [(first a).mp ha, (ih others).mp has]
    · rintro rfl
      exact ⟨_, _, (first _).mpr rfl, (ih others).mpr rfl, rfl⟩

/-- The rules give a well-formed term its value and no other. -/
theorem computes_iff (A : Arithmetic α) (row : Row α) {t : Term} (wf : t.WellFormed) {a : α} :
    t.Computes A row a ↔ a = t.value A row := by
  induction t using ind generalizing a with
  | var v => exact ⟨fun | .var _ => rfl, fun h => h ▸ .var v⟩
  | const c => exact ⟨fun | .const _ => rfl, fun h => h ▸ .const c⟩
  | app op args ih =>
    obtain ⟨count, operands⟩ := wellFormed_app.mp wf
    have each : ∀ {as}, List.Forall₂ (Computes A row) args as ↔ as = args.map (value A row) :=
      forall₂_computes_iff fun s hs _ => ih s hs (operands s hs)
    have gives : A.Gives op (args.map (value A row)) a ↔ a = (app op args).value A row := by
      rw [value_app]
      exact A.gives_iff (by simpa using count)
    constructor
    · rintro (_ | _ | ⟨values, result⟩)
      rw [each.mp values] at result
      exact gives.mp result
    · intro h
      exact .app (each.mpr rfl) (gives.mpr h)

/-! ## Single numbers -/

/-- Evaluation where each variable is a single number. -/
def evaluateAt (A : Arithmetic α) (t : Term) (row : Row α) : Except Refusal (Tensor α) :=
  t.evaluate A (.scalar row.x) (.scalar row.y) (.scalar row.z)

theorem evaluateAt_eq (A : Arithmetic α) (row : Row α) {t : Term} (wf : t.WellFormed) :
    t.evaluateAt A row = .ok (.scalar (t.value A row)) := by
  have shapes : Shape.common [[], [], []] = .ok [] := rfl
  have narrow : [[], [], []].find? (fun s : Shape => Shape.maxStretchedRank < s.length) = none := rfl
  have rows : (Shape.indices []).filterMap
      (rowAt? ⟨[], [row.x]⟩ ⟨[], [row.y]⟩ ⟨[], [row.z]⟩) = [row] := rfl
  simp only [evaluateAt, evaluate, Tensor.scalar, narrow, shapes, rows, columnOn_eq A [row] wf,
    List.map_cons, List.map_nil]

end Term

/-! ## Tables -/

def Row.cells (r : Row α) : List α := [r.x, r.y, r.z]

def Tensor.ofRows (rows : List (Row α)) : Tensor α := ⟨[rows.length, 3], rows.flatMap Row.cells⟩

theorem Tensor.rows?_ofRows (rows : List (Row α)) :
    (ofRows rows).rows? = some (rows.map Row.cells) :=
  congrArg some (pieces_flatMap Row.cells rows fun _ _ => rfl)

namespace Term

theorem evaluateTable_eq (A : Arithmetic α) (rows : List (Row α)) {t : Term} (wf : t.WellFormed) :
    t.evaluateTable A (.ofRows rows) = .ok (rows.map (t.value A)) := by
  have read : (rows.map Row.cells).filterMap Row.ofList? = rows := by
    rw [List.filterMap_map]
    exact List.filterMap_some
  calc
    t.evaluateTable A (.ofRows rows)
        = t.columnOn A (((Tensor.ofRows rows).rows?.getD []).filterMap Row.ofList?) := rfl
    _ = .ok (rows.map (t.value A)) := by
      rw [Tensor.rows?_ofRows, Option.getD_some, read, columnOn_eq A rows wf]

theorem map_filterMap_getElem? {β : Type u} (f : α → β) (as : List α) (places : List Nat) :
    (places.filterMap (as[·]?)).map f = places.filterMap ((as.map f)[·]?) := by
  rw [List.map_filterMap]
  simp only [List.getElem?_map]

/-- On a table, a well-formed term gives one value for each row: the value at the three numbers of
the row, which is the one that the rules of arithmetic give there. So two tables one below the
other give the values of both, and rows taken at any places, in any order, give the values at these
places. -/
theorem evaluateTable_rowwise (A : Arithmetic α) (t : Term) (wf : t.WellFormed)
    (rows : List (Row α)) :
    ∃ values, t.evaluateTable A (.ofRows rows) = .ok values
      ∧ List.Forall₂ (fun row a => t.evaluateAt A row = .ok (.scalar a)
          ∧ ∀ b, t.Computes A row b ↔ b = a) rows values
      ∧ (∀ rows', ∃ values', t.evaluateTable A (.ofRows rows') = .ok values'
          ∧ t.evaluateTable A (.ofRows (rows ++ rows')) = .ok (values ++ values'))
      ∧ ∀ places : List Nat, t.evaluateTable A (.ofRows (places.filterMap (rows[·]?)))
          = .ok (places.filterMap (values[·]?)) := by
  have value := fun rows => evaluateTable_eq A rows wf
  refine ⟨_, value rows, ?_, ?_, ?_⟩
  · rw [List.forall₂_map_right_iff, List.forall₂_same]
    exact fun row _ => ⟨evaluateAt_eq A row wf, fun _ => computes_iff A row wf⟩
  · intro rows'
    refine ⟨_, value rows', ?_⟩
    rw [value, List.map_append]
  · intro places
    rw [value, map_filterMap_getElem?]

theorem evaluateTable_rowwise_quotient :
    let t := app .div [.var .x, app .sub [.var .y, .const .one]]
    let first : Row Double := ⟨.one, .one, .zero false⟩
    let second : Row Double := ⟨.two, .two, .zero true⟩
    t.evaluateAt Double.arithmetic first = .ok (.scalar (.infinity false))
      ∧ t.Computes Double.arithmetic second .two
      ∧ t.evaluateTable Double.arithmetic (.ofRows [second, first])
        = .ok [.two, .infinity false] := by
  intro t first second
  have wf : t.WellFormed := by decide
  obtain ⟨values, found, each, -, picked⟩ :=
    evaluateTable_rowwise Double.arithmetic t wf [first, second]
  have listed : values = [.infinity false, .two] := by
    rw [evaluateTable_eq Double.arithmetic _ wf] at found
    rw [← Except.ok.inj found]
    decide +kernel
  subst listed
  obtain ⟨⟨atFirst, -⟩, others⟩ := List.forall₂_cons.mp each
  obtain ⟨⟨-, atSecond⟩, -⟩ := List.forall₂_cons.mp others
  exact ⟨atFirst, (atSecond _).mpr rfl, picked [1, 0]⟩

end Term

end Formulae
