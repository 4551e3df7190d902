import Formulae.Arithmetic
import Formulae.Tensor
import Formulae.Term.Basic
/-!
Values of a term on all rows of a table at once. The columns of the operands are combined entry by
entry.
-/
namespace Formulae

universe u

namespace Column

variable {α : Type u} (A : Arithmetic α)

def binary (f : α → α → α) (left right : List α) : List α := List.zipWith f left right

def unary (f : α → α) (column : List α) : List α := column.map f

def reduce (r : Reduction) (count : Nat) (columns : List (List α)) : List α :=
  let sums := columns.foldl (List.zipWith fun s a => A.add s (A.summand r a))
    (List.replicate count A.zero)
  sums.map (A.finish r)

/-- An operator on the columns of its operands, those past the last that it uses being ignored. -/
def combine? (count : Nat) (op : Op) (columns : List (List α)) : Option (List α) :=
  match A.role op, columns with
  | .binary f, left :: right :: _ => some (binary f left right)
  | .unary f, column :: _ => some (unary f column)
  | .many r, columns => some (reduce A r count columns)
  | _, _ => none

def ofTable (table : Tensor α) (index : Int) : Tensor α :=
  match Position.get? (List.range (table.shape[1]?.getD 0)) index with
  | some i => table.atSecond i
  | none => .ofList []

end Column

namespace Term

variable {α : Type u}

def column? (A : Arithmetic α) (rows : List (Row α)) : Term → Option (List α) :=
  fold? (fun v => rows.map (·.get v)) (fun c => rows.map fun _ => A.ofDouble c)
    (Column.combine? A rows.length)

theorem column?_app (A : Arithmetic α) (rows : List (Row α)) (op : Op) (args : List Term) :
    (app op args).column? A rows
      = (args.mapM (column? A rows)).bind (Column.combine? A rows.length op) :=
  fold?_app ..

end Term

end Formulae
