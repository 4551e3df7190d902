import Formulae.Term.Build
import Formulae.Term.Column
/-!
Values of a term on arrays of bindings and on tables, and validity: every constant of a term is finite
and, where rows are given, so is its value on each.
-/
namespace Formulae

universe u

variable {α : Type u}

namespace Row

/-- The bindings by the first three cells of a row, those that it lacks being `absent`. -/
def ofCells (absent : α) (cell : Nat → Option α) : Row α :=
  ⟨(cell 0).getD absent, (cell 1).getD absent, (cell 2).getD absent⟩

/-- The bindings on the rows of an array, whose first axis counts the rows and whose second one the
cells; each index on further axes makes a row of its own. -/
def ofArray (absent : α) (table : Tensor α) : List (Row α) :=
  match table.shape with
  | [] => [ofCells absent fun _ => none]
  | [n] => List.replicate n (ofCells absent fun _ => none)
  | n :: width :: rest =>
    let depth := Shape.volume rest
    (Tensor.pieces (width * depth) n table.entries).flatMap fun block =>
      (List.range (max 1 depth)).map fun j =>
        ofCells absent fun c => if c < width then block[c * depth + j]? else none

end Row

namespace Term

def rowAt? (x y z : Tensor α) (index : List Nat) : Option (Row α) :=
  match x.read? index, y.read? index, z.read? index with
  | some a, some b, some c => some ⟨a, b, c⟩
  | _, _, _ => none

def columnOn (A : Arithmetic α) (t : Term) (rows : List (Row α)) : Except Refusal (List α) :=
  match t.column? A rows with
  | some column => .ok column
  | none => .error .missingOperand

/-- The values at all index tuples of the common shape, even where the term reads no variable. -/
def evaluate (A : Arithmetic α) (t : Term) (x y z : Tensor α) : Except Refusal (Tensor α) :=
  let shapes := [x.shape, y.shape, z.shape]
  match shapes.find? (Shape.maxStretchedRank < ·.length) with
  | some s => .error (.tooManyAxes s.length)
  | none =>
    match Shape.common shapes with
    | .error m => .error (.mismatch m)
    | .ok shape =>
      match columnOn A t (shape.indices.filterMap (rowAt? x y z)) with
      | .error e => .error e
      | .ok column => .ok ⟨shape, column⟩

def evaluateTable (A : Arithmetic α) (t : Term) (table : Tensor α) : Except Refusal (List α) :=
  match table.shape with
  | [_, 3] => columnOn A t ((table.rows?.getD []).filterMap Row.ofList?)
  | shape => .error (.tableShape shape)

/-! ## Validity -/

def isValid : Term → Bool :=
  fold (fun _ => true) Double.isFinite fun op oks => op.accepts oks.length && oks.all id

def isValidOn (A : Arithmetic Double) (rows : List (Row Double)) (t : Term) : Bool :=
  t.isValid && ((t.column? A rows).map (·.all Double.isFinite)).getD false

theorem isValid_app (op : Op) (args : List Term) :
    (app op args).isValid = (op.accepts args.length && args.all isValid) := by
  rw [isValid, fold_app, List.length_map, List.all_map]
  rfl

end Term

/-- Validity, on the rows of a table where one is given; a foreign value is never valid. Cells that
a row lacks are not numbers, so a value that rests on one is not finite. -/
def Operand.isValid (A : Arithmetic Double) (table? : Option (Tensor Double)) : Operand → Bool
  | .foreign _ => false
  | .term t =>
    match table? with
    | none => t.isValid
    | some table => t.isValidOn A (Row.ofArray .nan table)

end Formulae
