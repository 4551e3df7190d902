import Formulae.Term.Build
import Formulae.Term.Column
/-!
Single steps of the evaluation of a term by columns, on columns given as foreign values. Columns that
come from elsewhere are first stretched to one count, as far as they have a single entry; an operator
of unknown name then gives zeros, and a reduction of unknown name sums squares. The parts of a kernel
are read in the order in which it lists them.
-/
namespace Formulae

universe u

namespace Column

variable {α : Type u} (A : Arithmetic α)

/-- A column of one entry repeats it, and any other has to have the count already. -/
def stretch (count : Nat) : List α → Except Refusal (List α)
  | [a] => .ok (List.replicate count a)
  | column =>
    if column.length = count then .ok column else .error (.unstretchable column.length count)

def stretchAll (count : Nat) : List (List α) → Except Refusal (List (List α))
  | [] => .ok []
  | column :: columns =>
    match stretch count column with
    | .error e => .error e
    | .ok c =>
      match stretchAll count columns with
      | .error e => .error e
      | .ok cs => .ok (c :: cs)

/-- Two columns on one count: a column of one entry takes the count of the other. -/
def binaryStretched (f : α → α → α) (left right : List α) : Except Refusal (List α) :=
  let count := if left.length = 1 then right.length else left.length
  match stretch count left, stretch count right with
  | .ok l, .ok r => .ok (binary f l r)
  | _, _ => .error .unequalColumns

def reduceStretched (r : Reduction) (count : Int) (columns : List (List α)) :
    Except Refusal (List α) :=
  if count < 0 then .error .negativeCount
  else
    match stretchAll count.toNat columns with
    | .ok columns => .ok (reduce A r count.toNat columns)
    | .error e => .error e

def constant (count : Int) (a : α) : Except Refusal (List α) :=
  if count < 0 then .error .negativeFill else .ok (List.replicate count.toNat a)

def binaryNamed (name : String) (left right : List α) : Except Refusal (List α) :=
  match (Op.ofSymbol? name).map A.role with
  | some (.binary f) => binaryStretched f left right
  | _ => .ok (left.map fun _ => A.zero)

def unaryNamed (name : String) (column : List α) : List α :=
  match (Op.ofSymbol? name).map A.role with
  | some (.unary f) => unary f column
  | _ => column.map fun _ => A.zero

/-- The reduction of a name: every name that starts as a distance takes the root. -/
def reductionNamed (name : String) : Reduction :=
  if name = "sumexp" then .exponentials
  else if name = "lse" then .logOfExponentials
  else if "distance".toList.isPrefixOf name.toList then .rootOfSquares
  else .squares

/-- The width of `rows` equal rows that `size` entries fill. A negative count leaves it open; a given
one has to fit. -/
def width? (size rows : Nat) (count : Int) : Option Nat :=
  let width := if count < 0 then size / rows else count.toNat
  if size = rows * width ∧ (count < 0 → 0 < rows) then some width else none

def reduceNamed (name : String) (count : Int) (table : Tensor α) : Except Refusal (List α) :=
  let rows := table.shape.headD 1
  match width? table.entries.length rows count with
  | some width =>
    .ok (reduce A (reductionNamed name) width (Tensor.pieces width rows table.entries))
  | none => .error (.unshapeable table.entries.length rows count)

def combine (count : Int) (op : Op) (columns : List (List α)) : Except Refusal (List α) :=
  match A.role op, columns with
  | .binary f, left :: right :: _ => binaryStretched f left right
  | .unary f, column :: _ => .ok (unary f column)
  | .many r, columns => reduceStretched A r count columns
  | _, _ => .error .missingOperand

end Column

inductive Kernel
  | binary (left right : Foreign) (name : String)
  | unary (operand : Foreign) (name : String)
  | reduction (operands : Foreign) (name : String) (count : Int)
  | column (table : Foreign) (index : Int)
  | constant (value : Foreign) (count : Int)
  | operator (ref : OpRef) (operands : List Foreign) (count : Int)

namespace Kernel

def run : Kernel → Except Refusal (Tensor Double)
  | binary left right name => do
    let l ← left.column
    let r ← right.column
    .ofList <$> Column.binaryNamed Double.arithmetic name l r
  | unary operand name => return .ofList (Column.unaryNamed Double.arithmetic name (← operand.column))
  | reduction operands name count => do
    .ofList <$> Column.reduceNamed Double.arithmetic name count (← operands.tensor)
  | column table index => return Column.ofTable (← table.tensor) index
  | constant value count => do .ofList <$> Column.constant count (← value.number)
  | operator ref operands count => do
    let op ← ref.resolve
    let columns ← Foreign.columns operands
    .ofList <$> Column.combine Double.arithmetic count op columns

end Kernel

end Formulae
