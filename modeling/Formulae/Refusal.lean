import Formulae.Operator
import Formulae.Tensor
import Formulae.Text
import Formulae.Variable
/-!
Why an operation on terms, names or tables is refused, and in which words.
-/
namespace Formulae

inductive Refusal
  | unknownVariable (name : String)
  | underivable (name : String)
  | unreadableNumber (text : String)
  | notNumeric (typeName : String)
  | integerTooLarge
  | noSuchOperator (shown : String)
  | operandNotTerm (typeName : String)
  | operandCount (op : Op) (count : Nat)
  | rootNotTerm (typeName : String)
  | unknownOrder (name : String)
  | unknownOperator (name : String)
  | immutable (kind : String)
  | tableShape (shape : Shape)
  | mismatch (m : Shape.Mismatch)
  | lacks (typeName member : String)
  | ragged (agreed : Shape)
  | tooDeep
  | tooManyAxes (rank : Nat)
  | unshapeable (entries rows : Nat) (width : Int)
  | unequalColumns
  | unstretchable (given wanted : Nat)
  | negativeCount
  | negativeFill
  | missingOperand
  | noSuchChild
  | positionTooLarge

namespace Refusal

def outOf : String := "', expected one of " ++ Variable.listing

def message : Refusal → String
  | unknownVariable name => "Unknown variable '" ++ name ++ outOf
  | underivable name => "Cannot differentiate with respect to '" ++ name ++ outOf
  | unreadableNumber text => "could not convert string to float: " ++ Text.quote text
  | notNumeric typeName =>
    "float() argument must be a string or a real number, not '" ++ typeName ++ "'"
  | integerTooLarge => "int too large to convert to float"
  | noSuchOperator shown => shown ++ " is not a valid OpType"
  | operandNotTerm typeName => "Operands must be nodes, got " ++ typeName
  | operandCount op count =>
    "'" ++ op.symbol ++ s!"' takes {op.arityCode} operands, got {count}"
  | rootNotTerm typeName => "Expression root must be a Node, got " ++ typeName
  | unknownOrder name => "Invalid traversal_order: " ++ name
  | unknownOperator name => "Unknown operator: " ++ name
  | immutable kind => kind ++ " is immutable"
  | tableShape shape => "Expected an (n_samples, 3) matrix, got shape " ++ shape.text
  | mismatch m =>
    "shape mismatch: objects cannot be broadcast to a single shape.  Mismatch is between arg "
      ++ s!"{m.first} with shape " ++ m.firstShape.text
      ++ s!" and arg {m.second} with shape " ++ m.secondShape.text ++ "."
  | lacks typeName member => "'" ++ typeName ++ "' object has no attribute '" ++ member ++ "'"
  | ragged agreed =>
    "setting an array element with a sequence. The requested array has an inhomogeneous shape "
      ++ s!"after {agreed.length} dimensions. The detected shape was " ++ agreed.text
      ++ " + inhomogeneous part."
  | tooDeep =>
    "setting an array element with a sequence. The requested array would exceed the maximum "
      ++ s!"number of dimension of {Shape.maxRank}."
  | tooManyAxes rank =>
    s!"this function only supports up to {Shape.maxStretchedRank} dimensions but the array has "
      ++ s!"{rank}."
  | unshapeable entries rows width =>
    s!"cannot reshape array of size {entries} into shape ({rows},"
      ++ (if width < 0 then "newaxis" else toString width) ++ ")"
  | unequalColumns => "unable to broadcast argument 1 to output array"
  | unstretchable given wanted =>
    "could not broadcast input array from shape " ++ Shape.text [given] ++ " into shape "
      ++ Shape.text [wanted]
  | negativeCount => "negative dimensions are not allowed"
  | negativeFill => "negative dimensions not allowed"
  | missingOperand => "list index out of range"
  | noSuchChild => "tuple index out of range"
  | positionTooLarge => "cannot fit 'int' into an index-sized integer"

end Refusal

end Formulae
