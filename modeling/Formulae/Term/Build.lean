import Formulae.Foreign
import Formulae.Term.Written
/-!
Construction of terms from names, operators and operands that may be no terms, and equality of terms,
node by node. Of several faults the operator's is reported first, then that of the first operand
which is no term, then the count. Constants are compared by their decimal texts, so the two zeros
differ, and what is no number equals itself.
-/
namespace Formulae

namespace Term

mutual

def same : Term → Term → Bool
  | var v, var w => v.name = w.name
  | const c, const d => c.decimalText = d.decimalText
  | app op as, app oq bs => op = oq && sameAll as bs
  | _, _ => false

def sameAll : List Term → List Term → Bool
  | [], [] => true
  | a :: as, b :: bs => same a b && sameAll as bs
  | _, _ => false

end

end Term

/-- What stands where a term is wanted. -/
inductive Operand
  | term (t : Term)
  | foreign (v : Foreign)

namespace Operand

def construction : Operand → String
  | term t => t.construction
  | foreign v => v.construction

/-- The operator whose code a value equals. A term equals no code. -/
def op? : Operand → Option Op
  | term _ => none
  | foreign v => v.integer?.bind Op.ofCode?

def resolve (a : Operand) : Except Refusal Op :=
  match a.op? with
  | some op => .ok op
  | none => .error (.noSuchOperator a.construction)

end Operand

namespace Term

def ofName (name : String) : Except Refusal Term :=
  match Variable.ofName? name with
  | some v => .ok (var v)
  | none => .error (.unknownVariable name)

def termsOf : List Operand → Except Refusal (List Term)
  | [] => .ok []
  | .term t :: rest =>
    match termsOf rest with
    | .ok ts => .ok (t :: ts)
    | .error e => .error e
  | .foreign v :: _ => .error (.operandNotTerm v.typeName)

def apply (operator : Operand) (operands : List Operand) : Except Refusal Term :=
  match operator.resolve with
  | .error e => .error e
  | .ok op =>
    match termsOf operands with
    | .error e => .error e
    | .ok args =>
      if op.accepts args.length then .ok (app op args)
      else .error (.operandCount op args.length)

end Term

def Operand.root : Operand → Except Refusal Term
  | term t => .ok t
  | foreign v => .error (.rootNotTerm v.typeName)

/-- What may be asked of an operand and only a term has. -/
inductive Member
  | children
  | prefixForm
  | size
  | other (name : String)

def Member.name : Member → String
  | children => "children"
  | prefixForm => "prefix"
  | size => "size"
  | other name => name

def Operand.having (m : Member) : Operand → Except Refusal Term
  | term t => .ok t
  | foreign v => .error (.lacks v.typeName m.name)

/-- Terms are equal as terms, foreign values as values, and never one to the other. -/
def Operand.same : Operand → Operand → Bool
  | term s, term t => s.same t
  | foreign v, foreign w => v.same w
  | _, _ => false

/-! ## Operators by token -/

/-- An operator as a session names it, by its token or by its code. -/
inductive OpRef
  | symbol (s : String)
  | code (n : Int)

/-- The value that a name stands for: the code of a token that is registered, and any other text
itself. -/
def OpRef.value : OpRef → Foreign
  | symbol s => ((Op.ofSymbol? s).map fun op => .integer op.code).getD (.text s)
  | code n => .integer n

def OpRef.resolve (ref : OpRef) : Except Refusal Op := (Operand.foreign ref.value).resolve

def Term.accepts (ref : OpRef) (count : Int) : Except Refusal Bool :=
  match ref.resolve with
  | .error e => .error e
  | .ok op => .ok (op.acceptsInt count)

end Formulae
