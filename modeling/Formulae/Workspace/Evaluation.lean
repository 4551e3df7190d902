import Formulae.Term.Evaluate
import Formulae.Workspace.Basic
/-!
Recipes. A recipe says how to make a term, and making it reports every text that it reads. What it
makes may be evaluated or checked for validity, with foreign values as bindings. For single bindings
all texts are read first, then the term is made, and last the bindings become arrays one by one. For
the values on a table the term comes first, for validity on one the table does.
-/
namespace Formulae

inductive Recipe
  | written (style : Style) (text : String)
  | variableNamed (name : String)
  | constant (value : Foreign)
  | apply (op : OpRef) (operands : List Recipe)
  | kept (name : String)
  | foreign (value : Foreign)

namespace Recipe

open Workspace

mutual

def make : Recipe → Work Operand
  | written style text => return .term (← parse style text)
  | variableNamed name => return .term (← orRefuse (Term.ofName name))
  | constant value => return .term (.const (← orRefuse (value.number)))
  | apply op operands => do
    let made ← makeAll operands
    return .term (← orRefuse (Term.apply (.foreign op.value) made))
  | kept name => return .term (← lookup name)
  | .foreign value => pure (.foreign value)

def makeAll : List Recipe → Work (List Operand)
  | [] => pure []
  | r :: rs => do
    let a ← make r
    let as ← makeAll rs
    return a :: as

end

def makeTerm (r : Recipe) : Work Term := do orRefuse (← make r).root

/-! ## Values -/

def evaluate (r : Recipe) (x? y? z? : Option Foreign) : Work (Tensor Double) := do
  let spelled (v? : Option Foreign) := orRefuse (v?.getD (.real (.zero false))).spelled
  let x ← spelled x?
  let y ← spelled y?
  let z ← spelled z?
  let t ← r.makeTerm
  let xs ← orRefuse x.array
  let ys ← orRefuse y.array
  let zs ← orRefuse z.array
  orRefuse (t.evaluate Double.arithmetic xs ys zs)

def evaluateTable (r : Recipe) (table : Foreign) : Work (List Double) := do
  let t ← r.makeTerm
  let rows ← orRefuse table.tensor
  orRefuse (t.evaluateTable Double.arithmetic rows)

def isValid (r : Recipe) (table : Foreign) : Work Bool := do
  let table? ← match table with
    | .null => pure none
    | v => some <$> orRefuse v.tensor
  return (← r.make).isValid Double.arithmetic table?

end Recipe

end Formulae
