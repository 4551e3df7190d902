import Formulae.Term.Basic
/-!
A term as calls of a computer algebra system: differences and quotients become sums, products and
powers, and a constant that is an integer becomes that integer, however large.
-/
namespace Formulae

/-- The functions called; `power` is the constructor of powers and `raise` the operator. -/
inductive Head
  | add | mul | power | raise | neg | exp | log | sqrt
deriving DecidableEq

def Head.name : Head → String
  | add => "Add"
  | mul => "Mul"
  | power => "Pow"
  | raise => "pow"
  | neg => "neg"
  | exp => "exp"
  | log => "log"
  | sqrt => "sqrt"

inductive Call
  | symbol (v : Variable)
  | integer (n : Int)
  | real (c : Double)
  | apply (head : Head) (args : List Call)

namespace Call

def ofConstant (c : Double) : Call :=
  match c.toInt? with
  | some n => integer n
  | none => real c

def exponentials (args : List Call) : Call := apply .add (args.map fun a => apply .exp [a])

def squares (args : List Call) : Call := apply .add (args.map fun a => apply .raise [a, integer 2])

def ofOp? : Op → List Call → Option Call
  | .add, a :: b :: _ => some (apply .add [a, b])
  | .sub, a :: b :: _ => some (apply .add [a, apply .mul [integer (-1), b]])
  | .mul, a :: b :: _ => some (apply .mul [a, b])
  | .div, a :: b :: _ => some (apply .mul [a, apply .power [b, integer (-1)]])
  | .neg, a :: _ => some (apply .neg [a])
  | .sumexp, args => some (exponentials args)
  | .lse, args => some (apply .log [exponentials args])
  | .sumsq _, args => some (squares args)
  | .distance _, args => some (apply .sqrt [squares args])
  | _, _ => none

end Call

def Term.call? : Term → Option Call := fold? Call.symbol Call.ofConstant Call.ofOp?

theorem Term.call?_app (op : Op) (args : List Term) :
    (app op args).call? = (args.mapM call?).bind (Call.ofOp? op) :=
  fold?_app ..

end Formulae
