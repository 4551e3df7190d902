import Formulae.Tensor
import Formulae.Term.Build
import Formulae.Term.Measure
/-!
The nodes of a term, level by level or each before its operands, and what is counted among them:
constants, variables, and the uses of an operator.
-/
namespace Formulae

namespace Term

/-- The nodes in the order in which a queue releases them, each node's operands joining at the
end. -/
def release : List Term → List Term
  | [] => []
  | t :: queue => t :: release (queue ++ t.children)
termination_by queue => sum (queue.map size)
decreasing_by
  have := size_eq t
  simp only [List.map_append, sum_append, List.map_cons, sum]
  omega

def breadthFirst (t : Term) : List Term := release [t]

mutual

def depthFirst : Term → List Term
  | var v => [var v]
  | const c => [const c]
  | app op args => app op args :: depthFirstAll args

def depthFirstAll : List Term → List Term
  | [] => []
  | t :: ts => depthFirst t ++ depthFirstAll ts

end

theorem depthFirstAll_eq_flatMap (ts : List Term) : depthFirstAll ts = ts.flatMap depthFirst := by
  induction ts with
  | nil => rfl
  | cons t ts ih => simp [depthFirstAll, ih]

theorem depthFirst_app (op : Op) (args : List Term) :
    (app op args).depthFirst = app op args :: args.flatMap depthFirst := by
  rw [depthFirst, depthFirstAll_eq_flatMap]

inductive Order
  | breadthFirst
  | depthFirst
deriving DecidableEq

namespace Order

def ofName? (s : String) : Option Order :=
  if s = "breadth_first" then some breadthFirst
  else if s = "depth_first" then some depthFirst
  else none

end Order

def nodes (t : Term) : Order → List Term
  | .breadthFirst => t.breadthFirst
  | .depthFirst => t.depthFirst

def varOf? : Term → Option Variable
  | var v => some v
  | _ => none

def constOf? : Term → Option Double
  | const c => some c
  | _ => none

def hasOp (op : Op) : Term → Bool
  | app oq _ => oq = op
  | _ => false

def withOp (t : Term) (op : Op) : List Term := t.breadthFirst.filter (hasOp op)

def constants (t : Term) : List Double := t.depthFirst.filterMap constOf?

theorem constants_app (op : Op) (args : List Term) :
    (app op args).constants = args.flatMap constants := by
  rw [constants, depthFirst_app, List.filterMap_cons_none rfl, List.filterMap_flatMap]
  rfl

def occurrences (t : Term) : List Variable := t.breadthFirst.filterMap varOf?

def vars (t : Term) : List Variable := Variable.all.filter (t.occurrences.contains ·)

def usage (t : Term) : List (Variable × Nat) :=
  t.vars.map fun v => (v, t.occurrences.count v)

/-- The operand at a position, counted from the first or, when negative, back from the last. -/
def child (t : Term) (index : Int) : Except Refusal Term :=
  match Position.get? t.children index with
  | some c => .ok c
  | none => .error (if Position.isWord index then .noSuchChild else .positionTooLarge)

end Term

namespace Operand

/-- The nodes in an order given by name, which is looked at before the operand. -/
def nodesBy (order : String) (a : Operand) : Except Refusal (List Term) :=
  match Term.Order.ofName? order with
  | none => .error (.unknownOrder order)
  | some o =>
    match a.having .children with
    | .ok t => .ok (t.nodes o)
    | .error e => .error e

def withOpNamed (name : String) (a : Operand) : Except Refusal (List Term) :=
  match Op.ofSymbol? name with
  | none => .error (.unknownOperator name)
  | some op =>
    match a.having .children with
    | .ok t => .ok (t.withOp op)
    | .error e => .error e

def child (index : Int) (a : Operand) : Except Refusal Term :=
  match a.having .children with
  | .ok t => t.child index
  | .error e => .error e

/-- Nothing of a term can be set or deleted, and a foreign value has nothing that could be. -/
def mutate (member : String) : Operand → Refusal
  | .term t => .immutable t.kind.nodeName
  | .foreign v => .lacks v.typeName member

end Operand

end Formulae
