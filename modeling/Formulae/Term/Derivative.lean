import Formulae.Refusal
import Formulae.Term.Basic
/-!
Partial derivatives, term by term and without simplification. Each rule has the operands of an
operator and their derivatives, and there is no derivative where operands are missing.
-/
namespace Formulae.Term

def plus (a b : Term) : Term := app .add [a, b]

def times (a b : Term) : Term := app .mul [a, b]

def zero : Term := const (.zero false)

def one : Term := const .one

def two : Term := const .two

def sum? : List Term → Option Term
  | [] => none
  | t :: ts => some (ts.foldl plus t)

/-- The derivative of a sum of exponentials, each of which is its own derivative's factor. -/
def exponentialsRule (args ds : List Term) : Term :=
  (sum? (List.zipWith (fun a d => times (app .sumexp [a]) d) args ds)).getD zero

def squaresRule? (args ds : List Term) : Option Term :=
  (sum? (List.zipWith times args ds)).map (times two)

def rule? : Op → List Term → List Term → Option Term
  | .add, _, [da, db] => some (plus da db)
  | .sub, _, [da, db] => some (app .sub [da, db])
  | .mul, [a, b], [da, db] => some (plus (times a db) (times da b))
  | .div, [a, b], [da, db] =>
    some (app .div [app .sub [times da b, times a db], times b b])
  | .neg, _, [da] => some (app .neg [da])
  | .sumexp, args, ds => some (exponentialsRule args ds)
  | .lse, args, ds => some (app .div [exponentialsRule args ds, app .sumexp args])
  | .sumsq _, args, ds => squaresRule? args ds
  | .distance n, args, ds =>
    (squaresRule? args ds).map fun s => app .div [s, times two (app (.distance n) args)]
  | _, _, _ => none

mutual

def derivative? (v : Variable) : Term → Option Term
  | var w => some (if w = v then one else zero)
  | const _ => some zero
  | app op args => (derivativeAll? v args).bind (rule? op args)

def derivativeAll? (v : Variable) : List Term → Option (List Term)
  | [] => some []
  | t :: ts => (derivative? v t).bind fun d => (derivativeAll? v ts).map (d :: ·)

end

theorem derivativeAll?_eq_mapM (v : Variable) (ts : List Term) :
    derivativeAll? v ts = ts.mapM (derivative? v) := by
  induction ts with
  | nil => rfl
  | cons t ts ih =>
    simp only [derivativeAll?, ih, List.mapM_cons]
    cases derivative? v t with
    | none => rfl
    | some d => cases ts.mapM (derivative? v) <;> rfl

theorem derivative?_app (v : Variable) (op : Op) (args : List Term) :
    (app op args).derivative? v = (args.mapM (derivative? v)).bind (rule? op args) := by
  rw [derivative?, derivativeAll?_eq_mapM]

def differentiate (t : Term) (name : String) : Except Refusal Term :=
  match Variable.ofName? name with
  | none => .error (.underivable name)
  | some v =>
    match t.derivative? v with
    | some d => .ok d
    | none => .error .missingOperand

end Formulae.Term
