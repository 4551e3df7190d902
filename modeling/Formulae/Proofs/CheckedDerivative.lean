import Formulae.Proofs.Construction
import Formulae.Proofs.DerivativeTerm
/-!
Differentiation in which every node comes from its constructor. The counts in the rules are fixed,
but for those of the operator that is differentiated, so no constructor refuses.
-/
namespace Formulae.Term

/-! ## Rules with constructors -/

def checkedSum : List Term → Except Refusal Term
  | [] => .error .missingOperand
  | t :: ts => ts.foldlM (fun a b => construct .add [a, b]) t

def checkedExponentials (args ds : List Term) : Except Refusal Term := do
  let terms ← (args.zip ds).mapM fun p => do construct .mul [← construct .sumexp [p.1], p.2]
  if terms.isEmpty then return zero else checkedSum terms

def checkedSquares (args ds : List Term) : Except Refusal Term := do
  let terms ← (args.zip ds).mapM fun p => construct .mul [p.1, p.2]
  construct .mul [two, ← checkedSum terms]

def checkedRule : Op → List Term → List Term → Except Refusal Term
  | .add, _, [da, db] => construct .add [da, db]
  | .sub, _, [da, db] => construct .sub [da, db]
  | .mul, [a, b], [da, db] => do
    construct .add [← construct .mul [a, db], ← construct .mul [da, b]]
  | .div, [a, b], [da, db] => do
    let difference ← construct .sub [← construct .mul [da, b], ← construct .mul [a, db]]
    construct .div [difference, ← construct .mul [b, b]]
  | .neg, _, [da] => construct .neg [da]
  | .sumexp, args, ds => checkedExponentials args ds
  | .lse, args, ds => do
    construct .div [← checkedExponentials args ds, ← construct .sumexp args]
  | .sumsq _, args, ds => checkedSquares args ds
  | .distance n, args, ds => do
    construct .div [← checkedSquares args ds, ← construct .mul [two, app (.distance n) args]]
  | _, _, _ => .error .missingOperand

mutual

def checkedDerivative (v : Variable) : Term → Except Refusal Term
  | var w => .ok (if w = v then one else zero)
  | const _ => .ok zero
  | app op args => do checkedRule op args (← checkedDerivativeAll v args)

def checkedDerivativeAll (v : Variable) : List Term → Except Refusal (List Term)
  | [] => .ok []
  | t :: ts => do return (← checkedDerivative v t) :: (← checkedDerivativeAll v ts)

end

/-! ## Constructors that succeed -/

variable {op : Op} {args ds : List Term}

theorem construct_two (op : Op) (count : op.accepts 2 = true) (a b : Term) :
    construct op [a, b] = .ok (app op [a, b]) :=
  construct_eq count

theorem mapM_zip_eq {make : Term → Term → Except Refusal Term} {f : Term → Term → Term}
    (each : ∀ a d, make a d = .ok (f a d)) (args ds : List Term) :
    ((args.zip ds).mapM fun p => make p.1 p.2) = .ok (List.zipWith f args ds) := by
  simp only [each]
  rw [← List.map_uncurry_zip_eq_zipWith]
  exact List.mapM_pure

theorem checkedSum_eq {ts : List Term} {s : Term} (total : sum? ts = some s) :
    checkedSum ts = .ok s := by
  cases ts with
  | nil => cases total
  | cons t ts =>
    cases total
    simp only [checkedSum, construct_two .add rfl]
    exact List.foldlM_pure

theorem checkedExponentials_eq (args ds : List Term) :
    checkedExponentials args ds = .ok (exponentialsRule args ds) := by
  have each : ∀ a d, (do construct .mul [← construct .sumexp [a], d] : Except Refusal Term)
      = .ok (times (app .sumexp [a]) d) := by
    intro a d
    rw [construct_eq (rfl : Op.sumexp.accepts [a].length = true)]
    exact construct_two .mul rfl _ d
  rw [checkedExponentials, mapM_zip_eq each, exponentialsRule]
  cases List.zipWith (fun a d => times (app .sumexp [a]) d) args ds with
  | nil => rfl
  | cons t ts =>
    have total : sum? (t :: ts) = some (ts.foldl plus t) := rfl
    exact checkedSum_eq total

theorem checkedSquares_eq {s : Term} (total : squaresRule? args ds = some s) :
    checkedSquares args ds = .ok s := by
  obtain ⟨sum, summed, rfl⟩ := Option.map_eq_some_iff.mp total
  rw [checkedSquares, mapM_zip_eq (construct_two .mul rfl)]
  calc
    (do construct .mul [two, ← checkedSum (List.zipWith times args ds)] : Except Refusal Term)
        = construct .mul [two, sum] := by
      rw [checkedSum_eq summed]
      rfl
    _ = .ok (times two sum) := construct_two .mul rfl two sum

/-- What a rule makes comes from the constructors as well. -/
theorem checkedRule_eq {d : Term}
    (made : Ruled op args ds d) : checkedRule op args ds = .ok d := by
  cases made with
  | add => exact construct_two .add rfl _ _
  | sub => exact construct_two .sub rfl _ _
  | mul =>
    simp only [checkedRule, construct_two .mul rfl, construct_two .add rfl]
    rfl
  | div =>
    simp only [checkedRule, construct_two .mul rfl, construct_two .sub rfl]
    exact construct_two .div rfl _ _
  | neg => exact construct_eq rfl
  | sumexp => exact checkedExponentials_eq args ds
  | lse =>
    rw [checkedRule, checkedExponentials_eq, construct_eq rfl]
    exact construct_two .div rfl _ _
  | sumsq squares => exact checkedSquares_eq squares
  | distance squares =>
    rw [checkedRule, checkedSquares_eq squares]
    exact construct_two .div rfl _ _

theorem checkedDerivativeAll_eq {v : Variable} {ts : List Term}
    (each : ∀ t ∈ ts, checkedDerivative v t = .ok (t.derivative v)) :
    checkedDerivativeAll v ts = .ok (ts.map (derivative v)) := by
  induction ts with
  | nil => rfl
  | cons t ts ih =>
    obtain ⟨first, others⟩ := List.forall_mem_cons.mp each
    rw [checkedDerivativeAll, first, ih others]
    rfl

theorem checkedDerivative_eq {t : Term} (wf : t.WellFormed) (v : Variable) :
    checkedDerivative v t = .ok (t.derivative v) := by
  induction t using ind with
  | var w => rfl
  | const c => rfl
  | app op args ih =>
    obtain ⟨count, operands⟩ := wellFormed_app.mp wf
    rw [checkedDerivative, checkedDerivativeAll_eq fun a ha => ih a ha (operands a ha),
      derivative_app]
    exact checkedRule_eq (ruled count (List.length_map _))

end Formulae.Term
