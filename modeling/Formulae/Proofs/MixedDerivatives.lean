import Formulae.Proofs.DerivativeTerm
import Formulae.Proofs.Exact
/-!
Mixed derivatives. The rules work on their own results, which are not simplified in between, and the
order of two variables shows in the tree. It does not show in the exact value: what the rules make
of products, quotients and sums is symmetric in the two variables, whatever the functions are.
-/
namespace Formulae.Term

universe u

variable {K : Type u} [Field K] (fn : Functions K) (row : Row K) (v : Variable)

/-! ## Derivatives of what the rules build -/

theorem derivative_var (w : Variable) :
    (var w).derivative v = if w = v then one else zero := rfl

@[simp] theorem derivative_two : two.derivative v = zero := rfl

@[simp] theorem derivative_plus (a b : Term) :
    (plus a b).derivative v = plus (a.derivative v) (b.derivative v) :=
  derivative_app v .add [a, b]

@[simp] theorem derivative_minus (a b : Term) :
    (app .sub [a, b]).derivative v = app .sub [a.derivative v, b.derivative v] :=
  derivative_app v .sub [a, b]

@[simp] theorem derivative_times (a b : Term) :
    (times a b).derivative v = plus (times a (b.derivative v)) (times (a.derivative v) b) :=
  derivative_app v .mul [a, b]

@[simp] theorem derivative_ratio (a b : Term) :
    (app .div [a, b]).derivative v
      = app .div [app .sub [times (a.derivative v) b, times a (b.derivative v)], times b b] :=
  derivative_app v .div [a, b]

@[simp] theorem derivative_neg (a : Term) :
    (app .neg [a]).derivative v = app .neg [a.derivative v] :=
  derivative_app v .neg [a]

@[simp] theorem derivative_sumexp (args : List Term) :
    (app .sumexp args).derivative v = exponentialsRule args (args.map (derivative v)) :=
  derivative_app v .sumexp args

@[simp] theorem derivative_lse (args : List Term) :
    (app .lse args).derivative v
      = app .div [exponentialsRule args (args.map (derivative v)), app .sumexp args] :=
  derivative_app v .lse args

theorem derivative_sumsq {n : Few} {args : List Term} {s : Term}
    (rule : squaresRule? args (args.map (derivative v)) = some s) :
    (app (.sumsq n) args).derivative v = s := by
  rw [derivative_app, Term.rule, rule?, rule, Option.getD_some]

theorem derivative_distance {n : Few} {args : List Term} {s : Term}
    (rule : squaresRule? args (args.map (derivative v)) = some s) :
    (app (.distance n) args).derivative v = app .div [s, times two (app (.distance n) args)] := by
  rw [derivative_app, Term.rule, rule?, rule]
  rfl

/-! ## Their values -/

theorem value_plus (a b : Term) : (plus a b).value (.ofField fn) row
    = a.value (.ofField fn) row + b.value (.ofField fn) row :=
  value_add fn row a b

theorem value_times (a b : Term) : (times a b).value (.ofField fn) row
    = a.value (.ofField fn) row * b.value (.ofField fn) row :=
  value_mul fn row a b

theorem value_derivative_foldl_plus (t : Term) (ts : List Term) :
    ((ts.foldl plus t).derivative v).value (.ofField fn) row
      = (t.derivative v).value (.ofField fn) row
        + (ts.map fun s => (s.derivative v).value (.ofField fn) row).sum := by
  induction ts generalizing t with
  | nil => simp
  | cons s ts ih =>
    rw [List.foldl_cons, ih, derivative_plus, value_plus, List.map_cons, List.sum_cons, add_assoc]

theorem value_derivative_sum? {s : Term} {ts : List Term} (h : sum? ts = some s) :
    (s.derivative v).value (.ofField fn) row
      = (ts.map fun t => (t.derivative v).value (.ofField fn) row).sum := by
  cases ts with
  | nil => cases h
  | cons t ts =>
    cases h
    rw [value_derivative_foldl_plus, List.map_cons, List.sum_cons]

theorem value_derivative_exponentialsRule (args ds : List Term) :
    ((exponentialsRule args ds).derivative v).value (.ofField fn) row
      = (List.zipWith (fun a d =>
          fn.exp (a.value (.ofField fn) row) * (d.derivative v).value (.ofField fn) row
            + fn.exp (a.value (.ofField fn) row) * (a.derivative v).value (.ofField fn) row
              * d.value (.ofField fn) row) args ds).sum := by
  rw [exponentialsRule]
  cases total : sum? (List.zipWith (fun a d => times (app .sumexp [a]) d) args ds) with
  | some s =>
    rw [Option.getD_some, value_derivative_sum? fn row v total, List.map_zipWith]
    simp [value_plus, value_times, value_sumexp, value_exponentialsRule]
  | none =>
    -- there is nothing to add, so there is a first term neither here nor there
    cases args with
    | nil => exact value_zero fn row
    | cons a args =>
      cases ds with
      | nil => exact value_zero fn row
      | cons d ds => cases total

theorem value_derivative_squaresRule? {s : Term} {args ds : List Term}
    (h : squaresRule? args ds = some s) :
    (s.derivative v).value (.ofField fn) row
      = 2 * (List.zipWith (fun a d =>
          a.value (.ofField fn) row * (d.derivative v).value (.ofField fn) row
            + (a.derivative v).value (.ofField fn) row * d.value (.ofField fn) row) args ds).sum := by
  obtain ⟨sum, total, rfl⟩ := Option.map_eq_some_iff.mp h
  rw [derivative_times, derivative_two, value_plus, value_times, value_times, value_two, value_zero,
    value_derivative_sum? fn row v total, zero_mul, add_zero, List.map_zipWith]
  simp only [derivative_times, value_plus, value_times]

/-! ## Two variables -/

variable (u : Variable)

def Commutes (t : Term) : Prop :=
  ((t.derivative u).derivative v).value (.ofField fn) row
    = ((t.derivative v).derivative u).value (.ofField fn) row

variable {fn row u v} {args : List Term}

omit [Field K] in
theorem zipWith_map_self {f : Term → Term → K} {g : Term → Term} :
    List.zipWith f args (args.map g) = args.map fun a => f a (g a) := by
  rw [List.zipWith_map_right, List.zipWith_self]

theorem Commutes.exponentialsRule (h : ∀ a ∈ args, Commutes fn row v u a) :
    ((exponentialsRule args (args.map (derivative u))).derivative v).value (.ofField fn) row
      = ((exponentialsRule args (args.map (derivative v))).derivative u).value (.ofField fn) row := by
  rw [value_derivative_exponentialsRule, value_derivative_exponentialsRule, zipWith_map_self,
    zipWith_map_self]
  refine congrArg List.sum (List.map_congr_left fun a ha => ?_)
  rw [h a ha]
  ring

theorem Commutes.squaresRule? {su sv : Term} (h : ∀ a ∈ args, Commutes fn row v u a)
    (hu : squaresRule? args (args.map (derivative u)) = some su)
    (hv : squaresRule? args (args.map (derivative v)) = some sv) :
    (su.derivative v).value (.ofField fn) row = (sv.derivative u).value (.ofField fn) row := by
  rw [value_derivative_squaresRule? fn row v hu, value_derivative_squaresRule? fn row u hv,
    zipWith_map_self, zipWith_map_self]
  congr 2
  refine List.map_congr_left fun a ha => ?_
  rw [h a ha]
  ring

theorem Commutes.plus {a b : Term} (ha : Commutes fn row v u a) (hb : Commutes fn row v u b) :
    Commutes fn row v u (plus a b) := by
  rw [Commutes, derivative_plus, derivative_plus, derivative_plus, derivative_plus, value_plus,
    value_plus, ha, hb]

theorem Commutes.minus {a b : Term} (ha : Commutes fn row v u a) (hb : Commutes fn row v u b) :
    Commutes fn row v u (app .sub [a, b]) := by
  rw [Commutes, derivative_minus, derivative_minus, derivative_minus, derivative_minus, value_sub,
    value_sub, ha, hb]

theorem Commutes.times {a b : Term} (ha : Commutes fn row v u a) (hb : Commutes fn row v u b) :
    Commutes fn row v u (times a b) := by
  unfold Commutes at ha hb ⊢
  simp only [derivative_times, derivative_plus, value_plus, value_times, ha, hb]
  ring

theorem Commutes.ratio {a b : Term} (ha : Commutes fn row v u a) (hb : Commutes fn row v u b) :
    Commutes fn row v u (app .div [a, b]) := by
  unfold Commutes at ha hb ⊢
  simp only [derivative_ratio, derivative_minus, derivative_times, value_div, value_sub, value_plus,
    value_times, ha, hb]
  ring

theorem Commutes.neg {a : Term} (ha : Commutes fn row v u a) :
    Commutes fn row v u (app .neg [a]) := by
  rw [Commutes, derivative_neg, derivative_neg, derivative_neg, derivative_neg, value_neg,
    value_neg, ha]

theorem Commutes.sumexp (h : ∀ a ∈ args, Commutes fn row v u a) :
    Commutes fn row v u (app .sumexp args) := by
  rw [Commutes, derivative_sumexp, derivative_sumexp]
  exact Commutes.exponentialsRule h

theorem Commutes.lse (h : ∀ a ∈ args, Commutes fn row v u a) :
    Commutes fn row v u (app .lse args) := by
  have second := Commutes.exponentialsRule h
  simp only [Commutes, derivative_lse, derivative_ratio, derivative_sumexp, value_div, value_sub,
    value_times, second]
  ring

theorem Commutes.sumsq {n : Few} {su sv : Term} (h : ∀ a ∈ args, Commutes fn row v u a)
    (hu : Term.squaresRule? args (args.map (derivative u)) = some su)
    (hv : Term.squaresRule? args (args.map (derivative v)) = some sv) :
    Commutes fn row v u (app (.sumsq n) args) := by
  rw [Commutes, derivative_sumsq u hu, derivative_sumsq v hv]
  exact Commutes.squaresRule? h hu hv

theorem Commutes.distance {n : Few} {su sv : Term} (h : ∀ a ∈ args, Commutes fn row v u a)
    (hu : Term.squaresRule? args (args.map (derivative u)) = some su)
    (hv : Term.squaresRule? args (args.map (derivative v)) = some sv) :
    Commutes fn row v u (app (.distance n) args) := by
  have second := Commutes.squaresRule? h hu hv
  simp only [Commutes, derivative_distance u hu, derivative_distance v hv, derivative_ratio,
    derivative_times, derivative_two, value_div, value_sub, value_plus, value_times, value_zero,
    second]
  ring

theorem derivative_derivative_var (w : Variable) :
    ((var w).derivative u).derivative v = zero := by
  rw [derivative_var]
  split
  · rfl
  · rfl

theorem exists_squares_derivative {n : Few} (count : args.length = n.count) (w : Variable) :
    ∃ s, squaresRule? args (args.map (derivative w)) = some s :=
  exists_squares (Few.ne_nil count) (List.length_map _)

/-- The order of differentiation does not show in the value of a well-formed term. -/
theorem commutes_of_wellFormed {t : Term} (wf : t.WellFormed) : Commutes fn row v u t := by
  induction t using ind with
  | var w => rw [Commutes, derivative_derivative_var, derivative_derivative_var]
  | const c => rfl
  | app op args ih =>
    obtain ⟨count, operands⟩ := wellFormed_app.mp wf
    have each : ∀ a ∈ args, Commutes fn row v u a := fun a ha => ih a ha (operands a ha)
    cases op with
    | add =>
      obtain ⟨a, b, rfl⟩ := Op.two_operands (of_decide_eq_true count)
      exact (each a (by simp)).plus (each b (by simp))
    | sub =>
      obtain ⟨a, b, rfl⟩ := Op.two_operands (of_decide_eq_true count)
      exact (each a (by simp)).minus (each b (by simp))
    | mul =>
      obtain ⟨a, b, rfl⟩ := Op.two_operands (of_decide_eq_true count)
      exact (each a (by simp)).times (each b (by simp))
    | div =>
      obtain ⟨a, b, rfl⟩ := Op.two_operands (of_decide_eq_true count)
      exact (each a (by simp)).ratio (each b (by simp))
    | neg =>
      obtain ⟨a, rfl⟩ := Op.one_operand (of_decide_eq_true count)
      exact (each a (by simp)).neg
    | sumexp => exact .sumexp each
    | lse => exact .lse each
    | sumsq n =>
      obtain ⟨su, hu⟩ := exists_squares_derivative (of_decide_eq_true count) u
      obtain ⟨sv, hv⟩ := exists_squares_derivative (of_decide_eq_true count) v
      exact .sumsq each hu hv
    | distance n =>
      obtain ⟨su, hu⟩ := exists_squares_derivative (of_decide_eq_true count) u
      obtain ⟨sv, hv⟩ := exists_squares_derivative (of_decide_eq_true count) v
      exact .distance each hu hv

/-- A well-formed term can be differentiated by two variables in either order, and over every field
the two trees have one exact value, whatever its exponential, logarithm and root are. A quotient by
zero counts as zero on both sides, so no divisor has to be excluded. -/
theorem differentiate_comm (fn : Functions K) (row : Row K) (t : Term) (wf : t.WellFormed)
    (u v : Variable) :
    ∃ (du dv duv dvu : Term) (a : K),
      t.differentiate u.name = .ok du ∧ du.differentiate v.name = .ok duv
      ∧ t.differentiate v.name = .ok dv ∧ dv.differentiate u.name = .ok dvu
      ∧ duv.columnOn (.ofField fn) [row] = .ok [a] ∧ dvu.columnOn (.ofField fn) [row] = .ok [a] := by
  have first := wf.derivative u
  have second := wf.derivative v
  have comm : Commutes fn row v u t := commutes_of_wellFormed wf
  refine ⟨_, _, _, _, _, differentiate_eq wf u, differentiate_eq first v, differentiate_eq wf v,
    differentiate_eq second u, columnOn_eq _ [row] (first.derivative v), ?_⟩
  have other := columnOn_eq (.ofField fn) [row] (second.derivative u)
  exact other.trans (congrArg (fun a => Except.ok [a]) comm.symm)

theorem differentiate_comm_distance :
    let t := app .div [app .lse [var .x, var .y], app (.distance .two) [var .x, app .neg [var .y]]]
    let fn : Functions ℚ := ⟨fun a => a + 1, fun a => 3 * a, fun a => a * a⟩
    ∃ (du dv duv dvu : Term) (a : ℚ),
      t.differentiate "x" = .ok du ∧ du.differentiate "y" = .ok duv
      ∧ t.differentiate "y" = .ok dv ∧ dv.differentiate "x" = .ok dvu
      ∧ duv.columnOn (.ofField fn) [⟨1, 2, 0⟩] = .ok [a]
      ∧ dvu.columnOn (.ofField fn) [⟨1, 2, 0⟩] = .ok [a] :=
  differentiate_comm _ ⟨1, 2, 0⟩ _ (by decide) .x .y

example : ((times (var .x) (var .y)).derivative .x).derivative .y
    ≠ ((times (var .x) (var .y)).derivative .y).derivative .x := by decide

end Formulae.Term
