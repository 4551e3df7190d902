import Formulae.Proofs.DerivativeTerm
import Formulae.Proofs.Exact
import Formulae.Proofs.Rowwise
import Mathlib
/-!
Differentiation of terms is differentiation of functions. At a row where a term is regular, each
rule gives a term that is regular there too and whose value is the partial derivative.
-/
namespace Formulae

noncomputable def Functions.real : Functions ℝ := ⟨Real.exp, Real.log, Real.sqrt⟩

noncomputable abbrev Arithmetic.real : Arithmetic ℝ := .ofField .real

namespace Term

variable {row : Row ℝ} {v : Variable}

structure Smooth (row : Row ℝ) (t : Term) : Prop where
  wellFormed : t.WellFormed
  regular : t.Regular .real row

theorem smooth_app {op : Op} {args : List Term} : Smooth row (app op args) ↔
    op.accepts args.length = true ∧ Arithmetic.real.Regular op (args.map (value .real row)) ∧
      ∀ a ∈ args, Smooth row a := by
  constructor
  · intro h
    obtain ⟨count, wf⟩ := wellFormed_app.mp h.wellFormed
    obtain ⟨here, regular⟩ := everywhere_app.mp h.regular
    exact ⟨count, here, fun a ha => ⟨wf a ha, regular a ha⟩⟩
  · intro ⟨count, here, operands⟩
    exact ⟨.app count fun a ha => (operands a ha).wellFormed,
      .app here fun a ha => (operands a ha).regular⟩

theorem smooth_const (c : Double) : Smooth row (const c) := ⟨.const c, .const c⟩

theorem smooth_var (w : Variable) : Smooth row (var w) := ⟨.var w, .var w⟩

theorem forall_pair {P : Term → Prop} {a b : Term} (ha : P a) (hb : P b) :
    ∀ c ∈ [a, b], P c := by
  simp [ha, hb]

theorem Smooth.plus {a b : Term} (ha : Smooth row a) (hb : Smooth row b) : Smooth row (plus a b) :=
  smooth_app.mpr ⟨rfl, trivial, forall_pair ha hb⟩

theorem Smooth.minus {a b : Term} (ha : Smooth row a) (hb : Smooth row b) :
    Smooth row (app .sub [a, b]) :=
  smooth_app.mpr ⟨rfl, trivial, forall_pair ha hb⟩

theorem Smooth.times {a b : Term} (ha : Smooth row a) (hb : Smooth row b) :
    Smooth row (times a b) :=
  smooth_app.mpr ⟨rfl, trivial, forall_pair ha hb⟩

theorem Smooth.ratio {a b : Term} (ha : Smooth row a) (hb : Smooth row b)
    (divisor : b.value .real row ≠ 0) : Smooth row (app .div [a, b]) :=
  smooth_app.mpr ⟨rfl, divisor, forall_pair ha hb⟩

theorem Smooth.negated {a : Term} (ha : Smooth row a) : Smooth row (app .neg [a]) :=
  smooth_app.mpr ⟨rfl, trivial, by simp [ha]⟩

theorem smooth_sumexp {args : List Term} (h : ∀ a ∈ args, Smooth row a) :
    Smooth row (app .sumexp args) :=
  smooth_app.mpr ⟨rfl, trivial, h⟩

theorem sumClosed_smooth : SumClosed (Smooth row) where
  zero := smooth_const _
  two := smooth_const _
  plus := Smooth.plus
  times := Smooth.times
  exponential ha := smooth_sumexp (by simp [ha])

/-- A term and another one whose value is its partial derivative. -/
structure Slope (row : Row ℝ) (v : Variable) (t d : Term) : Prop where
  term : Smooth row t
  slope : Smooth row d
  hasDeriv :
    HasDerivAt (fun s => t.value .real (row.set v s)) (d.value .real row) (row.get v)

theorem slope_var (w : Variable) : Slope row v (var w) (if w = v then one else zero) := by
  refine ⟨smooth_var w, ?_, ?_⟩
  · split <;> exact smooth_const _
  · simp only [value_var, Row.get_set]
    by_cases same : w = v
    · simp only [if_pos same]
      rw [value_one]
      exact hasDerivAt_id _
    · simp only [if_neg same]
      rw [value_zero]
      exact hasDerivAt_const _ _

theorem slope_const (c : Double) : Slope row v (const c) zero := by
  refine ⟨smooth_const c, smooth_const _, ?_⟩
  rw [value_zero]
  exact hasDerivAt_const _ _

namespace Slope

variable {a b da db : Term}

theorem add (ha : Slope row v a da) (hb : Slope row v b db) :
    Slope row v (app .add [a, b]) (plus da db) := by
  refine ⟨ha.term.plus hb.term, ha.slope.plus hb.slope, ?_⟩
  have h := ha.hasDeriv.fun_add hb.hasDeriv
  simpa only [plus, value_add] using h

theorem sub (ha : Slope row v a da) (hb : Slope row v b db) :
    Slope row v (app .sub [a, b]) (app .sub [da, db]) := by
  refine ⟨ha.term.minus hb.term, ha.slope.minus hb.slope, ?_⟩
  have h := ha.hasDeriv.fun_sub hb.hasDeriv
  simpa only [value_sub] using h

theorem mul (ha : Slope row v a da) (hb : Slope row v b db) :
    Slope row v (app .mul [a, b]) (plus (times a db) (times da b)) := by
  refine ⟨ha.term.times hb.term, (ha.term.times hb.slope).plus (ha.slope.times hb.term), ?_⟩
  have h := ha.hasDeriv.fun_mul hb.hasDeriv
  simp only [Row.set_get] at h
  simp only [plus, times, value_add, value_mul] at h ⊢
  exact h.congr_deriv (add_comm _ _)

theorem div (ha : Slope row v a da) (h : Smooth row (app .div [a, b])) (hb : Slope row v b db) :
    Slope row v (app .div [a, b])
      (app .div [app .sub [times da b, times a db], times b b]) := by
  have divisor : b.value .real row ≠ 0 := (smooth_app.mp h).2.1
  refine ⟨h, ?_, ?_⟩
  · refine ((ha.slope.times hb.term).minus (ha.term.times hb.slope)).ratio
      (hb.term.times hb.term) ?_
    rw [times, value_mul]
    exact mul_ne_zero divisor divisor
  · have quotient := ha.hasDeriv.fun_div hb.hasDeriv (by rwa [Row.set_get])
    simp only [Row.set_get] at quotient
    simp only [times, value_div, value_sub, value_mul] at quotient ⊢
    rwa [← sq]

theorem neg (ha : Slope row v a da) : Slope row v (app .neg [a]) (app .neg [da]) := by
  refine ⟨ha.term.negated, ha.slope.negated, ?_⟩
  have h := ha.hasDeriv.fun_neg
  simpa only [value_neg] using h

end Slope

/-! ## Sums over operands -/

theorem hasDerivAt_sum {f : Term → ℝ → ℝ} {slope : Term → Term → ℝ} {p : ℝ}
    {args ds : List Term} (h : List.Forall₂ (fun a d => HasDerivAt (f a) (slope a d) p) args ds) :
    HasDerivAt (fun s => (args.map fun a => f a s).sum) (List.zipWith slope args ds).sum p := by
  induction h with
  | nil => exact hasDerivAt_const _ _
  | cons first _ ih =>
    simp only [List.map_cons, List.zipWith_cons_cons, List.sum_cons]
    exact first.fun_add ih

variable {args ds : List Term}

theorem smooth_operands (h : List.Forall₂ (Slope row v) args ds) : ∀ a ∈ args, Smooth row a :=
  ((List.forall₂_and_left args ds).mp (h.imp fun _ _ r => ⟨r.term, r⟩)).1

theorem smooth_slopes (h : List.Forall₂ (Slope row v) args ds) : ∀ d ∈ ds, Smooth row d :=
  ((List.forall₂_and_left ds args).mp (h.flip.imp fun _ _ r => ⟨r.slope, r⟩)).1

theorem smooth_exponentialsRule (h : List.Forall₂ (Slope row v) args ds) :
    Smooth row (exponentialsRule args ds) :=
  sumClosed_smooth.exponentialsRule (smooth_operands h) (smooth_slopes h)

theorem hasDerivAt_exponentials (h : List.Forall₂ (Slope row v) args ds) :
    HasDerivAt (fun s => (app .sumexp args).value .real (row.set v s))
      ((exponentialsRule args ds).value .real row) (row.get v) := by
  have each := h.imp fun a d (r : Slope row v a d) => r.hasDeriv.exp
  have sum := hasDerivAt_sum each
  simp only [Row.set_get] at sum
  simp only [value_sumexp, value_exponentialsRule]
  exact sum

theorem Slope.sumexp (h : List.Forall₂ (Slope row v) args ds)
    (smooth : Smooth row (app .sumexp args)) :
    Slope row v (app .sumexp args) (exponentialsRule args ds) :=
  ⟨smooth, smooth_exponentialsRule h, hasDerivAt_exponentials h⟩

theorem Slope.lse (h : List.Forall₂ (Slope row v) args ds) (smooth : Smooth row (app .lse args)) :
    Slope row v (app .lse args) (app .div [exponentialsRule args ds, app .sumexp args]) := by
  obtain ⟨-, ⟨-, here⟩, operands⟩ := smooth_app.mp smooth
  have nonzero : (app .sumexp args).value .real row ≠ 0 := by
    rw [value_app]
    exact here
  refine ⟨smooth, (smooth_exponentialsRule h).ratio (smooth_sumexp operands) nonzero, ?_⟩
  have log := (hasDerivAt_exponentials h).log (by rwa [Row.set_get])
  rw [Row.set_get] at log
  simp only [value_sumexp] at log
  simp only [value_lse, value_div, value_sumexp]
  exact log

theorem hasDerivAt_squares (h : List.Forall₂ (Slope row v) args ds) {d : Term}
    (rule : squaresRule? args ds = some d) :
    HasDerivAt (fun s => (args.map fun a => a.value .real (row.set v s)
      * a.value .real (row.set v s)).sum) (d.value .real row) (row.get v) := by
  have each := h.imp fun a d (r : Slope row v a d) => r.hasDeriv.fun_mul r.hasDeriv
  have sum := hasDerivAt_sum each
  simp only [Row.set_get] at sum
  refine sum.congr_deriv ?_
  have twice : ∀ a d : Term, d.value .real row * a.value .real row
      + a.value .real row * d.value .real row = 2 * (a.value .real row * d.value .real row) :=
    fun a d => by ring
  have sums := List.sum_map_mul_left
    (List.zipWith (fun a d : Term => a.value .real row * d.value .real row) args ds) id 2
  rw [List.map_id, List.map_zipWith] at sums
  rw [value_squaresRule? .real row rule, ← sums]
  simp only [twice, id_eq]

theorem smooth_squaresRule? (h : List.Forall₂ (Slope row v) args ds) {d : Term}
    (rule : squaresRule? args ds = some d) : Smooth row d :=
  sumClosed_smooth.squaresRule? (smooth_operands h) (smooth_slopes h) rule

theorem Slope.sumsq {n : Few} (h : List.Forall₂ (Slope row v) args ds)
    (smooth : Smooth row (app (.sumsq n) args)) {d : Term}
    (rule : squaresRule? args ds = some d) : Slope row v (app (.sumsq n) args) d := by
  refine ⟨smooth, smooth_squaresRule? h rule, ?_⟩
  simp only [value_sumsq]
  exact hasDerivAt_squares h rule

theorem Slope.distance {n : Few} (h : List.Forall₂ (Slope row v) args ds)
    (smooth : Smooth row (app (.distance n) args)) {d : Term}
    (rule : squaresRule? args ds = some d) :
    Slope row v (app (.distance n) args)
      (app .div [d, times two (app (.distance n) args)]) := by
  have here : (args.map fun a => a.value .real row * a.value .real row).sum ≠ 0 := by
    rw [← value_sumsq .real row n, value_app]
    exact (smooth_app.mp smooth).2.1
  have nonneg : 0 ≤ (args.map fun a => a.value .real row * a.value .real row).sum := by
    apply List.sum_nonneg
    intro s hs
    obtain ⟨a, -, rfl⟩ := List.mem_map.mp hs
    exact mul_self_nonneg _
  have root : (app (.distance n) args).value .real row ≠ 0 := by
    rw [value_distance]
    exact Real.sqrt_ne_zero'.mpr (lt_of_le_of_ne nonneg here.symm)
  have squares := smooth_squaresRule? h rule
  refine ⟨smooth, squares.ratio ((smooth_const _).times smooth) ?_, ?_⟩
  · rw [times, value_mul, value_two]
    exact mul_ne_zero two_ne_zero root
  · have sqrt := (hasDerivAt_squares h rule).sqrt (by simpa only [Row.set_get] using here)
    simp only [Row.set_get] at sqrt
    simp only [value_distance, value_div, times, value_mul, value_two]
    exact sqrt

/-! ## Terms -/

/-- Every rule differentiates its operator. -/
theorem slope_of_ruled {op : Op} (smooth : Smooth row (app op args))
    (h : List.Forall₂ (Slope row v) args ds) {d : Term} (made : Ruled op args ds d) :
    Slope row v (app op args) d := by
  cases made with
  | add =>
    simp only [List.forall₂_cons] at h
    exact h.1.add h.2.1
  | sub =>
    simp only [List.forall₂_cons] at h
    exact h.1.sub h.2.1
  | mul =>
    simp only [List.forall₂_cons] at h
    exact h.1.mul h.2.1
  | div =>
    simp only [List.forall₂_cons] at h
    exact h.1.div smooth h.2.1
  | neg =>
    simp only [List.forall₂_cons] at h
    exact h.1.neg
  | sumexp => exact .sumexp h smooth
  | lse => exact .lse h smooth
  | sumsq squares => exact .sumsq h smooth squares
  | distance squares => exact .distance h smooth squares

theorem exists_derivative? (v : Variable) {t : Term} (smooth : Smooth row t) :
    ∃ d, t.derivative? v = some d ∧ Slope row v t d := by
  induction t using ind with
  | var w => exact ⟨_, rfl, slope_var w⟩
  | const c => exact ⟨_, rfl, slope_const c⟩
  | app op args ih =>
    have operands := (smooth_app.mp smooth).2.2
    obtain ⟨ds, derived, slopes⟩ := exists_mapM fun a ha => ih a ha (operands a ha)
    obtain ⟨d, rule, made⟩ := exists_ruled (smooth_app.mp smooth).1 slopes.length_eq.symm
    refine ⟨d, ?_, slope_of_ruled smooth slopes made⟩
    rw [derivative?_app, derived]
    exact rule

/-- At a row where a term is regular, it has a partial derivative by each variable as a function of
real numbers; a constant that is not finite counts as zero. The tree of the derivative is regular
there, so it divides by nothing that is zero, and its value is that partial derivative. -/
theorem hasDerivAt_differentiate (t : Term) (v : Variable) (row : Row ℝ) (wf : t.WellFormed)
    (regular : t.Regular .real row) :
    ∃ (d : Term) (f : ℝ → ℝ) (slope : ℝ), t.differentiate v.name = .ok d
      ∧ d.Regular .real row
      ∧ (∀ s, t.columnOn .real [row.set v s] = .ok [f s])
      ∧ d.columnOn .real [row] = .ok [slope]
      ∧ HasDerivAt f slope (row.get v) := by
  obtain ⟨d, derived, h⟩ := exists_derivative? v ⟨wf, regular⟩
  refine ⟨d, fun s => t.value .real (row.set v s), d.value .real row, ?_, h.slope.regular, ?_, ?_,
    h.hasDeriv⟩
  · simp only [differentiate, Variable.ofName?_name, derived]
  · exact fun s => columnOn_eq .real [row.set v s] wf
  · exact columnOn_eq .real [row] h.slope.wellFormed

theorem hasDerivAt_differentiate_quotient :
    let t := app .div [app .lse [var .x], app (.distance .two) [var .x, var .y]]
    let row : Row ℝ := ⟨0, 1, 0⟩
    ∃ (d : Term) (f : ℝ → ℝ) (slope : ℝ), t.differentiate Variable.x.name = .ok d
      ∧ d.Regular .real row
      ∧ (∀ s, t.columnOn .real [row.set .x s] = .ok [f s])
      ∧ d.columnOn .real [row] = .ok [slope]
      ∧ HasDerivAt f slope (row.get .x) := by
  have root : (app (.distance .two) [var .x, var .y]).value .real ⟨0, 1, 0⟩ = 1 := by
    rw [value_distance]
    simp [Functions.real, Row.get]
  refine hasDerivAt_differentiate _ .x ⟨0, 1, 0⟩ (by decide) ?_
  refine .app (root.trans_ne one_ne_zero) (forall_pair ?_ ?_)
  · refine .app ⟨List.cons_ne_nil _ _, ?_⟩ (by simp [Everywhere.var])
    rw [Arithmetic.total_ofField]
    simp [Arithmetic.summand, Arithmetic.ofField, Functions.real, Row.get]
  · refine .app ?_ (forall_pair (.var .x) (.var .y))
    rw [Arithmetic.Regular, Arithmetic.total_ofField]
    simp [Arithmetic.summand, Arithmetic.ofField, Row.get]

end Term

end Formulae
