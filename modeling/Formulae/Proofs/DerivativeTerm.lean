import Formulae.Proofs.Rowwise
import Formulae.Term.Derivative
/-!
The derivative of a well-formed term. Its operators have all the operands that the rules need, so
the derivative is there, and the rules build it from the operands and their derivatives with counts
that the operators accept.
-/
namespace Formulae

theorem Few.ne_nil {n : Few} {args : List Term} (length : args.length = n.count) : args ≠ [] := by
  rintro rfl
  cases n <;> cases length

namespace Term

/-- What the rule of an operator gives, and zero where operands are missing. -/
def rule (op : Op) (args ds : List Term) : Term := (rule? op args ds).getD zero

mutual

def derivative (v : Variable) : Term → Term
  | var w => if w = v then one else zero
  | const _ => zero
  | app op args => rule op args (derivativeAll v args)

def derivativeAll (v : Variable) : List Term → List Term
  | [] => []
  | t :: ts => derivative v t :: derivativeAll v ts

end

theorem derivativeAll_eq_map (v : Variable) (ts : List Term) :
    derivativeAll v ts = ts.map (derivative v) := by
  induction ts with
  | nil => rfl
  | cons t ts ih => rw [derivativeAll, ih, List.map_cons]

theorem derivative_app (v : Variable) (op : Op) (args : List Term) :
    (app op args).derivative v = rule op args (args.map (derivative v)) := by
  rw [derivative, derivativeAll_eq_map]

/-! ## What the rules make -/

section Rules

variable {op : Op} {args ds : List Term}

theorem exists_squares (nonempty : args ≠ []) (same : ds.length = args.length) :
    ∃ s, squaresRule? args ds = some s := by
  cases args with
  | nil => exact absurd rfl nonempty
  | cons a args =>
    cases ds with
    | nil => cases same
    | cons d ds => exact ⟨_, rfl⟩

/-- What the rule of an operator makes of its operands and their derivatives, where they are as many
as the operator takes. -/
inductive Ruled : Op → List Term → List Term → Term → Prop
  | add {a b da db : Term} : Ruled .add [a, b] [da, db] (plus da db)
  | sub {a b da db : Term} : Ruled .sub [a, b] [da, db] (app .sub [da, db])
  | mul {a b da db : Term} : Ruled .mul [a, b] [da, db] (plus (times a db) (times da b))
  | div {a b da db : Term} :
      Ruled .div [a, b] [da, db] (app .div [app .sub [times da b, times a db], times b b])
  | neg {a da : Term} : Ruled .neg [a] [da] (app .neg [da])
  | sumexp {args ds : List Term} : Ruled .sumexp args ds (exponentialsRule args ds)
  | lse {args ds : List Term} :
      Ruled .lse args ds (app .div [exponentialsRule args ds, app .sumexp args])
  | sumsq {n : Few} {args ds : List Term} {s : Term} (squares : squaresRule? args ds = some s) :
      Ruled (.sumsq n) args ds s
  | distance {n : Few} {args ds : List Term} {s : Term} (squares : squaresRule? args ds = some s) :
      Ruled (.distance n) args ds (app .div [s, times two (app (.distance n) args)])

theorem exists_ruled (count : op.accepts args.length = true) (same : ds.length = args.length) :
    ∃ d, rule? op args ds = some d ∧ Ruled op args ds d := by
  have pair : args.length = 2 → ∃ a b da db, args = [a, b] ∧ ds = [da, db] := by
    intro length
    obtain ⟨a, b, rfl⟩ := Op.two_operands length
    obtain ⟨da, db, rfl⟩ := Op.two_operands same
    exact ⟨a, b, da, db, rfl, rfl⟩
  cases op with
  | add =>
    obtain ⟨a, b, da, db, rfl, rfl⟩ := pair (of_decide_eq_true count)
    exact ⟨_, rfl, .add⟩
  | sub =>
    obtain ⟨a, b, da, db, rfl, rfl⟩ := pair (of_decide_eq_true count)
    exact ⟨_, rfl, .sub⟩
  | mul =>
    obtain ⟨a, b, da, db, rfl, rfl⟩ := pair (of_decide_eq_true count)
    exact ⟨_, rfl, .mul⟩
  | div =>
    obtain ⟨a, b, da, db, rfl, rfl⟩ := pair (of_decide_eq_true count)
    exact ⟨_, rfl, .div⟩
  | neg =>
    obtain ⟨a, rfl⟩ := Op.one_operand (of_decide_eq_true count)
    obtain ⟨da, rfl⟩ := Op.one_operand same
    exact ⟨_, rfl, .neg⟩
  | sumexp => exact ⟨_, rfl, .sumexp⟩
  | lse => exact ⟨_, rfl, .lse⟩
  | sumsq n =>
    obtain ⟨s, squares⟩ := exists_squares (Few.ne_nil (of_decide_eq_true count)) same
    exact ⟨s, squares, .sumsq squares⟩
  | distance n =>
    obtain ⟨s, squares⟩ := exists_squares (Few.ne_nil (of_decide_eq_true count)) same
    exact ⟨_, congrArg (Option.map _) squares, .distance squares⟩

theorem ruled (count : op.accepts args.length = true) (same : ds.length = args.length) :
    Ruled op args ds (rule op args ds) := by
  obtain ⟨d, rule, made⟩ := exists_ruled count same
  rwa [Term.rule, rule, Option.getD_some]

theorem forall_zipWith {P Q R : Term → Prop} {f : Term → Term → Term}
    (step : ∀ a d, P a → Q d → R (f a d)) (operands : ∀ a ∈ args, P a) (slopes : ∀ d ∈ ds, Q d) :
    ∀ t ∈ List.zipWith f args ds, R t := by
  rw [← List.map_uncurry_zip_eq_zipWith, List.forall_mem_map]
  rintro ⟨a, d⟩ mem
  obtain ⟨ha, hd⟩ := List.of_mem_zip mem
  exact step a d (operands a ha) (slopes d hd)

end Rules

/-! ## Properties that the rules keep -/

/-- A property of the constants in the rules that sums, products and exponentials hand on. -/
structure SumClosed (P : Term → Prop) : Prop where
  zero : P zero
  two : P two
  plus : ∀ {a b}, P a → P b → P (plus a b)
  times : ∀ {a b}, P a → P b → P (times a b)
  exponential : ∀ {a}, P a → P (app .sumexp [a])

namespace SumClosed

variable {P : Term → Prop} {args ds : List Term}

theorem sum? (h : SumClosed P) {ts : List Term} (terms : ∀ t ∈ ts, P t) {s : Term}
    (total : sum? ts = some s) : P s := by
  cases ts with
  | nil => cases total
  | cons t ts =>
    cases total
    obtain ⟨first, others⟩ := List.forall_mem_cons.mp terms
    clear terms
    induction ts generalizing t with
    | nil => exact first
    | cons r ts ih =>
      obtain ⟨second, others⟩ := List.forall_mem_cons.mp others
      exact ih (Term.plus t r) (h.plus first second) others

theorem exponentialsRule (h : SumClosed P) (operands : ∀ a ∈ args, P a) (slopes : ∀ d ∈ ds, P d) :
    P (exponentialsRule args ds) := by
  have terms := forall_zipWith (f := fun a d => Term.times (app .sumexp [a]) d)
    (fun a d ha hd => h.times (h.exponential ha) hd) operands slopes
  rw [Term.exponentialsRule]
  cases total : Term.sum? (List.zipWith (fun a d => Term.times (app .sumexp [a]) d) args ds) with
  | none => exact h.zero
  | some s => exact h.sum? terms total

theorem squaresRule? (h : SumClosed P) (operands : ∀ a ∈ args, P a) (slopes : ∀ d ∈ ds, P d)
    {s : Term} (squares : squaresRule? args ds = some s) : P s := by
  have terms := forall_zipWith (fun a d => h.times) operands slopes
  obtain ⟨total, summed, rfl⟩ := Option.map_eq_some_iff.mp squares
  exact h.times h.two (h.sum? terms summed)

end SumClosed

/-- A property of the two constants in the rules that operators hand on from their operands. -/
structure Closed (P : Term → Prop) : Prop where
  zero : P zero
  two : P two
  app : ∀ {op args}, Op.accepts op args.length = true → (∀ a ∈ args, P a) → P (app op args)

namespace Closed

variable {P : Term → Prop} {op : Op} {args ds : List Term}

theorem unary (h : Closed P) (one : op.accepts 1 = true) {a : Term} (ha : P a) : P (.app op [a]) :=
  h.app one (by simpa using ha)

theorem binary (h : Closed P) (two : op.accepts 2 = true) {a b : Term} (ha : P a) (hb : P b) :
    P (.app op [a, b]) :=
  h.app two (by simp [ha, hb])

theorem sums (h : Closed P) : SumClosed P where
  zero := h.zero
  two := h.two
  plus := h.binary rfl
  times := h.binary rfl
  exponential := h.unary rfl

theorem ruled (h : Closed P) (count : op.accepts args.length = true)
    (operands : ∀ a ∈ args, P a) (slopes : ∀ d ∈ ds, P d) {d : Term} (made : Ruled op args ds d) :
    P d := by
  cases made with
  | add | sub =>
    simp only [List.forall_mem_cons] at slopes
    exact h.binary rfl slopes.1 slopes.2.1
  | mul =>
    simp only [List.forall_mem_cons] at operands slopes
    exact h.binary rfl (h.binary rfl operands.1 slopes.2.1) (h.binary rfl slopes.1 operands.2.1)
  | div =>
    simp only [List.forall_mem_cons] at operands slopes
    have first : P (times _ _) := h.binary rfl slopes.1 operands.2.1
    have second : P (times _ _) := h.binary rfl operands.1 slopes.2.1
    have difference : P (.app .sub _) := h.binary rfl first second
    exact h.binary rfl difference (h.binary rfl operands.2.1 operands.2.1)
  | neg => exact h.unary rfl (slopes _ List.mem_cons_self)
  | sumexp => exact h.sums.exponentialsRule operands slopes
  | lse => exact h.binary rfl (h.sums.exponentialsRule operands slopes) (h.app rfl operands)
  | sumsq squares => exact h.sums.squaresRule? operands slopes squares
  | distance squares =>
    have whole := h.app count operands
    exact h.binary rfl (h.sums.squaresRule? operands slopes squares) (h.binary rfl h.two whole)

/-- The rule of an operator with accepted operands keeps the property. -/
theorem rule (h : Closed P) (count : op.accepts args.length = true)
    (same : ds.length = args.length) (operands : ∀ a ∈ args, P a) (slopes : ∀ d ∈ ds, P d) :
    P (rule op args ds) :=
  h.ruled count operands slopes (Term.ruled count same)

end Closed

theorem rule?_eq {op : Op} {args ds : List Term} (count : op.accepts args.length = true)
    (same : ds.length = args.length) : rule? op args ds = some (rule op args ds) := by
  obtain ⟨d, rule, -⟩ := exists_ruled count same
  rw [Term.rule, rule, Option.getD_some]

theorem closed_wellFormed : Closed WellFormed := ⟨.const _, .const _, .app⟩

theorem WellFormed.derivative {t : Term} (wf : t.WellFormed) (v : Variable) :
    (t.derivative v).WellFormed := by
  induction t using ind with
  | var w =>
    rw [Term.derivative]
    split
    · exact .const _
    · exact .const _
  | const c => exact .const _
  | app op args ih =>
    obtain ⟨count, operands⟩ := wellFormed_app.mp wf
    rw [derivative_app]
    refine closed_wellFormed.rule count (List.length_map _) operands ?_
    exact List.forall_mem_map.mpr fun a ha => ih a ha (operands a ha)

theorem derivative?_eq {t : Term} (wf : t.WellFormed) (v : Variable) :
    t.derivative? v = some (t.derivative v) := by
  induction t using ind with
  | var w => rfl
  | const c => rfl
  | app op args ih =>
    obtain ⟨count, operands⟩ := wellFormed_app.mp wf
    rw [derivative?_app, mapM_eq_map fun a ha => ih a ha (operands a ha), Option.bind_some,
      derivative_app, rule?_eq count (List.length_map _)]

theorem differentiate_eq {t : Term} (wf : t.WellFormed) (v : Variable) :
    t.differentiate v.name = .ok (t.derivative v) := by
  simp only [differentiate, Variable.ofName?_name, derivative?_eq wf]

end Term

end Formulae
