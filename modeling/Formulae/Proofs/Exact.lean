import Formulae.Proofs.Rounding
import Formulae.Proofs.Rowwise
import Formulae.Term.Derivative
import Mathlib.Algebra.BigOperators.Group.List.Basic
import Mathlib.Algebra.Field.Basic
import Mathlib.Data.Rat.Cast.Defs
import Mathlib.Tactic.Ring
/-!
Exact arithmetic. A finite double is a rational number, and over a field each operator is the
operation that it names, with sums in place of loops. A term is defined where it divides by nothing
that is zero.
-/
namespace Formulae

universe u

namespace Double

/-- The number that a double is, or zero where it is not finite. -/
def exact (c : Double) : ℚ :=
  match c.magnitude? with
  | none => 0
  | some u => if c.isNegative then -(u / unitsPerOne) else u / unitsPerOne

theorem exact_of_magnitude {c : Double} {n : Nat} (positive : c.isNegative = false)
    (magnitude : c.magnitude? = some (n * unitsPerOne)) : c.exact = n := by
  have unit : (unitsPerOne : ℚ) ≠ 0 :=
    Nat.cast_ne_zero.mpr (Nat.pos_iff_ne_zero.mp (twoTo_pos 1074))
  simp only [exact, magnitude, positive, Bool.false_eq_true, if_false]
  rw [Nat.cast_mul, mul_div_assoc, div_self unit, mul_one]

theorem exact_zero : (zero false).exact = 0 := by
  have magnitude : (zero false).magnitude? = some (0 * unitsPerOne) := by decide +kernel
  exact (exact_of_magnitude rfl magnitude).trans Nat.cast_zero

theorem exact_one : one.exact = 1 := by
  have magnitude : one.magnitude? = some (1 * unitsPerOne) := by decide +kernel
  exact (exact_of_magnitude rfl magnitude).trans Nat.cast_one

theorem exact_two : two.exact = 2 := by
  have magnitude : two.magnitude? = some (2 * unitsPerOne) := by decide +kernel
  exact (exact_of_magnitude rfl magnitude).trans Nat.cast_ofNat

end Double

/-- What an arithmetic has besides the operations of a field. -/
structure Functions (K : Type u) where
  exp : K → K
  log : K → K
  sqrt : K → K

variable {K : Type u} [Field K]

def Arithmetic.ofField (fn : Functions K) : Arithmetic K where
  zero := 0
  ofDouble c := c.exact
  add a b := a + b
  sub a b := a - b
  mul a b := a * b
  div a b := a / b
  neg a := -a
  exp := fn.exp
  log := fn.log
  sqrt := fn.sqrt

theorem Arithmetic.total_ofField (fn : Functions K) (f : K → K) (as : List K) :
    (ofField fn).total f as = (as.map f).sum := by
  have from_start : ∀ start : K,
      as.foldl (fun s a => s + f a) start = start + (as.map f).sum := by
    induction as with
    | nil => simp
    | cons a as ih =>
      intro start
      rw [List.foldl_cons, ih, List.map_cons, List.sum_cons, add_assoc]
  exact (from_start 0).trans (zero_add _)

namespace Term

variable (fn : Functions K) (row : Row K)

/-! ## Operators -/

theorem value_add (a b : Term) :
    (app .add [a, b]).value (.ofField fn) row
      = a.value (.ofField fn) row + b.value (.ofField fn) row :=
  value_app ..

theorem value_sub (a b : Term) :
    (app .sub [a, b]).value (.ofField fn) row
      = a.value (.ofField fn) row - b.value (.ofField fn) row :=
  value_app ..

theorem value_mul (a b : Term) :
    (app .mul [a, b]).value (.ofField fn) row
      = a.value (.ofField fn) row * b.value (.ofField fn) row :=
  value_app ..

theorem value_div (a b : Term) :
    (app .div [a, b]).value (.ofField fn) row
      = a.value (.ofField fn) row / b.value (.ofField fn) row :=
  value_app ..

theorem value_neg (a : Term) :
    (app .neg [a]).value (.ofField fn) row = -a.value (.ofField fn) row :=
  value_app ..

theorem value_sumexp (args : List Term) :
    (app .sumexp args).value (.ofField fn) row
      = (args.map fun a => fn.exp (a.value (.ofField fn) row)).sum := by
  rw [value_app]
  exact (Arithmetic.total_ofField ..).trans (by rw [List.map_map]; rfl)

theorem value_lse (args : List Term) :
    (app .lse args).value (.ofField fn) row
      = fn.log (args.map fun a => fn.exp (a.value (.ofField fn) row)).sum := by
  rw [← value_sumexp, value_app, value_app]
  rfl

theorem value_sumsq (n : Few) (args : List Term) :
    (app (.sumsq n) args).value (.ofField fn) row
      = (args.map fun a => a.value (.ofField fn) row * a.value (.ofField fn) row).sum := by
  rw [value_app]
  exact (Arithmetic.total_ofField ..).trans (by rw [List.map_map]; rfl)

theorem value_distance (n : Few) (args : List Term) :
    (app (.distance n) args).value (.ofField fn) row
      = fn.sqrt (args.map fun a => a.value (.ofField fn) row * a.value (.ofField fn) row).sum := by
  rw [← value_sumsq fn row n, value_app, value_app]
  rfl

/-! ## Rules for derivatives -/

theorem value_zero : zero.value (.ofField fn) row = 0 := by
  rw [zero, value_const]
  exact (congrArg Rat.cast Double.exact_zero).trans Rat.cast_zero

theorem value_one : one.value (.ofField fn) row = 1 := by
  rw [one, value_const]
  exact (congrArg Rat.cast Double.exact_one).trans Rat.cast_one

theorem value_two : two.value (.ofField fn) row = 2 := by
  rw [two, value_const]
  exact (congrArg Rat.cast Double.exact_two).trans (Rat.cast_ofNat 2)

theorem value_foldl_plus (t : Term) (ts : List Term) :
    (ts.foldl plus t).value (.ofField fn) row
      = t.value (.ofField fn) row + (ts.map (value (.ofField fn) row)).sum := by
  induction ts generalizing t with
  | nil => simp
  | cons s ts ih =>
    rw [List.foldl_cons, ih, plus, value_add, List.map_cons, List.sum_cons, add_assoc]

theorem value_sum? {s : Term} {ts : List Term} (h : sum? ts = some s) :
    s.value (.ofField fn) row = (ts.map (value (.ofField fn) row)).sum := by
  cases ts with
  | nil => cases h
  | cons t ts =>
    cases h
    rw [value_foldl_plus, List.map_cons, List.sum_cons]

theorem value_exponentialsRule (args ds : List Term) :
    (exponentialsRule args ds).value (.ofField fn) row
      = (List.zipWith (fun a d => fn.exp (a.value (.ofField fn) row) * d.value (.ofField fn) row)
          args ds).sum := by
  have terms : (List.zipWith (fun a d => times (app .sumexp [a]) d) args ds).map
      (value (.ofField fn) row)
        = List.zipWith (fun a d => fn.exp (a.value (.ofField fn) row) * d.value (.ofField fn) row)
            args ds := by
    simp [List.map_zipWith, times, value_mul, value_sumexp]
  rw [← terms, exponentialsRule]
  cases h : sum? (List.zipWith (fun a d => times (app .sumexp [a]) d) args ds) with
  | some s => exact value_sum? fn row h
  | none =>
    cases empty : List.zipWith (fun a d => times (app .sumexp [a]) d) args ds with
    | nil => exact value_zero fn row
    | cons t ts =>
      rw [empty] at h
      cases h

theorem value_squaresRule? {s : Term} {args ds : List Term} (h : squaresRule? args ds = some s) :
    s.value (.ofField fn) row = 2 * (List.zipWith
      (fun a d => a.value (.ofField fn) row * d.value (.ofField fn) row) args ds).sum := by
  obtain ⟨sum, total, rfl⟩ := Option.map_eq_some_iff.mp h
  rw [times, value_mul, value_two, value_sum? fn row total]
  simp [List.map_zipWith, times, value_mul]

end Term

end Formulae
