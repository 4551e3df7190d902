import Formulae.Proofs.Exact
import Formulae.Proofs.Rowwise
import Formulae.Term.Call
import Formulae.Term.Traversal
/-!
Calls of an algebra system, computed exactly. A call has a value where its numbers are finite and no
power of zero has a negative exponent, and the calls of a term have the value of the term.
-/
namespace Formulae

universe u

/-! ## Constants -/

namespace Double

theorem exists_magnitude? {c : Double} (finite : c.isFinite = true) :
    ∃ u, c.magnitude? = some u := by
  cases c with
  | nan => cases finite
  | signed negative rank => exact ⟨_, if_pos (of_decide_eq_true finite)⟩

def unitSign (c : Double) : Int := if c.isNegative then -1 else 1

theorem unitSign_mul_self (c : Double) : c.unitSign * c.unitSign = 1 := by
  unfold unitSign
  split <;> rfl

theorem exact_eq {c : Double} {u : Nat} (magnitude : c.magnitude? = some u) :
    c.exact = (c.unitSign * u : Int) / unitsPerOne := by
  rw [Int.cast_mul, Int.cast_natCast]
  cases negative : c.isNegative with
  | false => simp only [exact, magnitude, unitSign, negative, Bool.false_eq_true, if_false,
      Int.cast_one, one_mul]
  | true => simp only [exact, magnitude, unitSign, negative, if_true, Int.cast_neg, Int.cast_one,
      neg_one_mul, neg_div]

theorem toInt?_eq_some_iff_dvd {c : Double} {u : Nat} (magnitude : c.magnitude? = some u)
    {n : Int} : c.toInt? = some n ↔
      unitsPerOne ∣ u ∧ c.unitSign * (u / unitsPerOne : Nat) = n := by
  have signed : c.unitSign * (u / unitsPerOne : Nat)
      = if c.isNegative then -((u / unitsPerOne : Nat) : Int) else (u / unitsPerOne : Nat) := by
    rw [unitSign, ite_mul, neg_one_mul, one_mul]
  rw [toInt?, magnitude, signed, Nat.dvd_iff_mod_eq_zero]
  exact Option.ite_none_right_eq_some.trans (and_congr_right fun _ => Option.some_inj)

theorem quotient_eq_iff {scale u : Nat} (pos : 0 < scale) {sign n : Int} (unit : sign * sign = 1) :
    (scale ∣ u ∧ sign * (u / scale : Nat) = n) ↔ ((sign * u : Int) : ℚ) / scale = n := by
  have nonzero : (scale : Int) ≠ 0 := Int.natCast_ne_zero.mpr (Nat.pos_iff_ne_zero.mp pos)
  have cleared : ((sign * u : Int) : ℚ) / scale = n ↔ sign * u = n * scale := by
    rw [div_eq_iff (by exact_mod_cast nonzero)]
    exact_mod_cast Iff.rfl
  rw [cleared]
  constructor
  · rintro ⟨⟨q, rfl⟩, rfl⟩
    rw [Nat.mul_div_cancel_left q pos]
    push_cast
    ring
  · intro h
    have whole : (u : Int) = scale * (sign * n) := by
      calc
        (u : Int) = sign * sign * u := by rw [unit, one_mul]
        _ = sign * (n * scale) := by rw [mul_assoc, h]
        _ = scale * (sign * n) := by ring
    have divides : scale ∣ u := Int.natCast_dvd_natCast.mp ⟨_, whole⟩
    obtain ⟨q, rfl⟩ := divides
    refine ⟨Nat.dvd_mul_right scale q, mul_right_cancel₀ nonzero ?_⟩
    rw [Nat.mul_div_cancel_left q pos, ← h]
    push_cast
    ring

/-- A finite number is read as an integer exactly where it has the value of that integer. -/
theorem toInt?_eq_some_iff {c : Double} (finite : c.isFinite = true) {n : Int} :
    c.toInt? = some n ↔ c.exact = n := by
  obtain ⟨u, magnitude⟩ := exists_magnitude? finite
  rw [toInt?_eq_some_iff_dvd magnitude, exact_eq magnitude]
  exact quotient_eq_iff (twoTo_pos 1074) c.unitSign_mul_self

end Double

/-! ## Calls -/

variable {K : Type u} [Field K] [DecidableEq K] (fn : Functions K) (row : Row K)

/-- A power with an integer exponent, which has no value where it divides by zero. -/
def power? (b : K) (n : Int) : Option K := if b = 0 ∧ n < 0 then none else some (b ^ n)

/-- What a function makes of its arguments, whose values are given too; the exponent of a power has
to be a number that the call spells out. -/
def Head.value? : Head → List Call → List K → Option K
  | .add, _, as => some as.sum
  | .mul, _, as => some as.prod
  | .power, [_, .integer n], [b, _] => power? b n
  | .raise, [_, .integer n], [b, _] => power? b n
  | .neg, _, [a] => some (-a)
  | .exp, _, [a] => some (fn.exp a)
  | .log, _, [a] => some (fn.log a)
  | .sqrt, _, [a] => some (fn.sqrt a)
  | _, _, _ => none

namespace Call

mutual

def value? : Call → Option K
  | symbol v => some (row.get v)
  | integer n => some n
  | real c => if c.isFinite then some c.exact else none
  | apply head args => (valueAll? args).bind (head.value? fn args)

def valueAll? : List Call → Option (List K)
  | [] => some []
  | c :: cs => (value? c).bind fun a => (valueAll? cs).map (a :: ·)

end

def Worth (calls : List Call) (as : List K) : Prop :=
  List.Forall₂ (fun c a => c.value? fn row = some a) calls as

variable {fn row} {c c' : Call} {a a' : K} {calls : List Call} {as : List K}

theorem valueAll?_eq (h : Worth fn row calls as) : valueAll? fn row calls = some as := by
  induction h with
  | nil => rfl
  | cons first _ ih =>
    rw [valueAll?, first, ih]
    rfl

theorem value?_apply (head : Head) (h : Worth fn row calls as) :
    (apply head calls).value? fn row = head.value? fn calls as := by
  rw [value?, valueAll?_eq h, Option.bind_some]

theorem worth_one (h : c.value? fn row = some a) : Worth fn row [c] [a] := .cons h .nil

theorem worth_two (h : c.value? fn row = some a) (h' : c'.value? fn row = some a') :
    Worth fn row [c, c'] [a, a'] := .cons h (worth_one h')

theorem worth_map {f : Call → Call} {g : K → K}
    (each : ∀ {c a}, c.value? fn row = some a → (f c).value? fn row = some (g a))
    (h : Worth fn row calls as) : Worth fn row (calls.map f) (as.map g) := by
  rw [Worth, List.forall₂_map_left_iff, List.forall₂_map_right_iff]
  exact h.imp fun _ _ => each

theorem value?_power (h : c.value? fn row = some a) (divisor : a ≠ 0) :
    (apply .power [c, integer (-1)]).value? fn row = some a⁻¹ := by
  rw [value?_apply .power (worth_two h rfl), Head.value?, power?, if_neg (fun z => divisor z.1),
    zpow_neg_one]

theorem value?_raise (h : c.value? fn row = some a) :
    (apply .raise [c, integer 2]).value? fn row = some (a * a) := by
  rw [value?_apply .raise (worth_two h rfl), Head.value?, power?, if_neg (by simp), zpow_two]

theorem value?_exponentials (h : Worth fn row calls as) :
    (exponentials calls).value? fn row = some (as.map fn.exp).sum :=
  value?_apply .add (worth_map (fun hc => value?_apply .exp (worth_one hc)) h)

theorem value?_squares (h : Worth fn row calls as) :
    (squares calls).value? fn row = some (as.map fun a => a * a).sum :=
  value?_apply .add (worth_map value?_raise h)

theorem value?_ofConstant {c : Double} (finite : c.isFinite = true) :
    (ofConstant c).value? fn row = some (c.exact : K) := by
  cases whole : c.toInt? with
  | none => simp only [ofConstant, whole, value?, finite, if_true]
  | some n =>
    rw [(Double.toInt?_eq_some_iff finite).mp whole]
    simp only [ofConstant, whole, value?, Rat.cast_intCast]

omit [DecidableEq K] in
theorem apply_reduction {op : Op} {r : Reduction} (role : (Arithmetic.ofField fn).role op = .many r)
    (as : List K) : (Arithmetic.ofField fn).apply op as
      = (Arithmetic.ofField fn).finish r (as.map ((Arithmetic.ofField fn).summand r)).sum := by
  simp only [Arithmetic.apply, Arithmetic.combine?, role, Option.getD_some, Arithmetic.reduce,
    Arithmetic.total_ofField]

/-- The call of an operator has the value of that operator. -/
theorem exists_ofOp? {op : Op} (count : op.accepts calls.length = true)
    (divides : (Arithmetic.ofField fn).Divides op as) (h : Worth fn row calls as) :
    ∃ call, ofOp? op calls = some call
      ∧ call.value? fn row = some ((Arithmetic.ofField fn).apply op as) := by
  cases op with
  | add =>
    obtain ⟨ca, cb, a, b, rfl, rfl, ha, hb⟩ := forall₂_two h (of_decide_eq_true count)
    refine ⟨_, rfl, (value?_apply .add (worth_two ha hb)).trans ?_⟩
    exact congrArg some (List.sum_pair ..)
  | sub =>
    obtain ⟨ca, cb, a, b, rfl, rfl, ha, hb⟩ := forall₂_two h (of_decide_eq_true count)
    have negated : (apply .mul [integer (-1), cb]).value? fn row = some (-b) := by
      rw [value?_apply .mul (worth_two rfl hb), Head.value?]
      simp
    refine ⟨_, rfl, (value?_apply .add (worth_two ha negated)).trans ?_⟩
    rw [Head.value?, List.sum_pair, ← sub_eq_add_neg]
    rfl
  | mul =>
    obtain ⟨ca, cb, a, b, rfl, rfl, ha, hb⟩ := forall₂_two h (of_decide_eq_true count)
    refine ⟨_, rfl, (value?_apply .mul (worth_two ha hb)).trans ?_⟩
    exact congrArg some (List.prod_pair ..)
  | div =>
    obtain ⟨ca, cb, a, b, rfl, rfl, ha, hb⟩ := forall₂_two h (of_decide_eq_true count)
    have inverse := value?_power hb divides
    refine ⟨_, rfl, (value?_apply .mul (worth_two ha inverse)).trans ?_⟩
    rw [Head.value?, List.prod_pair, ← div_eq_mul_inv]
    rfl
  | neg =>
    obtain ⟨ca, a, rfl, rfl, ha⟩ := forall₂_one h (of_decide_eq_true count)
    exact ⟨_, rfl, value?_apply .neg (worth_one ha)⟩
  | sumexp =>
    rw [apply_reduction rfl]
    exact ⟨_, rfl, value?_exponentials h⟩
  | lse =>
    rw [apply_reduction rfl]
    exact ⟨_, rfl, value?_apply .log (worth_one (value?_exponentials h))⟩
  | sumsq n =>
    rw [apply_reduction rfl]
    exact ⟨_, rfl, value?_squares h⟩
  | distance n =>
    rw [apply_reduction rfl]
    exact ⟨_, rfl, value?_apply .sqrt (worth_one (value?_squares h))⟩

end Call

/-! ## Terms -/

namespace Term

variable {fn row}

theorem exists_call? {t : Term} (wf : t.WellFormed)
    (finite : ∀ c ∈ t.constants, c.isFinite = true) (defined : t.Defined (.ofField fn) row) :
    ∃ call, t.call? = some call ∧ call.value? fn row = some (t.value (.ofField fn) row) := by
  induction t using ind with
  | var v => exact ⟨_, rfl, rfl⟩
  | const c => exact ⟨_, rfl, Call.value?_ofConstant (finite c List.mem_cons_self)⟩
  | app op args ih =>
    obtain ⟨count, operands⟩ := wellFormed_app.mp wf
    obtain ⟨divides, inner⟩ := everywhere_app.mp defined
    rw [constants_app, List.forall_mem_flatMap] at finite
    obtain ⟨calls, translated, values⟩ := exists_mapM fun a ha =>
      ih a ha (operands a ha) (finite a ha) (inner a ha)
    have worth : Call.Worth fn row calls (args.map (value (.ofField fn) row)) :=
      List.forall₂_map_right_iff.mpr values.flip
    rw [values.length_eq] at count
    obtain ⟨call, built, same⟩ := Call.exists_ofOp? count divides worth
    refine ⟨call, ?_, ?_⟩
    · rw [call?_app, translated, Option.bind_some, built]
    · rw [same, value_app]

end Term

/-- Over every field, the calls of a well-formed term with finite constants are worth what the term
is worth where none of its divisors is zero. A constant that is an integer becomes just that
integer. -/
theorem call_keeps_value (fn : Functions K) (row : Row K) :
    (∀ t : Term, t.WellFormed → (∀ c ∈ t.constants, c.isFinite = true) →
      t.Defined (.ofField fn) row →
      ∃ call a, t.call? = some call ∧ call.value? fn row = some a
        ∧ t.columnOn (.ofField fn) [row] = .ok [a])
      ∧ ∀ (c : Double) (n : Int), c.isFinite = true → c.exact = n →
        (Term.const c).call? = some (.integer n) := by
  constructor
  · intro t wf finite defined
    obtain ⟨call, translated, value⟩ := Term.exists_call? wf finite defined
    exact ⟨call, _, translated, value, Term.columnOn_eq (.ofField fn) [row] wf⟩
  · intro c n finite whole
    have read := (Double.toInt?_eq_some_iff finite).mpr whole
    exact congrArg some (by rw [Call.ofConstant, read])

theorem call_keeps_value_quotient :
    let large := Double.ofRank false (1093 * twoTo 52)
    let t := Term.app .div
      [.app .sub [.const large, .var .x], .app (.distance .two) [.var .x, .app .lse [.var .y]]]
    let fn : Functions ℚ := ⟨fun a => a + 1, fun a => 3 * a, fun a => a⟩
    (∃ call a, t.call? = some call ∧ call.value? fn ⟨1, 2, 0⟩ = some a
        ∧ t.columnOn (.ofField fn) [⟨1, 2, 0⟩] = .ok [a])
      ∧ (Term.const large).call? = some (.integer 1180591620717411303424) := by
  intro large t fn
  have keeps := call_keeps_value fn ⟨1, 2, 0⟩
  have finite : large.isFinite = true := by decide +kernel
  have whole : large.exact = (1180591620717411303424 : Int) :=
    (Double.toInt?_eq_some_iff finite).mp (by decide +kernel)
  have root : (Term.app (.distance .two) [.var .x, .app .lse [.var .y]]).value (.ofField fn)
      ⟨1, 2, 0⟩ = 82 := by
    rw [Term.value_distance]
    simp [Term.value_lse, fn, Row.get]
    norm_num
  have defined : t.Defined (.ofField fn) ⟨1, 2, 0⟩ := by
    have divisor : (Term.app (.distance .two) [.var .x, .app .lse [.var .y]]).Defined (.ofField fn)
        ⟨1, 2, 0⟩ :=
      .app trivial (by simp [Term.Everywhere.var, Term.everywhere_app, Arithmetic.Divides])
    have dividend : (Term.app .sub [.const large, .var .x]).Defined (.ofField fn) ⟨1, 2, 0⟩ :=
      .app trivial (by simp [Term.Everywhere.var, Term.Everywhere.const])
    refine .app (root.trans_ne ?_) (by simpa using ⟨dividend, divisor⟩)
    exact (by norm_num : (82 : ℚ) ≠ 0)
  exact ⟨keeps.1 t (by decide +kernel) (by decide +kernel) defined, keeps.2 large _ finite whole⟩

end Formulae
