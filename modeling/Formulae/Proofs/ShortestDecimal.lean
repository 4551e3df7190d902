import Formulae.Proofs.ConstantText
import Formulae.Proofs.DecimalGrid
import Formulae.Proofs.Exact
/-!
The shortest digits of a double. The grids are searched from the coarsest on, and the search ends at
the first that offers anything, at seventeen digits or before. No decimal that reads back is written
with fewer digits than the one found, and none that is written with as few is nearer to the number.
-/
namespace Formulae.Decimal

open Double (weight unitsPerOne)

def distance (d : Decimal) (v : Double) : ℚ := |d.magnitude - (|v.exact|)|

/-- A decimal that a double is written by: it reads back, with as few digits as can be and, among
those, as near to the number as can be; a tie goes to an even digit. -/
structure IsShortest (v : Double) (d : Decimal) : Prop where
  reads : d.toDouble = v
  fewest : ∀ d', toDouble d' = v → (significant d.digits).length ≤ (significant d'.digits).length
  nearest : ∀ d', toDouble d' = v → (significant d'.digits).length ≤ (significant d.digits).length →
    d.distance v ≤ d'.distance v
  even : ∀ d', toDouble d' = v → (significant d'.digits).length ≤ (significant d.digits).length →
    d'.magnitude ≠ d.magnitude → d.distance v = d'.distance v → d.digits % 2 = 0

/-! ## Digits up to the last that is not zero -/

theorem significant_mul_ten (n : Nat) : significant (n * 10) = significant n := by
  obtain rfl | pos := Nat.eq_zero_or_pos n
  · rfl
  · rw [significant, Nat.toDigits_of_base_le (by decide) (Nat.le_mul_of_pos_left 10 pos),
      Nat.mul_div_cancel n (by decide), Nat.mul_mod_left, Text.trimRight, List.reverse_append]
    rfl

theorem significant_mul_tenTo (n z : Nat) : significant (n * tenTo z) = significant n := by
  induction z with
  | zero => rw [tenTo_zero, Nat.mul_one]
  | succ z ih => rw [tenTo_succ, ← Nat.mul_assoc, significant_mul_ten, ih]

theorem length_significant_le_digitCount (n : Nat) : (significant n).length ≤ digitCount n := by
  obtain ⟨z, all⟩ := exists_zeros n
  rw [digitCount, all, List.length_append]
  exact Nat.le_add_right _ _

theorem length_significant_le {n count : Nat} (hc : 0 < count) (h : n ≤ tenTo count) :
    (significant n).length ≤ count := by
  obtain less | rfl := Nat.lt_or_eq_of_le h
  · exact (length_significant_le_digitCount n).trans ((digitCount_le_iff hc).mpr less)
  · have one : (significant 1).length = 1 := by decide
    rw [← Nat.one_mul (tenTo count), significant_mul_tenTo, one]
    exact hc

theorem exists_trimmed {d : Decimal} {count : Nat}
    (h : (significant d.digits).length ≤ count) :
    ∃ d' : Decimal, d'.toDouble = d.toDouble ∧ d'.magnitude = d.magnitude
      ∧ d'.digits < tenTo count := by
  obtain ⟨z, all⟩ := exists_zeros d.digits
  have shown := eq_value_significant all
  refine ⟨⟨d.negative, value (significant d.digits), d.exponent + z⟩, ?_, ?_, ?_⟩
  · rw [← toDouble_shift, ← shown]
  · rw [magnitude, magnitude, add_comm, zpow_add₀ ten_ne_zero, ← cast_tenTo, ← mul_assoc, ← Nat.cast_mul,
      ← shown]
  · have total : digitCount d.digits = (significant d.digits).length + z := by
      rw [digitCount, all, List.length_append, List.length_replicate]
    have bound := (digitCount_le_iff (digitCount_pos d.digits)).mp (Nat.le_refl _)
    have less : value (significant d.digits) < tenTo (significant d.digits).length := by
      refine Nat.lt_of_mul_lt_mul_right (a := tenTo z) ?_
      calc
        value (significant d.digits) * tenTo z = d.digits := shown.symm
        _ < tenTo (digitCount d.digits) := bound
        _ = tenTo (significant d.digits).length * tenTo z := by rw [total, tenTo_add]
    exact less.trans_le (Nat.pow_le_pow_right (by decide) h)

/-! ## The search -/

theorem exists_least_count {v : Double} {u : Nat}
    (h : ∃ d, withDigits? v u unitsPerOne 17 = some d) :
    ∃ count, 0 < count ∧ withDigits? v u unitsPerOne count = some (shortest v u)
      ∧ ∀ fewer, 0 < fewer → fewer < count → withDigits? v u unitsPerOne fewer = none := by
  obtain ⟨last, offered⟩ := h
  have ends : ((List.range 17).findSome? fun i => withDigits? v u unitsPerOne (i + 1)).isSome :=
    List.findSome?_isSome_iff.mpr ⟨16, by decide, Option.isSome_of_eq_some offered⟩
  obtain ⟨d, found⟩ := Option.isSome_iff_exists.mp ends
  obtain ⟨before, i, after, parts, at_i, earlier⟩ := List.findSome?_eq_some_iff.mp found
  rw [List.range_eq_range', List.range'_eq_append_iff] at parts
  obtain ⟨k, -, rfl, rest⟩ := parts
  obtain ⟨start, -⟩ := List.range'_eq_cons_iff.mp rest.symm
  refine ⟨i + 1, Nat.succ_pos i, ?_, fun fewer some_ less => ?_⟩
  · rw [shortest, found, at_i]
    rfl
  · obtain ⟨j, rfl⟩ : ∃ j, fewer = j + 1 := ⟨fewer - 1, by omega⟩
    exact earlier j (List.mem_range'_1.mpr (by omega))

variable {negative : Bool} {rank : Fin (Double.top + 1)}

theorem abs_exact (negative : Bool) (fin : rank.val < Double.top) :
    |(Double.signed negative rank).exact| = weight rank.val := by
  have nonneg : 0 ≤ weight rank.val := by
    rw [← Double.weight_zero]
    exact Double.weight_strictMono.monotone (Nat.zero_le _)
  have magnitude : (Double.signed negative rank).magnitude? = some (Double.units rank.val) :=
    if_pos fin
  rw [Double.exact, magnitude]
  dsimp only
  split
  · exact (abs_neg _).trans (abs_of_nonneg nonneg)
  · exact abs_of_nonneg nonneg

/-- The digits found are the shortest. -/
theorem isShortest_shortest (negative : Bool) (pos : 0 < Double.units rank.val)
    (fin : rank.val < Double.top) :
    IsShortest (.signed negative rank)
      (shortest (.signed negative rank) (Double.units rank.val)) := by
  obtain ⟨count, some_, found, earlier⟩ :=
    exists_least_count (exists_withDigits?_seventeen negative pos fin)
  obtain ⟨reads, -⟩ := withDigits?_spec found
  have few := length_significant_le some_ (digits_le_of_withDigits? pos found)
  -- A decimal with trailing zeros may lie off the grid, so it is compared by its trimmed form.
  have good : ∀ d', toDouble d' = .signed negative rank → (significant d'.digits).length ≤ count →
      AsGood rank (shortest (.signed negative rank) (Double.units rank.val)) d' := by
    intro d' h le
    obtain ⟨t, same, size, digits⟩ := exists_trimmed le
    have best := asGood_of_withDigits? pos some_ found digits (same.trans h)
    rwa [AsGood, size] at best
  have distance_eq : ∀ d : Decimal, d.distance (.signed negative rank)
      = |d.magnitude - weight rank.val| := by
    intro d
    rw [distance, abs_exact negative fin]
  refine ⟨reads, fun d' h => ?_, fun d' h le => ?_, fun d' h le => ?_⟩
  · refine few.trans (Nat.le_of_not_lt fun less => ?_)
    obtain ⟨t, same, -, digits⟩ := exists_trimmed (Nat.le_refl (significant d'.digits).length)
    have length := List.length_pos_iff.mpr (significant_ne_nil (Double.digits_ne_zero h pos.ne'))
    obtain ⟨d, offered⟩ := exists_withDigits?_of_reads pos length digits (same.trans h)
    rw [earlier _ length less] at offered
    cases offered
  · rw [distance_eq, distance_eq]
    exact (good d' h (le.trans few)).1
  · rw [distance_eq, distance_eq]
    exact (good d' h (le.trans few)).2

end Formulae.Decimal
