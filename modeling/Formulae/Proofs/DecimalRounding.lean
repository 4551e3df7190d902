import Formulae.Decimal
import Formulae.Proofs.Rounding
/-!
The double nearest to a decimal. Zeros at the end of its digits do not matter, and a decimal whose
magnitude some double has is rounded to that double: this holds of every integer written in full and
of all the digits of a double.
-/
namespace Formulae.Decimal

theorem tenTo_zero : tenTo 0 = 1 := rfl

theorem digitCount_le_iff {n k : Nat} (hk : 0 < k) : digitCount n ≤ k ↔ n < tenTo k :=
  Nat.length_toDigits_le_iff (by decide) hk

theorem digitCount_pos (n : Nat) : 0 < digitCount n := Nat.length_toDigits_pos

theorem digitCount_mul_ten {n : Nat} (hn : 0 < n) : digitCount (n * 10) = digitCount n + 1 := by
  rw [digitCount, Nat.toDigits_of_base_le (by decide) (Nat.le_mul_of_pos_left 10 hn),
    Nat.mul_div_cancel n (by decide), List.length_append]
  rfl

theorem toDouble_zero (negative : Bool) (e : Int) : toDouble ⟨negative, 0, e⟩ = .zero negative := by
  rw [toDouble]
  exact if_pos rfl

theorem den_pos (d : Decimal) : 0 < d.den := tenTo_pos _

theorem toDouble_of_places {d : Decimal} (hz : d.digits ≠ 0)
    (low : -330 ≤ digitCount d.digits + d.exponent)
    (high : digitCount d.digits + d.exponent ≤ 310) :
    d.toDouble = .nearest d.negative d.num d.den := by
  rw [toDouble, if_neg hz, if_neg (Int.not_lt.mpr high), if_neg (Int.not_lt.mpr low)]

theorem toDouble_mul_ten (negative : Bool) (n : Nat) (e : Int) :
    toDouble ⟨negative, n * 10, e⟩ = toDouble ⟨negative, n, e + 1⟩ := by
  by_cases hz : n = 0
  · rw [hz, Nat.zero_mul, toDouble_zero, toDouble_zero]
  · have places : (digitCount (n * 10) : Int) + e = digitCount n + (e + 1) := by
      rw [digitCount_mul_ten (Nat.pos_of_ne_zero hz)]
      omega
    have quotients : n * 10 * tenTo e.toNat * tenTo (-(e + 1)).toNat
        = n * tenTo (e + 1).toNat * tenTo (-e).toNat := by
      by_cases sign : 0 ≤ e
      · have up : (e + 1).toNat = e.toNat + 1 := by omega
        have down : (-(e + 1)).toNat = (-e).toNat := by omega
        rw [up, down, tenTo_succ, Nat.mul_assoc n, Nat.mul_comm 10]
      · have up : (e + 1).toNat = e.toNat := by omega
        have down : (-e).toNat = (-(e + 1)).toNat + 1 := by omega
        rw [up, down, tenTo_succ, Nat.mul_right_comm n 10, Nat.mul_assoc _ 10, Nat.mul_comm 10]
    have same : Double.nearest negative (num ⟨negative, n * 10, e⟩) (den ⟨negative, n * 10, e⟩)
        = .nearest negative (num ⟨negative, n, e + 1⟩) (den ⟨negative, n, e + 1⟩) :=
      Double.nearest_congr negative (den_pos _) (den_pos _) quotients
    simp only [toDouble, places, same, hz, Nat.mul_eq_zero, or_false, Nat.reduceEqDiff]

theorem toDouble_shift (negative : Bool) (n z : Nat) (e : Int) :
    toDouble ⟨negative, n * tenTo z, e⟩ = toDouble ⟨negative, n, e + z⟩ := by
  induction z generalizing e with
  | zero => rw [tenTo_zero, Nat.mul_one, Int.natCast_zero, Int.add_zero]
  | succ z ih =>
    rw [tenTo_succ, ← Nat.mul_assoc, toDouble_mul_ten, ih]
    congr 2
    omega

theorem toDouble_integer {negative : Bool} {n : Nat} {rank : Fin (Double.top + 1)}
    (hn : n < tenTo 16) (h : n * Double.unitsPerOne = Double.units rank.val) :
    toDouble ⟨negative, n, 0⟩ = .signed negative rank := by
  by_cases hz : n = 0
  · have units_zero : Double.units rank.val = 0 := by rw [← h, hz, Nat.zero_mul]
    have rank_zero : rank = 0 := Fin.ext (Double.units_eq_zero units_zero)
    rw [hz, toDouble_zero, rank_zero]
    rfl
  · have few := (digitCount_le_iff (by decide)).mpr hn
    have some_ := digitCount_pos n
    rw [toDouble_of_places hz (by simp only; omega) (by simp only; omega)]
    apply Double.nearest_eq (tenTo_pos _)
    rw [← h]
    simp only [num, Int.toNat_zero, Int.neg_zero, tenTo_zero, Nat.mul_one]

theorem units_lt_top {rank : Nat} (h : rank < Double.top) :
    Double.units rank < twoTo 52 * twoTo 2046 := by
  have e : Double.top = twoTo 52 * (2045 + 1) + twoTo 52 := by decide
  have units_top : Double.units Double.top = (twoTo 52 + twoTo 52) * twoTo 2045 := by
    rw [e, Double.units_binade (Nat.le_refl _)]
  have double : (twoTo 52 + twoTo 52) * twoTo 2045 = twoTo 52 * twoTo 2046 := by
    rw [twoTo_succ 2045, ← Nat.two_mul, Nat.mul_comm 2, Nat.mul_assoc, Nat.mul_comm 2]
  rw [← double, ← units_top]
  exact Double.units_strictMono h

theorem toDouble_exact {negative : Bool} {rank : Fin (Double.top + 1)}
    (pos : 0 < Double.units rank.val) (fin : rank.val < Double.top) :
    (exact negative (Double.units rank.val)).toDouble = .signed negative rank := by
  have fives : tenTo 743 ≤ Nat.pow 5 1074 := by decide +kernel
  have range : twoTo 52 * twoTo 2046 * Nat.pow 5 1074 ≤ tenTo 1384 := by decide +kernel
  have powers : Nat.pow 5 1074 * twoTo 1074 = tenTo 1074 := by decide +kernel
  rw [exact]
  generalize Nat.pow 5 1074 = f at fives range powers
  have fpos : 0 < f := Nat.lt_of_lt_of_le (tenTo_pos 743) fives
  have least : f ≤ Double.units rank.val * f := Nat.le_mul_of_pos_left _ pos
  have most : Double.units rank.val * f < tenTo 1384 :=
    Nat.lt_of_lt_of_le (Nat.mul_lt_mul_of_pos_right (units_lt_top fin) fpos) range
  have many : ¬ digitCount (Double.units rank.val * f) ≤ 743 := by
    rw [digitCount_le_iff (by decide)]
    omega
  have few := (digitCount_le_iff (by decide)).mpr most
  rw [toDouble_of_places (by simp only; omega) (by simp only; omega) (by simp only; omega)]
  apply Double.nearest_eq (tenTo_pos _)
  have up : (-1074 : Int).toNat = 0 := rfl
  have down : (- -1074 : Int).toNat = 1074 := rfl
  simp only [num, up, down, tenTo_zero, Nat.mul_one, Double.unitsPerOne]
  rw [Nat.mul_assoc, powers]

theorem withDigits?_spec {v : Double} {num den count : Nat} {d : Decimal}
    (h : withDigits? v num den count = some d) : d.toDouble = v ∧ d.negative = v.isNegative := by
  unfold withDigits? at h
  dsimp only at h
  split at h
  · rename_i below
    split at h
    · rename_i above
      cases h
      exact ⟨above.1, rfl⟩
    · cases h
      exact ⟨below, rfl⟩
  · split at h
    · rename_i above
      cases h
      exact ⟨above, rfl⟩
    · exact nomatch h

/-- The shortest digits of a double, or else all of its digits, are read as that double. -/
theorem shortest_spec (negative : Bool) {rank : Fin (Double.top + 1)}
    (pos : 0 < Double.units rank.val) (fin : rank.val < Double.top) :
    let d := shortest (.signed negative rank) (Double.units rank.val)
    d.toDouble = .signed negative rank ∧ d.negative = negative := by
  dsimp only
  rw [shortest]
  cases found : (List.range 17).findSome? fun i =>
      withDigits? (.signed negative rank) (Double.units rank.val) Double.unitsPerOne (i + 1) with
  | none => exact ⟨toDouble_exact pos fin, rfl⟩
  | some d =>
    obtain ⟨i, -, hi⟩ := List.exists_of_findSome?_eq_some found
    exact withDigits?_spec hi

end Formulae.Decimal
