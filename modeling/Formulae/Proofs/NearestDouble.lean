import Formulae.Proofs.DecimalRounding
import Mathlib.Algebra.Order.Field.Rat
import Mathlib.Algebra.Order.Ring.Abs
import Mathlib.Tactic.Linarith
/-!
Reading rounds to nearest. Of all magnitudes of the format, that of the double which a decimal
stands for is nearest to the decimal, and of two that are as near it is the one of even rank.
Infinity stands for the first magnitude out of range. One number has one nearest magnitude, and the
numbers that have the same one lie together.
-/
namespace Formulae

namespace Double

def weight (rank : Nat) : ℚ := units rank / unitsPerOne

/-- The rank that a number is rounded to: no magnitude is nearer, and one that is as near has an odd
rank. -/
structure IsNearest (q : ℚ) (rank : Nat) : Prop where
  le_top : rank ≤ top
  least : ∀ other ≤ top, |weight rank - q| ≤ |weight other - q|
  even : ∀ other ≤ top, other ≠ rank → |weight rank - q| = |weight other - q| → rank % 2 = 0

def Rounds (negative : Bool) (q : ℚ) (v : Double) : Prop :=
  ∃ rank, IsNearest q rank ∧ v = ofRank negative rank

theorem unit_pos : 0 < unitsPerOne := twoTo_pos 1074

theorem unitsPerOne_pos : (0 : ℚ) < unitsPerOne := Nat.cast_pos.mpr unit_pos

theorem weight_strictMono : StrictMono weight := fun _ _ h =>
  div_lt_div_of_pos_right (Nat.cast_lt.mpr (units_strictMono h)) unitsPerOne_pos

theorem abs_sub_le_iff_left {a b q : ℚ} (h : a < b) : |a - q| ≤ |b - q| ↔ 2 * q ≤ a + b := by
  rw [← sq_le_sq]
  constructor <;> intro near <;> nlinarith

theorem abs_sub_le_iff_right {a b q : ℚ} (h : a < b) : |b - q| ≤ |a - q| ↔ a + b ≤ 2 * q := by
  rw [← sq_le_sq]
  constructor <;> intro near <;> nlinarith

variable {q q₁ q₂ : ℚ} {rank r s : Nat}

/-- A number lies above the middle of a rank and the one below it, or in the middle if the rank is
even. -/
structure Above (q : ℚ) (rank : Nat) : Prop where
  middle : ∀ {r}, r + 1 = rank → weight r + weight rank ≤ 2 * q
  even : ∀ {r}, r + 1 = rank → weight r + weight rank = 2 * q → rank % 2 = 0

structure Below (q : ℚ) (rank : Nat) : Prop where
  middle : rank < top → 2 * q ≤ weight rank + weight (rank + 1)
  even : rank < top → 2 * q = weight rank + weight (rank + 1) → rank % 2 = 0

theorem Above.mono (h : Above q₁ rank) (le : q₁ ≤ q) : Above q rank where
  middle hr := (h.middle hr).trans (by linarith)
  even hr same := h.even hr (le_antisymm (h.middle hr) (by linarith))

theorem Below.mono (h : Below q₂ rank) (le : q ≤ q₂) : Below q rank where
  middle room := le_trans (by linarith) (h.middle room)
  even room same := h.even room (le_antisymm (h.middle room) (by linarith))

theorem Above.of_lt_middle (h : ∀ {r}, r + 1 = rank → weight r + weight rank < 2 * q) :
    Above q rank where
  middle hr := (h hr).le
  even hr same := absurd same (h hr).ne

theorem Below.of_lt_middle (h : rank < top → 2 * q < weight rank + weight (rank + 1)) :
    Below q rank where
  middle room := (h room).le
  even room same := absurd same (h room).ne

theorem Above.of_lt (h : Above q rank) (lt : r < rank) :
    weight r + weight rank ≤ 2 * q ∧ (2 * q ≤ weight r + weight rank → rank % 2 = 0) := by
  obtain ⟨p, rfl⟩ : ∃ p, rank = p + 1 := ⟨rank - 1, by omega⟩
  have lower : weight r ≤ weight p := weight_strictMono.monotone (Nat.le_of_lt_succ lt)
  have middle := h.middle rfl
  exact ⟨by linarith, fun reached => h.even rfl (by linarith)⟩

theorem Below.of_lt (h : Below q rank) (lt : rank < r) (le_top : r ≤ top) :
    2 * q ≤ weight rank + weight r ∧ (weight rank + weight r ≤ 2 * q → rank % 2 = 0) := by
  have room : rank < top := Nat.lt_of_lt_of_le lt le_top
  have higher : weight (rank + 1) ≤ weight r := weight_strictMono.monotone lt
  have middle := h.middle room
  exact ⟨by linarith, fun reached => h.even room (by linarith)⟩

/-- Only the two neighbours of a rank have to be compared with it. -/
theorem isNearest_iff : IsNearest q rank ↔ rank ≤ top ∧ Above q rank ∧ Below q rank := by
  constructor
  · intro h
    refine ⟨h.le_top, ⟨?_, ?_⟩, ⟨?_, ?_⟩⟩
    · rintro r rfl
      exact (abs_sub_le_iff_right (weight_strictMono r.lt_succ_self)).mp
        (h.least r (Nat.le_of_lt h.le_top))
    · rintro r rfl same
      have less := weight_strictMono r.lt_succ_self
      refine h.even r (Nat.le_of_lt h.le_top) (Nat.ne_of_lt r.lt_succ_self) (le_antisymm ?_ ?_)
      · exact (abs_sub_le_iff_right less).mpr same.le
      · exact (abs_sub_le_iff_left less).mpr same.ge
    · intro room
      exact (abs_sub_le_iff_left (weight_strictMono rank.lt_succ_self)).mp (h.least _ room)
    · intro room same
      have less := weight_strictMono rank.lt_succ_self
      refine h.even (rank + 1) room (Nat.ne_of_gt rank.lt_succ_self) (le_antisymm ?_ ?_)
      · exact (abs_sub_le_iff_left less).mpr same.le
      · exact (abs_sub_le_iff_right less).mpr same.ge
  · rintro ⟨le_top, above, below⟩
    refine ⟨le_top, fun other range => ?_, fun other range ne same => ?_⟩
    · obtain lt | rfl | gt := Nat.lt_trichotomy other rank
      · exact (abs_sub_le_iff_right (weight_strictMono lt)).mpr (above.of_lt lt).1
      · exact le_rfl
      · exact (abs_sub_le_iff_left (weight_strictMono gt)).mpr (below.of_lt gt range).1
    · obtain lt | gt := Nat.lt_or_gt_of_ne ne
      · exact (above.of_lt lt).2 ((abs_sub_le_iff_left (weight_strictMono lt)).mp same.ge)
      · exact (below.of_lt gt range).2 ((abs_sub_le_iff_right (weight_strictMono gt)).mp same.ge)

theorem isNearest_weight (h : rank ≤ top) : IsNearest (weight rank) rank where
  le_top := h
  least other _ := by
    rw [sub_self, abs_zero]
    exact abs_nonneg _
  even other _ ne same := by
    rw [sub_self, abs_zero, eq_comm, abs_eq_zero, sub_eq_zero] at same
    exact absurd (weight_strictMono.injective same) ne

/-- The numbers that are rounded to one rank lie together. -/
theorem IsNearest.of_between (h₁ : IsNearest q₁ rank) (h₂ : IsNearest q₂ rank) (le₁ : q₁ ≤ q)
    (le₂ : q ≤ q₂) : IsNearest q rank := by
  rw [isNearest_iff] at h₁ h₂ ⊢
  exact ⟨h₁.1, h₁.2.1.mono le₁, h₂.2.2.mono le₂⟩

theorem IsNearest.not_lt (hr : IsNearest q r) (hs : IsNearest q s) : ¬ r < s := by
  intro lt
  obtain ⟨-, -, below⟩ := isNearest_iff.mp hr
  obtain ⟨range, above, -⟩ := isNearest_iff.mp hs
  obtain ⟨low, low_even⟩ := below.of_lt lt range
  obtain ⟨high, high_even⟩ := above.of_lt lt
  -- in the middle between two ranks both are even, so there is another rank in between
  have even_r := low_even high
  have even_s := high_even low
  have next : r + 1 < s := by omega
  have nearer := (below.of_lt r.lt_succ_self (by omega)).1
  have more := weight_strictMono next
  linarith

theorem IsNearest.unique (hr : IsNearest q r) (hs : IsNearest q s) : r = s :=
  Nat.le_antisymm (Nat.le_of_not_lt (hs.not_lt hr)) (Nat.le_of_not_lt (hr.not_lt hs))

theorem isNearest_top (h : weight top ≤ q) : IsNearest q top := by
  have above := (isNearest_iff.mp (isNearest_weight (Nat.le_refl top))).2.1
  exact isNearest_iff.mpr ⟨Nat.le_refl top, above.mono h, .of_lt_middle fun room =>
    absurd room (lt_irrefl _)⟩

theorem weight_zero : weight 0 = 0 := by
  rw [weight, units_subnormal (Nat.zero_le _), Nat.cast_zero, zero_div]

theorem isNearest_zero (h : 2 * q < weight 1) : IsNearest q 0 := by
  have near : 2 * q < weight 0 + weight (0 + 1) := by rwa [weight_zero, zero_add]
  exact isNearest_iff.mpr ⟨Nat.zero_le _, .of_lt_middle nofun, .of_lt_middle fun _ => near⟩

/-! ## Quotients -/

theorem rankBelow_le (num den : Nat) : units (rankBelow num den) * den ≤ num := by
  have start : units 0 * den ≤ num := by
    rw [units_subnormal (Nat.zero_le _), Nat.zero_mul]
    exact Nat.zero_le num
  let p : Nat → Bool := fun rank => units rank * den ≤ num
  have found : p (greatest p 63 0) = true := greatest_holds (decide_eq_true start)
  exact of_decide_eq_true found

theorem lt_rankBelow_succ {num den : Nat} (h : rankBelow num den < top) :
    num < units (rankBelow num den + 1) * den := by
  refine Nat.lt_of_not_le fun le => ?_
  obtain past | ends := greatest_ends (fun rank => units rank * den ≤ num) 63 0
  · exact of_decide_eq_false past le
  · have range : top < twoTo 63 := by decide
    rw [Nat.zero_add] at ends
    rw [rankBelow] at h
    omega

theorem denominator_pos {den : Nat} (hd : 0 < den) : (0 : ℚ) < (unitsPerOne * den : Nat) :=
  Nat.cast_pos.mpr (Nat.mul_pos unit_pos hd)

theorem middle_eq (r s : Nat) {den : Nat} (hd : 0 < den) :
    weight r + weight s = (units r * den + units s * den : Nat) / (unitsPerOne * den : Nat) := by
  have pos : (0 : ℚ) < den := Nat.cast_pos.mpr hd
  rw [weight, weight, ← add_div, ← Nat.add_mul, Nat.cast_mul, Nat.cast_mul,
    mul_div_mul_right _ _ pos.ne', Nat.cast_add]

theorem double_eq (num den : Nat) :
    2 * (num / den : ℚ) = (2 * (num * unitsPerOne) : Nat) / (unitsPerOne * den : Nat) := by
  rw [← Nat.mul_assoc, Nat.cast_mul, Nat.cast_mul, Nat.cast_mul, mul_comm (unitsPerOne : ℚ),
    mul_div_mul_right _ _ unitsPerOne_pos.ne', Nat.cast_ofNat, mul_div_assoc]

theorem middle_le_iff (num : Nat) {den : Nat} (hd : 0 < den) (r s : Nat) :
    weight r + weight s ≤ 2 * (num / den)
      ↔ units r * den + units s * den ≤ 2 * (num * unitsPerOne) := by
  rw [middle_eq r s hd, double_eq, div_le_div_iff_of_pos_right (denominator_pos hd), Nat.cast_le]

theorem le_middle_iff (num : Nat) {den : Nat} (hd : 0 < den) (r s : Nat) :
    2 * (num / den) ≤ weight r + weight s
      ↔ 2 * (num * unitsPerOne) ≤ units r * den + units s * den := by
  rw [middle_eq r s hd, double_eq, div_le_div_iff_of_pos_right (denominator_pos hd), Nat.cast_le]

theorem isNearest_of_units {num den : Nat} (hd : 0 < den) (le_top : rank ≤ top)
    (above : ∀ r, r + 1 = rank → units r * den + units rank * den ≤ 2 * (num * unitsPerOne)
      ∧ (units r * den + units rank * den = 2 * (num * unitsPerOne) → rank % 2 = 0))
    (below : rank < top → 2 * (num * unitsPerOne) ≤ units rank * den + units (rank + 1) * den
      ∧ (2 * (num * unitsPerOne) = units rank * den + units (rank + 1) * den → rank % 2 = 0)) :
    IsNearest (num / den) rank := by
  refine isNearest_iff.mpr ⟨le_top, ⟨?_, ?_⟩, ⟨?_, ?_⟩⟩
  · intro r hr
    exact (middle_le_iff num hd r rank).mpr (above r hr).1
  · intro r hr same
    exact (above r hr).2 (Nat.le_antisymm (above r hr).1 ((le_middle_iff num hd r rank).mp same.ge))
  · intro room
    exact (le_middle_iff num hd rank (rank + 1)).mpr (below room).1
  · intro room same
    have reached := (middle_le_iff num hd rank (rank + 1)).mp same.ge
    exact (below room).2 (Nat.le_antisymm (below room).1 reached)

/-- A quotient is rounded to the rank that the bisection leads to. -/
theorem isNearest_nearestRank (num : Nat) {den : Nat} (hd : 0 < den) :
    IsNearest (num / den) (min (nearestRank (num * unitsPerOne) den) top) := by
  -- The bisection leaves the two ranks around the quotient. Past the last rank there is only one,
  -- and what the comparison of the gaps says does not matter there.
  have low_le := rankBelow_le (num * unitsPerOne) den
  unfold nearestRank
  generalize low_eq : rankBelow (num * unitsPerOne) den = low at low_le ⊢
  dsimp only
  by_cases room : low < top
  · have lt_high := lt_rankBelow_succ (low_eq ▸ room)
    rw [low_eq] at lt_high
    split
    · rename_i nearer
      rw [Nat.min_eq_left (Nat.le_of_lt room)]
      refine isNearest_of_units hd (Nat.le_of_lt room) ?_ ?_
      · rintro r rfl
        have less := Nat.mul_lt_mul_of_pos_right (units_lt_succ r) hd
        omega
      · intro _
        omega
    · rename_i farther
      have room : low + 1 ≤ top := room
      rw [Nat.min_eq_left room]
      refine isNearest_of_units hd room ?_ ?_
      · intro r hr
        obtain rfl : r = low := by omega
        omega
      · intro _
        have less := Nat.mul_lt_mul_of_pos_right (units_lt_succ (low + 1)) hd
        omega
  · have beyond : weight top ≤ num / den := by
      have le := (middle_le_iff num hd low low).mpr (by omega)
      have higher := weight_strictMono.monotone (Nat.le_of_not_lt room)
      linarith
    have past : top ≤
        if num * unitsPerOne - units low * den < units (low + 1) * den - num * unitsPerOne
          ∨ num * unitsPerOne - units low * den = units (low + 1) * den - num * unitsPerOne
            ∧ low % 2 = 0 then low else low + 1 := by
      split <;> omega
    rw [Nat.min_eq_right past]
    exact isNearest_top beyond

theorem ofRank_min (negative : Bool) (rank : Nat) :
    ofRank negative (min rank top) = ofRank negative rank := by
  simp only [ofRank, Nat.min_assoc, Nat.min_self]

theorem rounds_nearest (negative : Bool) (num : Nat) {den : Nat} (hd : 0 < den) :
    Rounds negative (num / den) (nearest negative num den) :=
  ⟨_, isNearest_nearestRank num hd, by rw [nearest, ofRank_min]⟩

end Double

namespace Decimal

/-- The number that a decimal is, without its sign. -/
def magnitude (d : Decimal) : ℚ := d.digits * (10 : ℚ) ^ d.exponent

theorem ten_ne_zero : (10 : ℚ) ≠ 0 := by norm_num

theorem ten_zpow_pos (e : ℤ) : (0 : ℚ) < 10 ^ e := zpow_pos (by norm_num) e

theorem cast_tenTo (n : Nat) : (tenTo n : ℚ) = (10 : ℚ) ^ (n : ℤ) := by
  have power : tenTo n = 10 ^ n := rfl
  rw [power, Nat.cast_pow, Nat.cast_ofNat, zpow_natCast]

theorem num_div_den (d : Decimal) : (d.num / d.den : ℚ) = d.magnitude := by
  have exponent : (d.exponent.toNat : ℤ) - (-d.exponent).toNat = d.exponent := by omega
  rw [num, den, Nat.cast_mul, cast_tenTo, cast_tenTo, mul_div_assoc, ← zpow_sub₀ ten_ne_zero, exponent,
    magnitude]

theorem pow_digitCount_le {n : Nat} (hn : n ≠ 0) :
    (10 : ℚ) ^ ((digitCount n : ℤ) - 1) ≤ n := by
  obtain one | more := Nat.eq_or_lt_of_le (digitCount_pos n)
  · rw [← one]
    have pos : 1 ≤ n := Nat.one_le_iff_ne_zero.mpr hn
    simpa using (Nat.cast_le (α := ℚ)).mpr pos
  · have count : ((digitCount n : ℤ) - 1) = ((digitCount n - 1 : Nat) : ℤ) := by omega
    have large : ¬ n < tenTo (digitCount n - 1) := by
      rw [← digitCount_le_iff (by omega)]
      omega
    rw [count, ← cast_tenTo]
    exact Nat.cast_le.mpr (Nat.le_of_not_lt large)

theorem lt_pow_digitCount (n : Nat) : (n : ℚ) < (10 : ℚ) ^ (digitCount n : ℤ) := by
  rw [← cast_tenTo]
  exact Nat.cast_lt.mpr ((digitCount_le_iff (digitCount_pos n)).mp (Nat.le_refl _))

theorem magnitude_bounds {d : Decimal} (hz : d.digits ≠ 0) :
    (10 : ℚ) ^ ((digitCount d.digits : ℤ) + d.exponent - 1) ≤ d.magnitude
      ∧ d.magnitude < (10 : ℚ) ^ ((digitCount d.digits : ℤ) + d.exponent) := by
  have pos := ten_zpow_pos d.exponent
  constructor
  · rw [add_sub_right_comm, zpow_add₀ ten_ne_zero, magnitude]
    exact mul_le_mul_of_nonneg_right (pow_digitCount_le hz) pos.le
  · rw [zpow_add₀ ten_ne_zero, magnitude]
    exact mul_lt_mul_of_pos_right (lt_pow_digitCount _) pos

theorem weight_top_le : Double.weight Double.top ≤ (10 : ℚ) ^ (310 : ℤ) := by
  have large : Double.units Double.top ≤ tenTo 310 * Double.unitsPerOne := by decide +kernel
  have power : ((310 : Nat) : ℤ) = 310 := rfl
  rw [Double.weight, div_le_iff₀ Double.unitsPerOne_pos, ← power, ← cast_tenTo, ← Nat.cast_mul]
  exact Nat.cast_le.mpr large

theorem lt_weight_one : 2 * (10 : ℚ) ^ (-331 : ℤ) < Double.weight 1 := by
  have small : 2 * Double.unitsPerOne < Double.units 1 * tenTo 331 := by decide +kernel
  have power : (-331 : ℤ) = -((331 : Nat) : ℤ) := rfl
  have pos : (0 : ℚ) < tenTo 331 := Nat.cast_pos.mpr (tenTo_pos 331)
  rw [Double.weight, power, zpow_neg, ← cast_tenTo, ← div_eq_mul_inv,
    div_lt_div_iff₀ pos Double.unitsPerOne_pos]
  exact_mod_cast small

/-- A decimal stands for the double that it is rounded to, also where it is seen from its places
alone to be out of range. -/
theorem rounds_toDouble (d : Decimal) : Double.Rounds d.negative d.magnitude d.toDouble := by
  by_cases hz : d.digits = 0
  · refine ⟨0, ?_, by rw [toDouble, if_pos hz, Double.zero]⟩
    rw [magnitude, hz, Nat.cast_zero, zero_mul, ← Double.weight_zero]
    exact Double.isNearest_weight (Nat.zero_le _)
  obtain ⟨low, high⟩ := magnitude_bounds hz
  have ten : (1 : ℚ) ≤ 10 := by norm_num
  by_cases huge : 310 < (digitCount d.digits : ℤ) + d.exponent
  · refine ⟨Double.top, Double.isNearest_top ?_, ?_⟩
    · calc
        Double.weight Double.top ≤ (10 : ℚ) ^ (310 : ℤ) := weight_top_le
        _ ≤ (10 : ℚ) ^ ((digitCount d.digits : ℤ) + d.exponent - 1) :=
          zpow_le_zpow_right₀ ten (by omega)
        _ ≤ d.magnitude := low
    · rw [toDouble, if_neg hz, if_pos huge, Double.infinity]
  by_cases tiny : (digitCount d.digits : ℤ) + d.exponent < -330
  · refine ⟨0, Double.isNearest_zero ?_, ?_⟩
    · calc
        2 * d.magnitude ≤ 2 * (10 : ℚ) ^ ((digitCount d.digits : ℤ) + d.exponent) := by linarith
        _ ≤ 2 * (10 : ℚ) ^ (-331 : ℤ) := by
          have places : (digitCount d.digits : ℤ) + d.exponent ≤ -331 := by omega
          have less := zpow_le_zpow_right₀ ten places
          linarith
        _ < Double.weight 1 := lt_weight_one
    · rw [toDouble, if_neg hz, if_neg huge, if_pos tiny, Double.zero]
  · rw [toDouble_of_places hz (by omega) (by omega), ← num_div_den]
    exact Double.rounds_nearest d.negative d.num (den_pos d)

end Decimal

end Formulae
