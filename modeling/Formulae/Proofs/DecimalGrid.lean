import Formulae.Proofs.NearestDouble
import Mathlib.Data.Nat.Cast.Order.Field
import Mathlib.Tactic.Ring
/-!
Decimal grids around a number. The grid of a digit count consists of the decimals that end at the
place where the number has its digit of that count, and its points just below and just above the
number are the only ones that have to be looked at: if any decimal of so many digits reads back as
the number, one of the two does, and the nearer one that does is as good as any other. On the grid
of seventeen digits the nearer point always reads back.
-/
namespace Formulae.Decimal

/-! ## The place of the first digit -/

theorem first_place_of_le {num den : Nat} (hd : 0 < den) (large : den ≤ num) :
    (10 : ℚ) ^ ((digitCount (num / den) : ℤ) - 1) ≤ num / den
      ∧ (num / den : ℚ) < (10 : ℚ) ^ (digitCount (num / den) : ℤ) := by
  have den_pos : (0 : ℚ) < den := Nat.cast_pos.mpr hd
  have whole : num / den ≠ 0 := (Nat.div_pos large hd).ne'
  constructor
  · exact (pow_digitCount_le whole).trans Nat.cast_div_le
  · have above := (digitCount_le_iff (digitCount_pos (num / den))).mp (Nat.le_refl _)
    rw [Nat.div_lt_iff_lt_mul hd] at above
    rw [← cast_tenTo, div_lt_iff₀ den_pos]
    exact_mod_cast above

theorem first_place_of_lt {num den : Nat} (hn : 0 < num) (small : num < den) :
    (10 : ℚ) ^ (-(digitCount ((den - 1) / num) : ℤ)) ≤ num / den
      ∧ (num / den : ℚ) < (10 : ℚ) ^ (-((digitCount ((den - 1) / num) : ℤ) - 1)) := by
  have den_pos : (0 : ℚ) < den := Nat.cast_pos.mpr (Nat.zero_lt_of_lt small)
  have num_pos : (0 : ℚ) < num := Nat.cast_pos.mpr hn
  have part : (den - 1) / num ≠ 0 := (Nat.div_pos (Nat.le_sub_one_of_lt small) hn).ne'
  constructor
  · have above := (digitCount_le_iff (digitCount_pos ((den - 1) / num))).mp (Nat.le_refl _)
    rw [Nat.div_lt_iff_lt_mul hn] at above
    have pos : (0 : ℚ) < tenTo (digitCount ((den - 1) / num)) := Nat.cast_pos.mpr (tenTo_pos _)
    have le : den ≤ num * tenTo (digitCount ((den - 1) / num)) := by rw [Nat.mul_comm]; omega
    rw [zpow_neg, ← cast_tenTo, inv_eq_one_div, div_le_div_iff₀ pos den_pos, one_mul]
    exact_mod_cast le
  · have below := pow_digitCount_le part
    have le : ((den - 1) / num : Nat) * (num : ℚ) ≤ (den - 1 : Nat) := by
      exact_mod_cast Nat.div_mul_le_self (den - 1) num
    have less : ((den - 1 : Nat) : ℚ) < den := Nat.cast_lt.mpr (by omega)
    rw [zpow_neg, inv_eq_one_div, div_lt_div_iff₀ den_pos (ten_zpow_pos _), one_mul]
    calc
      (num : ℚ) * (10 : ℚ) ^ ((digitCount ((den - 1) / num) : ℤ) - 1)
          ≤ num * ((den - 1) / num : Nat) := mul_le_mul_of_nonneg_left below num_pos.le
      _ ≤ (den - 1 : Nat) := by rwa [mul_comm]
      _ < den := less

/-- The leading exponent is the place of the first digit. -/
theorem leadingExponent_spec {num den : Nat} (hn : 0 < num) (hd : 0 < den) :
    (10 : ℚ) ^ leadingExponent num den ≤ num / den
      ∧ (num / den : ℚ) < (10 : ℚ) ^ (leadingExponent num den + 1) := by
  unfold leadingExponent
  split
  · rename_i large
    rw [sub_add_cancel]
    exact first_place_of_le hd large
  · rename_i small
    rw [neg_add_eq_sub, ← neg_sub]
    exact first_place_of_lt hn (Nat.lt_of_not_le small)

/-! ## The grid of a digit count -/

def gridExponent (num den count : Nat) : Int := leadingExponent num den - count + 1

def gridNum (num den count : Nat) : Nat := num * tenTo (-gridExponent num den count).toNat

def gridDen (num den count : Nat) : Nat := den * tenTo (gridExponent num den count).toNat

/-- The point of the grid just below a quotient, in units of the grid. -/
def gridLow (num den count : Nat) : Nat := gridNum num den count / gridDen num den count

variable {num den count : Nat}

theorem gridDen_pos (num count : Nat) (hd : 0 < den) : 0 < gridDen num den count :=
  Nat.mul_pos hd (tenTo_pos _)

theorem grid_eq (num den count : Nat) :
    (gridNum num den count / gridDen num den count : ℚ) * (10 : ℚ) ^ gridExponent num den count
      = num / den := by
  have exponent : ((-gridExponent num den count).toNat : ℤ) - (gridExponent num den count).toNat
      + gridExponent num den count = 0 := by omega
  rw [gridNum, gridDen, Nat.cast_mul, Nat.cast_mul, cast_tenTo, cast_tenTo, mul_div_mul_comm,
    mul_assoc, ← zpow_sub₀ ten_ne_zero, ← zpow_add₀ ten_ne_zero, exponent, zpow_zero, mul_one]

theorem point_le_iff (hd : 0 < den) (k m : Nat) :
    k * (10 : ℚ) ^ gridExponent num den count ≤ m * (num / den)
      ↔ k * gridDen num den count ≤ m * gridNum num den count := by
  have unit := ten_zpow_pos (gridExponent num den count)
  have pos : (0 : ℚ) < gridDen num den count := Nat.cast_pos.mpr (gridDen_pos num count hd)
  rw [← grid_eq num den count, ← mul_assoc, mul_le_mul_iff_left₀ unit, ← mul_div_assoc,
    le_div_iff₀ pos]
  exact_mod_cast Iff.rfl

theorem le_point_iff (hd : 0 < den) (k m : Nat) :
    m * (num / den) ≤ k * (10 : ℚ) ^ gridExponent num den count
      ↔ m * gridNum num den count ≤ k * gridDen num den count := by
  have unit := ten_zpow_pos (gridExponent num den count)
  have pos : (0 : ℚ) < gridDen num den count := Nat.cast_pos.mpr (gridDen_pos num count hd)
  rw [← grid_eq num den count, ← mul_assoc, mul_le_mul_iff_left₀ unit, ← mul_div_assoc,
    div_le_iff₀ pos]
  exact_mod_cast Iff.rfl

theorem gridLow_spec (num count : Nat) (hd : 0 < den) :
    gridLow num den count * (10 : ℚ) ^ gridExponent num den count ≤ num / den
      ∧ (num / den : ℚ)
        < (gridLow num den count + 1 : Nat) * (10 : ℚ) ^ gridExponent num den count := by
  have pos := gridDen_pos num count hd
  have low : gridLow num den count * gridDen num den count ≤ 1 * gridNum num den count := by
    rw [Nat.one_mul]
    exact Nat.div_mul_le_self _ _
  have high :
      ¬ (gridLow num den count + 1) * gridDen num den count ≤ 1 * gridNum num den count := by
    rw [Nat.one_mul, Nat.not_le, ← Nat.div_lt_iff_lt_mul pos]
    exact Nat.lt_succ_self _
  rw [← point_le_iff hd, Nat.cast_one, one_mul] at low high
  exact ⟨low, not_le.mp high⟩

theorem pow_leadingExponent (num den : Nat) (hc : 0 < count) :
    (10 : ℚ) ^ leadingExponent num den
      = tenTo (count - 1) * (10 : ℚ) ^ gridExponent num den count := by
  have exponent : leadingExponent num den = (count - 1 : Nat) + gridExponent num den count := by
    rw [gridExponent]
    omega
  rw [cast_tenTo, ← zpow_add₀ ten_ne_zero, ← exponent]

theorem le_gridLow (hn : 0 < num) (hd : 0 < den) (hc : 0 < count) :
    tenTo (count - 1) ≤ gridLow num den count := by
  obtain ⟨-, high⟩ := gridLow_spec num count hd
  have unit := ten_zpow_pos (gridExponent num den count)
  have less := (leadingExponent_spec hn hd).1.trans_lt high
  rw [pow_leadingExponent num den hc, mul_lt_mul_iff_left₀ unit, Nat.cast_lt] at less
  exact Nat.le_of_lt_succ less

theorem gridLow_lt (count : Nat) (hn : 0 < num) (hd : 0 < den) :
    gridLow num den count < tenTo count := by
  obtain ⟨low, -⟩ := gridLow_spec num count hd
  have unit := ten_zpow_pos (gridExponent num den count)
  have exponent : leadingExponent num den + 1 = count + gridExponent num den count := by
    rw [gridExponent]
    omega
  have less := low.trans_lt (leadingExponent_spec hn hd).2
  rwa [exponent, zpow_add₀ ten_ne_zero, ← cast_tenTo, mul_lt_mul_iff_left₀ unit, Nat.cast_lt] at less

theorem exists_multiple {d : Decimal} {e : Int} (coarse : e ≤ d.exponent) :
    ∃ n : Nat, d.magnitude = n * (10 : ℚ) ^ e := by
  obtain ⟨z, exponent⟩ : ∃ z : Nat, d.exponent = z + e := ⟨(d.exponent - e).toNat, by omega⟩
  refine ⟨d.digits * tenTo z, ?_⟩
  rw [magnitude, exponent, zpow_add₀ ten_ne_zero, ← cast_tenTo, Nat.cast_mul, mul_assoc]

/-- Decimals of at most so many digits do not lie between the two points around a number. -/
theorem separate (hn : 0 < num) (hd : 0 < den) (hc : 0 < count) {d : Decimal}
    (few : d.digits < tenTo count) :
    d.magnitude ≤ gridLow num den count * (10 : ℚ) ^ gridExponent num den count
      ∨ (gridLow num den count + 1 : Nat) * (10 : ℚ) ^ gridExponent num den count
        ≤ d.magnitude := by
  have unit := ten_zpow_pos (gridExponent num den count)
  by_cases coarse : gridExponent num den count ≤ d.exponent
  · obtain ⟨n, whole⟩ := exists_multiple coarse
    rw [whole, mul_le_mul_iff_left₀ unit, mul_le_mul_iff_left₀ unit, Nat.cast_le, Nat.cast_le]
    omega
  · -- digits beyond the last place of the grid leave too few for the first place of the number
    left
    calc
      d.magnitude ≤ tenTo count * (10 : ℚ) ^ d.exponent :=
        mul_le_mul_of_nonneg_right (Nat.cast_le.mpr few.le) (ten_zpow_pos _).le
      _ = (10 : ℚ) ^ (count + d.exponent) := by rw [cast_tenTo, ← zpow_add₀ ten_ne_zero]
      _ ≤ (10 : ℚ) ^ leadingExponent num den := by
        refine zpow_le_zpow_right₀ (by norm_num) ?_
        rw [gridExponent] at coarse
        omega
      _ = tenTo (count - 1) * (10 : ℚ) ^ gridExponent num den count :=
        pow_leadingExponent num den hc
      _ ≤ gridLow num den count * (10 : ℚ) ^ gridExponent num den count :=
        mul_le_mul_of_nonneg_right (Nat.cast_le.mpr (le_gridLow hn hd hc)) unit.le

/-! ## The nearer of two neighbours -/

theorem best_of_low {a b m q : ℚ} (low : a ≤ q) (high : q < b) (side : m ≤ a ∨ b ≤ m)
    (nearer : b ≤ m → 2 * q ≤ a + b) :
    |a - q| ≤ |m - q| ∧ (m ≠ a → |a - q| = |m - q| → b ≤ m ∧ a + b = 2 * q) := by
  rw [abs_of_nonpos (by linarith)]
  rcases side with under | past
  · rw [abs_of_nonpos (by linarith)]
    exact ⟨by linarith, fun ne same => absurd (by linarith) ne⟩
  · have near := nearer past
    rw [abs_of_nonneg (by linarith)]
    exact ⟨by linarith, fun _ same => ⟨past, by linarith⟩⟩

theorem best_of_high {a b m q : ℚ} (high : q < b) (side : m ≤ a ∨ b ≤ m)
    (nearer : m ≤ a → a + b ≤ 2 * q) :
    |b - q| ≤ |m - q| ∧ (m ≠ b → |b - q| = |m - q| → m ≤ a ∧ a + b = 2 * q) := by
  rw [abs_of_nonneg (by linarith)]
  rcases side with under | past
  · have near := nearer under
    rw [abs_of_nonpos (by linarith)]
    exact ⟨by linarith, fun _ same => ⟨under, by linarith⟩⟩
  · rw [abs_of_nonneg (by linarith)]
    exact ⟨by linarith, fun ne same => absurd (by linarith) ne⟩

theorem middle_iff (num count : Nat) (hd : 0 < den) :
    let under := gridNum num den count - gridLow num den count * gridDen num den count
    let middle := (gridLow num den count * (10 : ℚ) ^ gridExponent num den count)
      + (gridLow num den count + 1 : Nat) * (10 : ℚ) ^ gridExponent num den count
    (gridDen num den count < 2 * under ↔ middle < 2 * (num / den))
      ∧ (gridDen num den count = 2 * under ↔ middle = 2 * (num / den)) := by
  intro under middle
  have sum : middle = (2 * gridLow num den count + 1 : Nat)
      * (10 : ℚ) ^ gridExponent num den count := by
    simp only [middle]
    push_cast
    ring
  have le : gridLow num den count * gridDen num den count ≤ gridNum num den count :=
    Nat.div_mul_le_self _ _
  have two : (2 : ℚ) = (2 : Nat) := rfl
  rw [sum, two, ← not_le, ← not_le, le_point_iff hd, @le_antisymm_iff ℚ, point_le_iff hd,
    le_point_iff hd, Nat.add_mul, Nat.one_mul, Nat.mul_assoc]
  simp only [under]
  omega

/-! ## One digit count -/

open Double (IsNearest weight unitsPerOne unit_pos)

theorem toDouble_eq_iff {d : Decimal} {negative : Bool} {rank : Fin (Double.top + 1)} :
    d.toDouble = .signed negative rank
      ↔ d.negative = negative ∧ IsNearest d.magnitude rank.val := by
  obtain ⟨r, near, same⟩ := rounds_toDouble d
  have kept : min r Double.top = r := Nat.min_eq_left near.le_top
  rw [same, Double.ofRank, Double.signed.injEq, Fin.ext_iff]
  simp only [kept]
  refine and_congr_right fun _ => ⟨fun e => e ▸ near, fun other => near.unique other⟩

def gridBelow (negative : Bool) (num den count : Nat) : Decimal :=
  ⟨negative, gridLow num den count, gridExponent num den count⟩

def gridAbove (negative : Bool) (num den count : Nat) : Decimal :=
  ⟨negative, gridLow num den count + 1, gridExponent num den count⟩

theorem withDigits?_eq (v : Double) (num den count : Nat) :
    withDigits? v num den count =
      let low := gridLow num den count
      let under := gridNum num den count - low * gridDen num den count
      let below := gridBelow v.isNegative num den count
      let above := gridAbove v.isNegative num den count
      if below.toDouble = v then
        if above.toDouble = v ∧ (gridDen num den count < 2 * under
          ∨ (gridDen num den count = 2 * under ∧ low % 2 = 1)) then some above else some below
      else if above.toDouble = v then some above
      else none := rfl

/-- What a grid offers is the nearer of the two points around the number, or the even one, unless
the other does not read back. -/
theorem withDigits?_cases {v : Double} {d : Decimal} (hd : 0 < den)
    (h : withDigits? v num den count = some d) :
    let below := gridBelow v.isNegative num den count
    let above := gridAbove v.isNegative num den count
    (d = below ∧ (above.toDouble = v → 2 * (num / den) ≤ below.magnitude + above.magnitude
        ∧ (below.magnitude + above.magnitude = 2 * (num / den) → below.digits % 2 = 0)))
      ∨ (d = above ∧ (below.toDouble = v → below.magnitude + above.magnitude ≤ 2 * (num / den)
        ∧ (below.magnitude + above.magnitude = 2 * (num / den) → above.digits % 2 = 0))) := by
  intro below above
  obtain ⟨less_iff, eq_iff⟩ : _ ∧ (_ ↔ below.magnitude + above.magnitude = 2 * (num / den)) :=
    middle_iff num count hd
  have next : above.digits = below.digits + 1 := rfl
  rw [withDigits?_eq] at h
  dsimp only at h
  split at h
  -- The point below reads back: the one above is taken if it does too and is nearer, or even.
  · split at h
    · rename_i upper
      refine .inr ⟨(Option.some.inj h).symm, fun _ => ⟨?_, fun middle => ?_⟩⟩
      · exact upper.2.elim (fun less => (less_iff.mp less).le) fun tie => (eq_iff.mp tie.1).le
      · have tie := upper.2.resolve_left fun less => (less_iff.mp less).ne middle
        have odd : below.digits % 2 = 1 := tie.2
        omega
    · rename_i lower
      refine .inl ⟨(Option.some.inj h).symm, fun read => ⟨?_, fun middle => ?_⟩⟩
      · exact le_of_not_gt fun less => lower ⟨read, .inl (less_iff.mpr less)⟩
      · have even : ¬ below.digits % 2 = 1 := fun odd =>
          lower ⟨read, .inr ⟨eq_iff.mpr middle, odd⟩⟩
        omega
  · rename_i no_lower
    split at h
    · exact .inr ⟨(Option.some.inj h).symm, fun read => absurd read no_lower⟩
    · cases h

theorem exists_withDigits? {v : Double}
    (h : (gridBelow v.isNegative num den count).toDouble = v
      ∨ (gridAbove v.isNegative num den count).toDouble = v) :
    ∃ d, withDigits? v num den count = some d := by
  rw [withDigits?_eq]
  dsimp only
  split
  · split
    · exact ⟨_, rfl⟩
    · exact ⟨_, rfl⟩
  · rename_i no_lower
    exact ⟨_, if_pos (h.resolve_left no_lower)⟩

/-! ## Decimals that read back -/

variable {negative : Bool} {rank : Fin (Double.top + 1)} {d d' : Decimal}

theorem isNearest_self (rank : Fin (Double.top + 1)) : IsNearest (weight rank.val) rank.val :=
  Double.isNearest_weight (Nat.le_of_lt_succ rank.isLt)

theorem gridBelow_reads (h : d.toDouble = .signed negative rank)
    (le : d.magnitude
      ≤ (gridBelow negative (Double.units rank.val) unitsPerOne count).magnitude) :
    (gridBelow negative (Double.units rank.val) unitsPerOne count).toDouble
      = .signed negative rank := by
  have low := (gridLow_spec (Double.units rank.val) count unit_pos).1
  exact toDouble_eq_iff.mpr ⟨rfl, (toDouble_eq_iff.mp h).2.of_between (isNearest_self rank) le low⟩

theorem gridAbove_reads (h : d.toDouble = .signed negative rank)
    (le : (gridAbove negative (Double.units rank.val) unitsPerOne count).magnitude
      ≤ d.magnitude) :
    (gridAbove negative (Double.units rank.val) unitsPerOne count).toDouble
      = .signed negative rank := by
  have high := (gridLow_spec (Double.units rank.val) count unit_pos).2.le
  exact toDouble_eq_iff.mpr ⟨rfl, (isNearest_self rank).of_between (toDouble_eq_iff.mp h).2 high le⟩

/-- A decimal of a double that is as good as another one: no farther from it, and even where the
other one is as near. -/
def AsGood (rank : Fin (Double.top + 1)) (d d' : Decimal) : Prop :=
  |d.magnitude - weight rank.val| ≤ |d'.magnitude - weight rank.val|
    ∧ (d'.magnitude ≠ d.magnitude →
      |d.magnitude - weight rank.val| = |d'.magnitude - weight rank.val| → d.digits % 2 = 0)

/-- What a grid offers is as good as any decimal of its digit count. -/
theorem asGood_of_withDigits? (pos : 0 < Double.units rank.val) (hc : 0 < count)
    (h : withDigits? (.signed negative rank) (Double.units rank.val) unitsPerOne count = some d)
    (few : d'.digits < tenTo count) (reads : d'.toDouble = .signed negative rank) :
    AsGood rank d d' := by
  obtain ⟨low, high⟩ := gridLow_spec (Double.units rank.val) count unit_pos
  have side := separate pos unit_pos hc few
  obtain ⟨rfl, nearer⟩ | ⟨rfl, nearer⟩ := withDigits?_cases unit_pos h
  · have near := fun past => nearer (gridAbove_reads reads past)
    obtain ⟨best, tie⟩ := best_of_low low high side fun past => (near past).1
    refine ⟨best, fun ne same => ?_⟩
    obtain ⟨past, middle⟩ := tie ne same
    exact (near past).2 middle
  · have near := fun under => nearer (gridBelow_reads reads under)
    obtain ⟨best, tie⟩ := best_of_high high side fun under => (near under).1
    refine ⟨best, fun ne same => ?_⟩
    obtain ⟨under, middle⟩ := tie ne same
    exact (near under).2 middle

theorem exists_withDigits?_of_reads (pos : 0 < Double.units rank.val) (hc : 0 < count)
    (few : d.digits < tenTo count) (reads : d.toDouble = .signed negative rank) :
    ∃ d', withDigits? (.signed negative rank) (Double.units rank.val) unitsPerOne count
      = some d' :=
  exists_withDigits? ((separate pos unit_pos hc few).imp (gridBelow_reads reads)
    (gridAbove_reads reads))

theorem digits_le_of_withDigits? (pos : 0 < Double.units rank.val)
    (h : withDigits? (.signed negative rank) (Double.units rank.val) unitsPerOne count = some d) :
    d.digits ≤ tenTo count := by
  have less := gridLow_lt count pos unit_pos
  obtain ⟨rfl, -⟩ | ⟨rfl, -⟩ := withDigits?_cases unit_pos h
  · exact less.le
  · exact less

/-! ## Seventeen digits -/

theorem weight_succ_lt (r : Nat) :
    weight (r + 1) < tenTo 16 * (weight (r + 1) - weight r) := by
  obtain ⟨gap, pos, next, large⟩ := Double.exists_gap r
  have less : Double.units (r + 1) < tenTo 16 * gap :=
    large.trans_lt (Nat.mul_lt_mul_of_pos_right (by decide) pos)
  have difference : weight (r + 1) - weight r = gap / unitsPerOne := by
    rw [weight, weight, next, ← sub_div, Nat.cast_add, add_sub_cancel_left]
  rw [difference, ← mul_div_assoc, weight, div_lt_div_iff_of_pos_right Double.unitsPerOne_pos]
  exact_mod_cast less

theorem isNearest_of_close {g : ℚ} {r : Nat} (fin : r < Double.top)
    (close : tenTo 16 * (2 * |g - weight r|) ≤ weight r) : IsNearest g r := by
  have scale : (0 : ℚ) < tenTo 16 := Nat.cast_pos.mpr (tenTo_pos 16)
  have low := neg_abs_le (g - weight r)
  have high := le_abs_self (g - weight r)
  refine Double.isNearest_iff.mpr ⟨fin.le, .of_lt_middle ?_, .of_lt_middle fun _ => ?_⟩
  · rintro p rfl
    have gap := lt_of_mul_lt_mul_left (close.trans_lt (weight_succ_lt p)) scale.le
    linarith
  · have less := (Double.weight_strictMono r.lt_succ_self).trans (weight_succ_lt r)
    have gap := lt_of_mul_lt_mul_left (close.trans_lt less) scale.le
    linarith

/-- The nearer point on the grid of seventeen digits reads back. -/
theorem exists_withDigits?_seventeen (negative : Bool) (pos : 0 < Double.units rank.val)
    (fin : rank.val < Double.top) :
    ∃ d, withDigits? (.signed negative rank) (Double.units rank.val) unitsPerOne 17 = some d := by
  let e := gridExponent (Double.units rank.val) unitsPerOne 17
  let below := gridBelow negative (Double.units rank.val) unitsPerOne 17
  let above := gridAbove negative (Double.units rank.val) unitsPerOne 17
  have scale : (0 : ℚ) ≤ tenTo 16 := Nat.cast_nonneg _
  obtain ⟨low, high⟩ : below.magnitude ≤ weight rank.val ∧ weight rank.val < above.magnitude :=
    gridLow_spec (Double.units rank.val) 17 unit_pos
  have next : above.magnitude = below.magnitude + (10 : ℚ) ^ e := by
    simp only [above, below, magnitude, gridAbove, gridBelow, e]
    push_cast
    ring
  have first : tenTo 16 * (10 : ℚ) ^ e ≤ weight rank.val := by
    have place : (10 : ℚ) ^ leadingExponent (Double.units rank.val) unitsPerOne
        = tenTo 16 * (10 : ℚ) ^ e := pow_leadingExponent _ _ (Nat.succ_pos 16)
    exact place ▸ (leadingExponent_spec pos unit_pos).1
  -- One of the points is at most half a step away, which on this grid is less than half the gap
  -- between two doubles.
  apply exists_withDigits?
  by_cases nearer : 2 * (weight rank.val - below.magnitude) ≤ (10 : ℚ) ^ e
  · refine .inl (toDouble_eq_iff.mpr ⟨rfl, isNearest_of_close fin ?_⟩)
    have close : 2 * |below.magnitude - weight rank.val| ≤ (10 : ℚ) ^ e := by
      rw [abs_of_nonpos (by linarith)]
      linarith
    exact (mul_le_mul_of_nonneg_left close scale).trans first
  · refine .inr (toDouble_eq_iff.mpr ⟨rfl, isNearest_of_close fin ?_⟩)
    have close : 2 * |above.magnitude - weight rank.val| ≤ (10 : ℚ) ^ e := by
      rw [abs_of_nonneg (by linarith)]
      linarith
    exact (mul_le_mul_of_nonneg_left close scale).trans first

end Formulae.Decimal
