import Formulae.Double
import Mathlib.Order.Monotone.Basic
/-!
Rounding of a quotient that is itself a magnitude of the format. Magnitudes grow with the rank, so
the bisection ends at the rank of that magnitude. The rank found depends on the quotient alone and
not on how it is written.
-/
namespace Formulae.Double

/-! Each binade is taken with the magnitude that starts the next one, so that a rank and its
successor always lie in one binade. -/

theorem units_subnormal {rank : Nat} (h : rank ≤ twoTo 52) : units rank = rank := by
  by_cases edge : rank < twoTo 52
  · exact if_pos edge
  · have e : rank = twoTo 52 := by omega
    rw [units, if_neg edge, e, Nat.mod_self, Nat.div_self (twoTo_pos 52)]
    exact Nat.mul_one _

theorem units_binade {k m : Nat} (h : m ≤ twoTo 52) :
    units (twoTo 52 * (k + 1) + m) = (twoTo 52 + m) * twoTo k := by
  have pos := twoTo_pos 52
  have large : ∀ j i, ¬ twoTo 52 * (j + 1) + i < twoTo 52 := by
    intro j i
    rw [Nat.mul_succ]
    omega
  by_cases edge : m < twoTo 52
  · rw [units, if_neg (large k m), Nat.mul_add_mod, Nat.mod_eq_of_lt edge, Nat.mul_add_div pos,
      Nat.div_eq_of_lt edge]
    rfl
  · have e : m = twoTo 52 := by omega
    have next : twoTo 52 * (k + 1) + m = twoTo 52 * (k + 1 + 1) + 0 := by
      rw [e, Nat.mul_succ _ (k + 1)]
      rfl
    rw [next, units, if_neg (large (k + 1) 0), Nat.add_zero, Nat.mul_mod_right,
      Nat.mul_div_cancel_left _ pos, Nat.add_sub_cancel, twoTo_succ k, e, Nat.add_zero,
      ← Nat.two_mul, Nat.mul_comm (twoTo k), ← Nat.mul_assoc, Nat.mul_comm 2]

theorem exists_gap (rank : Nat) :
    ∃ gap, 0 < gap ∧ units (rank + 1) = units rank + gap ∧ units (rank + 1) ≤ twoTo 53 * gap := by
  by_cases small : rank < twoTo 52
  · refine ⟨1, Nat.one_pos, ?_, ?_⟩
    · rw [units_subnormal (Nat.le_of_lt small), units_subnormal small]
    · rw [units_subnormal small, Nat.mul_one, twoTo_succ 52]
      omega
  · have pos := twoTo_pos 52
    have below := Nat.mod_lt rank pos
    have quotient : 1 ≤ rank / twoTo 52 := (Nat.one_le_div_iff pos).mpr (Nat.not_lt.mp small)
    have e : rank = twoTo 52 * (rank / twoTo 52 - 1 + 1) + rank % twoTo 52 := by
      rw [Nat.sub_add_cancel quotient, Nat.div_add_mod]
    have same := units_binade (k := rank / twoTo 52 - 1) (Nat.le_of_lt below)
    have next := units_binade (k := rank / twoTo 52 - 1) below
    rw [← e] at same
    rw [Nat.succ_eq_add_one, ← Nat.add_assoc, ← e] at next
    refine ⟨twoTo (rank / twoTo 52 - 1), twoTo_pos _, ?_, ?_⟩
    · rw [next, same, ← Nat.succ_mul]
      rfl
    · rw [next, twoTo_succ 52]
      exact Nat.mul_le_mul_right _ (by omega)

theorem units_lt_succ (rank : Nat) : units rank < units (rank + 1) := by
  obtain ⟨gap, pos, next, -⟩ := exists_gap rank
  omega

theorem units_strictMono : StrictMono units := strictMono_nat_of_lt_succ units_lt_succ

theorem units_eq_zero {rank : Nat} (h : units rank = 0) : rank = 0 := by
  have zero : units 0 = 0 := units_subnormal (Nat.zero_le _)
  exact units_strictMono.injective (h.trans zero.symm)

theorem greatest_holds {p : Nat → Bool} {bits base : Nat} (h : p base = true) :
    p (greatest p bits base) = true := by
  induction bits generalizing base with
  | zero => exact h
  | succ bits ih =>
    rw [greatest]
    split
    · rename_i upper
      exact ih upper
    · exact ih h

/-- The bisection ends at the last number where the predicate holds, or at the end of its range. -/
theorem greatest_ends (p : Nat → Bool) (bits base : Nat) :
    p (greatest p bits base + 1) = false ∨ greatest p bits base + 1 = base + twoTo bits := by
  induction bits generalizing base with
  | zero => exact .inr rfl
  | succ bits ih =>
    rw [greatest]
    split
    · rw [twoTo_succ, Nat.mul_two, ← Nat.add_assoc]
      exact ih (base + twoTo bits)
    · rename_i upper
      refine .inl ((ih base).elim id fun ends => ?_)
      rw [ends]
      exact Bool.eq_false_iff.mpr upper

theorem rankBelow_units {rank den : Nat} (hd : 0 < den) (hr : rank < twoTo 63) :
    rankBelow (units rank * den) den = rank := by
  let p : Nat → Bool := fun r => units r * den ≤ units rank * den
  have holds_iff : ∀ r, p r = true ↔ r ≤ rank := by
    intro r
    simp only [p, decide_eq_true_eq]
    rw [Nat.mul_le_mul_right_iff hd, units_strictMono.le_iff_le]
  have found : p (greatest p 63 0) = true := greatest_holds ((holds_iff 0).mpr (Nat.zero_le _))
  have last : p (greatest p 63 0 + 1) = false := by
    refine (greatest_ends p 63 0).elim id fun ends => ?_
    rw [ends, Bool.eq_false_iff, Ne, holds_iff, Nat.zero_add]
    exact Nat.not_le.mpr hr
  rw [Bool.eq_false_iff, Ne, holds_iff] at last
  exact Nat.le_antisymm ((holds_iff _).mp found) (Nat.le_of_not_lt last)

theorem nearestRank_units {rank den : Nat} (hd : 0 < den) (hr : rank < twoTo 63) :
    nearestRank (units rank * den) den = rank := by
  have above : units rank * den < units (rank + 1) * den :=
    Nat.mul_lt_mul_of_pos_right (units_lt_succ rank) hd
  rw [nearestRank, rankBelow_units hd hr]
  exact if_pos (Or.inl (by omega))

theorem rankBelow_scale (num den : Nat) {k : Nat} (hk : 0 < k) :
    rankBelow (num * k) (den * k) = rankBelow num den := by
  have same : ∀ r, (units r * (den * k) ≤ num * k) = (units r * den ≤ num) := by
    intro r
    rw [← Nat.mul_assoc, Nat.mul_le_mul_right_iff hk]
  simp only [rankBelow, same]

theorem nearestRank_scale (num den : Nat) {k : Nat} (hk : 0 < k) :
    nearestRank (num * k) (den * k) = nearestRank num den := by
  have scale : ∀ a b, a * (b * k) = a * b * k := fun a b => (Nat.mul_assoc a b k).symm
  simp only [nearestRank, rankBelow_scale num den hk, scale, ← Nat.sub_mul,
    Nat.mul_lt_mul_right hk, Nat.mul_right_cancel_iff hk]

theorem nearestRank_congr {num den num' den' : Nat} (hd : 0 < den) (hd' : 0 < den')
    (h : num * den' = num' * den) : nearestRank num den = nearestRank num' den' :=
  calc
    nearestRank num den = nearestRank (num * den') (den * den') :=
      (nearestRank_scale num den hd').symm
    _ = nearestRank (num' * den) (den' * den) := by rw [h, Nat.mul_comm den den']
    _ = nearestRank num' den' := nearestRank_scale num' den' hd

/-- Rounding of a quotient that some double has gives that double. -/
theorem nearest_eq {negative : Bool} {num den : Nat} {rank : Fin (top + 1)} (hd : 0 < den)
    (h : num * unitsPerOne = units rank.val * den) :
    nearest negative num den = signed negative rank := by
  have hr : rank.val < twoTo 63 := Nat.lt_of_lt_of_le rank.isLt (by decide)
  have hm : min rank.val top = rank.val := Nat.min_eq_left (Nat.le_of_lt_succ rank.isLt)
  rw [nearest, h, nearestRank_units hd hr, ofRank]
  simp only [hm]

theorem nearest_congr (negative : Bool) {num den num' den' : Nat} (hd : 0 < den) (hd' : 0 < den')
    (h : num * den' = num' * den) : nearest negative num den = nearest negative num' den' := by
  have scaled : num * unitsPerOne * den' = num' * unitsPerOne * den := by
    rw [Nat.mul_right_comm, h, Nat.mul_right_comm]
  rw [nearest, nearest, nearestRank_congr hd hd' scaled]

end Formulae.Double
