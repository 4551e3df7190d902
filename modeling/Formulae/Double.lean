/-!
Double-precision numbers by exact integers. The magnitudes of the format are ranked in increasing
order, zero first and infinity last, so a number is a sign and a rank. There is one value for
everything that is not a number. A quotient is rounded to the nearest number, whose rank is found by
bisection; a tie goes to the even rank.
-/
namespace Formulae

-- powers under names that no simplifier computes

def twoTo (n : Nat) : Nat := Nat.pow 2 n

def tenTo (n : Nat) : Nat := Nat.pow 10 n

theorem twoTo_succ (n : Nat) : twoTo (n + 1) = twoTo n * 2 := rfl

theorem tenTo_succ (n : Nat) : tenTo (n + 1) = tenTo n * 10 := rfl

theorem tenTo_add (m n : Nat) : tenTo (m + n) = tenTo m * tenTo n := by
  induction n with
  | zero => simp [tenTo]
  | succ n ih => rw [← Nat.add_assoc, tenTo_succ, ih, tenTo_succ, Nat.mul_assoc]

theorem twoTo_pos (n : Nat) : 0 < twoTo n := by
  induction n with
  | zero => decide
  | succ n ih => rw [twoTo_succ]; omega

theorem tenTo_pos (n : Nat) : 0 < tenTo n := by
  induction n with
  | zero => decide
  | succ n ih => rw [tenTo_succ]; omega

/-! ## The format -/

namespace Double

/-- The rank of infinity. -/
def top : Nat := 2047 * twoTo 52

/-- The magnitude of a rank, counted in the smallest positive one, which is `2⁻¹⁰⁷⁴`. -/
def units (rank : Nat) : Nat :=
  if rank < twoTo 52 then rank
  else (twoTo 52 + rank % twoTo 52) * twoTo (rank / twoTo 52 - 1)

/-- How many of the smallest magnitude make one. -/
def unitsPerOne : Nat := twoTo 1074

end Double

inductive Double
  | nan
  | signed (negative : Bool) (rank : Fin (Double.top + 1))
deriving DecidableEq

namespace Double

def ofRank (negative : Bool) (rank : Nat) : Double :=
  signed negative ⟨min rank top, by omega⟩

def zero (negative : Bool) : Double := ofRank negative 0

def infinity (negative : Bool) : Double := ofRank negative top

def one : Double := ofRank false (1023 * twoTo 52)

def two : Double := ofRank false (1024 * twoTo 52)

def isFinite : Double → Bool
  | nan => false
  | signed _ rank => rank.val < top

def isNegative : Double → Bool
  | nan => false
  | signed negative _ => negative

def magnitude? : Double → Option Nat
  | nan => none
  | signed _ rank => if rank.val < top then some (units rank.val) else none

def toInt? (v : Double) : Option Int :=
  match v.magnitude? with
  | none => none
  | some u =>
    if u % unitsPerOne = 0 then
      some (if v.isNegative then -(u / unitsPerOne : Nat) else (u / unitsPerOne : Nat))
    else none

/-- The number with the given bits. Every pattern past infinity's is no number. -/
def ofBits (bits : Nat) : Double :=
  let rank := bits % twoTo 63
  if rank ≤ top then ofRank (twoTo 63 ≤ bits) rank else nan

def toBits : Double → Nat
  | nan => top + twoTo 51
  | signed negative rank => (if negative then twoTo 63 else 0) + rank.val

def ofFloat (f : Float) : Double := ofBits f.toBits.toNat

def toFloat (v : Double) : Float := Float.ofBits (UInt64.ofNat v.toBits)

end Double

end Formulae

/-! ## Rounding -/

namespace Formulae.Double

/-- The last number from `base` on, and below `base + twoTo bits`, up to which `p` holds. -/
def greatest (p : Nat → Bool) : Nat → Nat → Nat
  | 0, base => base
  | bits + 1, base =>
    if p (base + twoTo bits) then greatest p bits (base + twoTo bits) else greatest p bits base

def rankBelow (num den : Nat) : Nat :=
  greatest (fun rank => units rank * den ≤ num) 63 0

def nearestRank (num den : Nat) : Nat :=
  let low := rankBelow num den
  let below := num - units low * den
  let above := units (low + 1) * den - num
  if below < above ∨ (below = above ∧ low % 2 = 0) then low else low + 1

def nearest (negative : Bool) (num den : Nat) : Double :=
  ofRank negative (nearestRank (num * unitsPerOne) den)

def ofInt? (n : Int) : Option Double :=
  let v := nearest (n < 0) n.natAbs 1
  if v.isFinite then some v else none

end Formulae.Double
