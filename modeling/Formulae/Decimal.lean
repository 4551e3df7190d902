import Formulae.Double
import Formulae.Text
/-!
Decimal numbers, their written forms, and the doubles nearest to them. A literal is a sign, then
digits with a point and an exponent, or one of the words `inf`, `infinity` and `nan` in any case;
single underscores may stand between digits, digits of any script count as digits, and blanks may
surround the whole. A double is written with the shortest digits that read back as it, and as a
constant of an expression still shorter, as a plain integer where it is one below `10 ^ 16`.
-/
namespace Formulae

/-- The number `± digits · 10 ^ exponent`. -/
structure Decimal where
  negative : Bool
  digits : Nat
  exponent : Int
deriving DecidableEq

namespace Decimal

def digitCount (n : Nat) : Nat := (Nat.toDigits 10 n).length

def num (d : Decimal) : Nat := d.digits * tenTo d.exponent.toNat

def den (d : Decimal) : Nat := tenTo (-d.exponent).toNat

/-- The nearest double. Past 310 places every magnitude is infinite, and below 330 places it is
zero. -/
def toDouble (d : Decimal) : Double :=
  let places := digitCount d.digits + d.exponent
  if d.digits = 0 then .zero d.negative
  else if 310 < places then .infinity d.negative
  else if places < -330 then .zero d.negative
  else .nearest d.negative d.num d.den

/-! ## Literals -/

def value (digits : List Char) : Nat :=
  digits.foldl (fun n c => 10 * n + (c.toNat - '0'.toNat)) 0

def readSign : List Char → Bool × List Char
  | '-' :: cs => (true, cs)
  | '+' :: cs => (false, cs)
  | cs => (false, cs)

def readExponent? (cs : List Char) : Option Int :=
  let (negative, digits) := readSign cs
  if digits.isEmpty || !digits.all Char.isDigit then none
  else some (if negative then -(value digits : Int) else value digits)

def readTail? : List Char → Option Int
  | [] => some 0
  | c :: cs => if c = 'e' || c = 'E' then readExponent? cs else none

/-- The digits before the point, those after it, and the text that follows. -/
def splitDigits (cs : List Char) : List Char × List Char × List Char :=
  let whole := cs.takeWhile Char.isDigit
  match cs.dropWhile Char.isDigit with
  | '.' :: rest => (whole, rest.takeWhile Char.isDigit, rest.dropWhile Char.isDigit)
  | rest => (whole, [], rest)

def readUnsigned? (negative : Bool) (cs : List Char) : Option Decimal :=
  let (whole, fraction, tail) := splitDigits cs
  if whole.isEmpty && fraction.isEmpty then none
  else (readTail? tail).map fun e => ⟨negative, value (whole ++ fraction), e - fraction.length⟩

def lower (cs : List Char) : List Char := cs.map Char.toLower

def isInfinityWord (cs : List Char) : Bool :=
  lower cs = "inf".toList || lower cs = "infinity".toList

def isNanWord (cs : List Char) : Bool := lower cs = "nan".toList

def readPlain? (cs : List Char) : Option Double :=
  let (negative, body) := readSign cs
  if isInfinityWord body then some (.infinity negative)
  else if isNanWord body then some .nan
  else (readUnsigned? negative body).map toDouble

/-- The text less its underscores, each of which has a digit on both sides. -/
def joinDigits? (afterDigit : Bool) : List Char → Option (List Char)
  | [] => some []
  | '_' :: d :: cs =>
    if afterDigit && d.isDigit then (joinDigits? true cs).map (d :: ·) else none
  | c :: cs => if c = '_' then none else (joinDigits? c.isDigit cs).map (c :: ·)

/-- Digits of other scripts become ASCII digits and blanks become spaces; anything else is
refused. -/
def plainChar? (c : Char) : Option Char :=
  if c.toNat < 0x7F then some c
  else if Text.isBlank c then some ' '
  else (Text.digitValue? c).map fun d => Char.ofNat ('0'.toNat + d)

def read? (text : String) : Option Double := do
  let plain ← text.toList.mapM plainChar?
  let joined ← joinDigits? false (Text.trim Text.isMargin plain)
  readPlain? joined

/-! ## Shortest digits -/

/-- The exponent `e` with `10 ^ e ≤ num / den < 10 ^ (e + 1)`. -/
def leadingExponent (num den : Nat) : Int :=
  if den ≤ num then (digitCount (num / den) : Int) - 1
  else -(digitCount ((den - 1) / num) : Int)

/-- The decimal with the given count of digits that reads back as `v`, whose magnitude is `num /
den`. -/
def withDigits? (v : Double) (num den count : Nat) : Option Decimal :=
  let e := leadingExponent num den - count + 1
  let scaledNum := num * tenTo (-e).toNat
  let scaledDen := den * tenTo e.toNat
  let low := scaledNum / scaledDen
  let under := scaledNum - low * scaledDen
  let below : Decimal := ⟨v.isNegative, low, e⟩
  let above : Decimal := ⟨v.isNegative, low + 1, e⟩
  if below.toDouble = v then
    if above.toDouble = v ∧ (scaledDen < 2 * under ∨ (scaledDen = 2 * under ∧ low % 2 = 1)) then
      some above
    else some below
  else if above.toDouble = v then some above
  else none

/-- All digits of a number of `u` units, since `2⁻¹⁰⁷⁴ = 5¹⁰⁷⁴ · 10⁻¹⁰⁷⁴`. -/
def exact (negative : Bool) (u : Nat) : Decimal := ⟨negative, u * Nat.pow 5 1074, -1074⟩

def shortest (v : Double) (u : Nat) : Decimal :=
  ((List.range 17).findSome? fun i => withDigits? v u Double.unitsPerOne (i + 1)).getD
    (exact v.isNegative u)

end Decimal

/-! ## Layout -/

/-- Which exponents are written positionally, and the least width of a written exponent. -/
structure Layout where
  least : Int
  bound : Int
  width : Nat

namespace Layout

def scientific : Layout := ⟨-4, 16, 2⟩

def padLeft (width : Nat) (cs : List Char) : List Char :=
  List.replicate (width - cs.length) '0' ++ cs

def mantissa : List Char → List Char
  | [] => []
  | [d] => [d]
  | d :: ds => d :: '.' :: ds

def exponent (width : Nat) (e : Int) : List Char :=
  (if e < 0 then '-' else '+') :: padLeft width (Nat.toDigits 10 e.natAbs)

/-- Digits whose first has place `e`, around the point. -/
def positional (ds : List Char) (e : Int) : List Char :=
  if e < 0 then '0' :: '.' :: List.replicate (-e - 1).toNat '0' ++ ds
  else
    let whole := e.toNat + 1
    if ds.length ≤ whole then ds ++ List.replicate (whole - ds.length) '0' ++ ['.', '0']
    else ds.take whole ++ '.' :: ds.drop whole

def write (l : Layout) (d : Decimal) : List Char :=
  let all := Nat.toDigits 10 d.digits
  let ds := Text.trimRight (· = '0') all
  let e := d.exponent + all.length - 1
  let body :=
    if l.least ≤ e ∧ e < l.bound then positional ds e
    else mantissa ds ++ 'e' :: exponent l.width e
  if d.negative then '-' :: body else body

end Layout

namespace Double

def signChars (v : Double) : List Char := if v.isNegative then ['-'] else []

def decimalChars (v : Double) : List Char :=
  match v with
  | nan => "nan".toList
  | signed _ _ =>
    match v.magnitude? with
    | none => v.signChars ++ "inf".toList
    | some u => if u = 0 then v.signChars ++ "0.0".toList
      else Layout.scientific.write (Decimal.shortest v u)

def decimalText (v : Double) : String := String.ofList v.decimalChars

def integerBound : Nat := tenTo 16

def constantChars (v : Double) : List Char :=
  match v.toInt? with
  | some n =>
    if n.natAbs < integerBound then v.signChars ++ Nat.toDigits 10 n.natAbs else v.decimalChars
  | none => v.decimalChars

def constantText (v : Double) : String := String.ofList v.constantChars

end Double

end Formulae
