import Formulae.Decimal
import Formulae.Proofs.DecimalRounding
/-!
Digits as characters. A number is the value of its digits, zeros in front of a word do not change
its value and each zero behind it multiplies by ten; an unsigned literal is read as its digits
around a point, moved by its exponent.
-/
namespace Formulae.Decimal

def Digits (cs : List Char) : Prop := ∀ c ∈ cs, c.isDigit = true

theorem Digits.append {ds es : List Char} (hd : Digits ds) (he : Digits es) : Digits (ds ++ es) :=
  fun c hc => (List.mem_append.mp hc).elim (hd c) (he c)

theorem digits_zeros (z : Nat) : Digits (List.replicate z '0') := by
  intro c hc
  rw [List.eq_of_mem_replicate hc]
  rfl

theorem digits_toDigits (n : Nat) : Digits (Nat.toDigits 10 n) :=
  fun _ hc => Nat.isDigit_of_mem_toDigits (by decide) (by decide) hc

theorem digits_all {ds : List Char} (hd : Digits ds) : ds.all Char.isDigit = true :=
  List.all_eq_true.mpr hd

theorem value_append (ds es : List Char) :
    value (ds ++ es) = value ds * tenTo es.length + value es := by
  rw [value, List.foldl_append]
  exact Nat.ofDigitChars_eq_ofDigitChars_zero.trans (congrArg (· + _) (Nat.mul_comm _ _))

theorem value_zeros (z : Nat) : value (List.replicate z '0') = 0 :=
  Nat.ofDigitChars_replicate_zero.trans (Nat.mul_zero _)

theorem value_zeros_append (z : Nat) (ds : List Char) :
    value (List.replicate z '0' ++ ds) = value ds := by
  rw [value_append, value_zeros, Nat.zero_mul, Nat.zero_add]

theorem value_append_zeros (ds : List Char) (z : Nat) :
    value (ds ++ List.replicate z '0') = value ds * tenTo z := by
  rw [value_append, value_zeros, List.length_replicate, Nat.add_zero]

theorem value_toDigits (n : Nat) : value (Nat.toDigits 10 n) = n := Nat.ofDigitChars_ten_toDigits

theorem readTail?_head {tail : List Char} {e : Int} (h : readTail? tail = some e) :
    tail = [] ∨ ∃ c cs, tail = c :: cs ∧ c.isDigit = false ∧ c ≠ '.' := by
  cases tail with
  | nil => exact Or.inl rfl
  | cons c cs =>
    refine Or.inr ⟨c, cs, rfl, ?_⟩
    rw [readTail?] at h
    split at h
    · rename_i mark
      simp only [Bool.or_eq_true, decide_eq_true_eq] at mark
      rcases mark with rfl | rfl <;> decide
    · exact nomatch h

theorem takeWhile_tail {tail : List Char} {e : Int} (h : readTail? tail = some e) :
    tail.takeWhile Char.isDigit = [] := by
  rcases readTail?_head h with rfl | ⟨c, cs, rfl, hc, -⟩
  · rfl
  · simp [hc]

theorem dropWhile_tail {tail : List Char} {e : Int} (h : readTail? tail = some e) :
    tail.dropWhile Char.isDigit = tail := by
  rcases readTail?_head h with rfl | ⟨c, cs, rfl, hc, -⟩
  · rfl
  · simp [hc]

theorem splitDigits_point {whole fraction tail : List Char} (hw : Digits whole)
    (hf : Digits fraction) {e : Int} (ht : readTail? tail = some e) :
    splitDigits (whole ++ '.' :: (fraction ++ tail)) = (whole, fraction, tail) := by
  have stop : ('.' : Char).isDigit = false := by decide
  simp only [splitDigits, List.takeWhile_append_of_pos hw, List.dropWhile_append_of_pos hw,
    List.takeWhile_cons, List.dropWhile_cons, stop, Bool.false_eq_true, if_false,
    List.takeWhile_append_of_pos hf, List.dropWhile_append_of_pos hf, takeWhile_tail ht,
    dropWhile_tail ht, List.append_nil]

theorem splitDigits_plain {whole tail : List Char} (hw : Digits whole) {e : Int}
    (ht : readTail? tail = some e) : splitDigits (whole ++ tail) = (whole, [], tail) := by
  simp only [splitDigits, List.takeWhile_append_of_pos hw, List.dropWhile_append_of_pos hw,
    takeWhile_tail ht, dropWhile_tail ht, List.append_nil]
  rcases readTail?_head ht with rfl | ⟨c, cs, rfl, -, point⟩
  · rfl
  · split
    · rename_i same
      exact absurd (List.cons.inj same).1 point
    · rfl

theorem readUnsigned?_point {negative : Bool} {whole fraction tail : List Char}
    (hw : Digits whole) (nonempty : whole ≠ []) (hf : Digits fraction) {e : Int}
    (ht : readTail? tail = some e) :
    readUnsigned? negative (whole ++ '.' :: (fraction ++ tail))
      = some ⟨negative, value (whole ++ fraction), e - fraction.length⟩ := by
  have some_ : whole.isEmpty = false := List.isEmpty_eq_false_iff.mpr nonempty
  simp only [readUnsigned?, splitDigits_point hw hf ht, some_, Bool.false_and, Bool.false_eq_true,
    if_false, ht, Option.map_some]

theorem readUnsigned?_plain (negative : Bool) {whole tail : List Char} (hw : Digits whole)
    (nonempty : whole ≠ []) {e : Int} (ht : readTail? tail = some e) :
    readUnsigned? negative (whole ++ tail) = some ⟨negative, value whole, e⟩ := by
  have some_ : whole.isEmpty = false := List.isEmpty_eq_false_iff.mpr nonempty
  simp only [readUnsigned?, splitDigits_plain hw ht, some_, Bool.false_and, Bool.false_eq_true,
    if_false, ht, Option.map_some, List.append_nil, List.length_nil, Int.natCast_zero,
    Int.sub_zero]

theorem readTail?_exponent (width : Nat) (e : Int) :
    readTail? ('e' :: Layout.exponent width e) = some e := by
  have digits : Digits (Layout.padLeft width (Nat.toDigits 10 e.natAbs)) :=
    (digits_zeros _).append (digits_toDigits _)
  have some_ : (Layout.padLeft width (Nat.toDigits 10 e.natAbs)).isEmpty = false := by
    rw [List.isEmpty_eq_false_iff, Layout.padLeft]
    exact List.append_ne_nil_of_right_ne_nil _ Nat.toDigits_ne_nil
  have shown : value (Layout.padLeft width (Nat.toDigits 10 e.natAbs)) = e.natAbs := by
    rw [Layout.padLeft, value_zeros_append, value_toDigits]
  by_cases sign : e < 0
  · have size : -(e.natAbs : Int) = e := by omega
    simp only [readTail?, Layout.exponent, if_pos sign, readExponent?, readSign, digits_all digits,
      some_, shown]
    exact congrArg some size
  · have size : (e.natAbs : Int) = e := by omega
    simp only [readTail?, Layout.exponent, if_neg sign, readExponent?, readSign, digits_all digits,
      some_, shown]
    exact congrArg some size

end Formulae.Decimal
