import Formulae.Proofs.CallValue
import Formulae.Proofs.Completeness
import Formulae.Proofs.ShortestDecimal
/-!
The text of a constant stands for that constant in any formula. It is a token that is no name and no
symbol, and it is read back as the same double: an integer of at most sixteen digits is written as
that integer, any other number by the shortest digits that are read as it, and what is read is
rounded to nearest.
-/
namespace Formulae.Double

/-- What is to be relied on where a constant is written into a formula. -/
structure FaithfulText (v : Double) : Prop where
  nonempty : v.constantText ≠ ""
  uninterrupted : ∀ c ∈ v.constantText.toList, Text.isBlank c = false ∧ Token.isBracket c = false
  single : Token.tokenize v.constantText = [v.constantText]
  no_variable : ∀ w : Variable, v.constantText ≠ w.name
  no_operator : ∀ op : Op, v.constantText ≠ op.symbol
  read_back : Term.ofToken? v.constantText = some (.const v)
  integer : v.isFinite = true → ∀ n : ℤ, v.exact = n → n ≠ 0 → |n| < 10 ^ 16 →
    v.constantText = toString n
  shortest : v.isFinite = true → v.exact ≠ 0 → (∀ n : ℤ, v.exact = n → 10 ^ 16 ≤ |n|) →
    ∃ d : Decimal, d.IsShortest v ∧ v.constantText = String.ofList (Layout.scientific.write d)

theorem toList_constantText (v : Double) : v.constantText.toList = v.constantChars :=
  String.toList_ofList

theorem ofToken?_constantText (v : Double) : Term.ofToken? v.constantText = some (.const v) :=
  Reading.ofToken?_number (read?_constantText v)

/-! ## Integers -/

variable {v : Double} {n : ℤ}

theorem isNegative_iff (finite : v.isFinite = true) (value : v.exact = n) (hn : n ≠ 0) :
    v.isNegative = true ↔ n < 0 := by
  obtain ⟨u, magnitude⟩ := exists_magnitude? finite
  have whole := (toInt?_eq_some_iff finite).mpr value
  obtain ⟨-, product⟩ := (toInt?_eq_some_iff_dvd magnitude).mp whole
  generalize u / unitsPerOne = size at product
  unfold unitSign at product
  split at product <;> rename_i sign
  · exact ⟨fun _ => by omega, fun _ => sign⟩
  · exact ⟨fun negative => absurd negative sign, fun less => by omega⟩

theorem toString_eq (n : ℤ) :
    toString n = String.ofList ((if n < 0 then ['-'] else []) ++ Nat.toDigits 10 n.natAbs) := by
  cases n with
  | ofNat m => rfl
  | negSucc m =>
    have sign : (if Int.negSucc m < 0 then ['-'] else []) = ['-'] := if_pos (Int.negSucc_lt_zero m)
    rw [sign, String.ofList_append]
    rfl

theorem natAbs_lt_integerBound : n.natAbs < integerBound ↔ |n| < 10 ^ 16 := by
  have bound : (integerBound : ℤ) = 10 ^ 16 := rfl
  rw [← bound, Int.abs_eq_natAbs, Int.ofNat_lt]

theorem constantText_integer (finite : v.isFinite = true) (value : v.exact = n) (hn : n ≠ 0)
    (small : |n| < 10 ^ 16) : v.constantText = toString n := by
  have whole : v.toInt? = some n := (toInt?_eq_some_iff finite).mpr value
  have sign : v.signChars = if n < 0 then ['-'] else [] :=
    if_congr (isNegative_iff finite value hn) rfl rfl
  rw [constantText, constantChars, whole, toString_eq, ← sign]
  exact congrArg String.ofList (if_pos (natAbs_lt_integerBound.mpr small))

/-! ## Other numbers -/

theorem constantChars_eq_decimalChars (finite : v.isFinite = true)
    (large : ∀ n : ℤ, v.exact = n → 10 ^ 16 ≤ |n|) : v.constantChars = v.decimalChars := by
  rw [constantChars]
  cases whole : v.toInt? with
  | none => rfl
  | some n =>
    have value := (toInt?_eq_some_iff finite).mp whole
    exact if_neg fun small => (large n value).not_gt (natAbs_lt_integerBound.mp small)

theorem exists_isShortest (finite : v.isFinite = true) (hz : v.exact ≠ 0) :
    ∃ d : Decimal, d.IsShortest v ∧ v.decimalChars = Layout.scientific.write d := by
  cases v with
  | nan => cases finite
  | signed negative rank =>
    have fin : rank.val < top := of_decide_eq_true finite
    have magnitude : (signed negative rank).magnitude? = some (units rank.val) :=
      magnitude?_signed fin
    have pos : 0 < units rank.val := by
      refine Nat.pos_of_ne_zero fun zero => hz ?_
      rw [exact_eq magnitude, zero, Nat.cast_zero, mul_zero, Int.cast_zero, zero_div]
    refine ⟨_, Decimal.isShortest_shortest negative pos fin, ?_⟩
    rw [decimalChars]
    simp only [magnitude, if_neg pos.ne']

theorem faithfulText (v : Double) : v.FaithfulText where
  nonempty none_ := by
    have chars := toList_constantText v
    rw [none_] at chars
    exact constantChars_ne_nil v chars.symm
  uninterrupted c hc := by
    rw [toList_constantText] at hc
    have plain := isPlain_of_isInk (inked_constantChars v c hc)
    rw [Token.isPlain, Bool.and_eq_true, Bool.not_eq_true', Bool.not_eq_true'] at plain
    exact plain.symm
  single := Term.tokenize_text .bare (.const v)
  no_variable w same := by
    have read := ofToken?_constantText v
    rw [same, Term.ofToken?_name] at read
    cases read
  no_operator op same := by
    have read := ofToken?_constantText v
    rw [same, Reading.ofToken?_symbol] at read
    cases read
  read_back := ofToken?_constantText v
  integer finite _ value hn small := constantText_integer finite value hn small
  shortest finite hz large := by
    obtain ⟨d, shortest, chars⟩ := exists_isShortest finite hz
    refine ⟨d, shortest, ?_⟩
    rw [constantText, constantChars_eq_decimalChars finite large, chars]

/-- The text of every constant is faithful, and reading rounds to nearest. -/
theorem constantText_faithful :
    (∀ v : Double, v.FaithfulText) ∧ ∀ d : Decimal, Rounds d.negative d.magnitude d.toDouble :=
  ⟨faithfulText, Decimal.rounds_toDouble⟩

end Formulae.Double
