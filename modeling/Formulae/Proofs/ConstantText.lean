import Formulae.Proofs.WrittenDecimal
import Formulae.Reading.Basic
import Formulae.Token.Basic
/-!
The text of a constant. It consists of characters that neither blanks nor brackets nor underscores
interrupt, so it is a single word, and reading that word gives the constant back: signed zeros keep
their sign, and infinities and the value that is no number have words of their own.
-/
namespace Formulae

def isInk (c : Char) : Bool :=
  0x20 < c.toNat && c.toNat < 0x7F && c.toNat != 0x5F && c.toNat != 0x28 && c.toNat != 0x29

def Inked (cs : List Char) : Prop := ∀ c ∈ cs, isInk c = true

theorem isInk_iff {c : Char} : isInk c = true ↔
    0x20 < c.toNat ∧ c.toNat < 0x7F ∧ c.toNat ≠ 0x5F ∧ c.toNat ≠ 0x28 ∧ c.toNat ≠ 0x29 := by
  simp [isInk, and_assoc]

theorem isInk_of_digit {c : Char} (h : c.isDigit = true) : isInk c = true := by
  have range := Char.isDigit_iff_toNat.mp h
  have low : 48 ≤ c.toNat := range.1
  have high : c.toNat ≤ 57 := range.2
  rw [isInk_iff]
  omega

theorem ne_of_isInk {c d : Char} (hc : isInk c = true) (hd : isInk d = false) : c ≠ d := by
  rintro rfl
  rw [hc] at hd
  exact nomatch hd

theorem isPlain_of_isInk {c : Char} (h : isInk c = true) : Token.isPlain c = true := by
  have range := isInk_iff.mp h
  have notBlank : Text.isBlank c = false := by
    simp only [Text.isBlank, Text.inRanges, Text.blankRanges, Text.Range.holds, List.any_cons,
      List.any_nil, Bool.or_false, Bool.or_eq_false_iff, Bool.and_eq_false_iff,
      decide_eq_false_iff_not]
    omega
  have notBracket : Token.isBracket c = false := by
    simp only [Token.isBracket, Bool.or_eq_false_iff, decide_eq_false_iff_not]
    exact ⟨ne_of_isInk h (by decide), ne_of_isInk h (by decide)⟩
  rw [Token.isPlain, notBlank, notBracket]
  rfl

theorem isMargin_of_isInk {c : Char} (h : isInk c = true) : Text.isMargin c = false := by
  simp only [Text.isMargin, Bool.or_eq_false_iff, decide_eq_false_iff_not]
  refine ⟨⟨⟨⟨⟨?_, ?_⟩, ?_⟩, ?_⟩, ?_⟩, ?_⟩ <;> exact ne_of_isInk h (by decide)

theorem Inked.append {cs ds : List Char} (hc : Inked cs) (hd : Inked ds) : Inked (cs ++ ds) :=
  fun c h => (List.mem_append.mp h).elim (hc c) (hd c)

theorem Inked.cons {c : Char} {cs : List Char} (h : isInk c = true) (hs : Inked cs) :
    Inked (c :: cs) := fun _ hd => (List.mem_cons.mp hd).elim (fun e => e ▸ h) (hs _)

theorem inked_nil : Inked [] := fun _ h => nomatch h

theorem inked_of_all {cs : List Char} (h : cs.all isInk = true) : Inked cs :=
  List.all_eq_true.mp h

theorem Decimal.Digits.inked {ds : List Char} (h : Decimal.Digits ds) : Inked ds :=
  fun c hc => isInk_of_digit (h c hc)

namespace Decimal

theorem trimRight_inked {cs : List Char} (h : Inked cs) :
    Text.trimRight Text.isMargin cs = cs := by
  have stop : cs.reverse.dropWhile Text.isMargin = cs.reverse := by
    cases e : cs.reverse with
    | nil => rfl
    | cons c ds =>
      have mem : c ∈ cs := List.mem_reverse.mp (e ▸ List.mem_cons_self)
      simp [isMargin_of_isInk (h c mem)]
  rw [Text.trimRight, stop, List.reverse_reverse]

theorem trim_inked {cs : List Char} (h : Inked cs) : Text.trim Text.isMargin cs = cs := by
  have stop : cs.dropWhile Text.isMargin = cs := by
    cases cs with
    | nil => rfl
    | cons c ds => simp [isMargin_of_isInk (h c List.mem_cons_self)]
  rw [Text.trim, stop, trimRight_inked h]

theorem mapM_plainChar?_inked {cs : List Char} (h : Inked cs) : cs.mapM plainChar? = some cs := by
  induction cs with
  | nil => rfl
  | cons c cs ih =>
    have same : plainChar? c = some c := if_pos (isInk_iff.mp (h c List.mem_cons_self)).2.1
    rw [List.mapM_cons, same, ih fun d hd => h d (List.mem_cons_of_mem c hd)]
    rfl

theorem joinDigits?_inked {cs : List Char} (h : Inked cs) (afterDigit : Bool) :
    joinDigits? afterDigit cs = some cs := by
  induction cs generalizing afterDigit with
  | nil => rfl
  | cons c cs ih =>
    have ne : c ≠ '_' := ne_of_isInk (h c List.mem_cons_self) (by decide)
    have rest := ih (fun d hd => h d (List.mem_cons_of_mem c hd)) c.isDigit
    unfold joinDigits?
    split
    · rename_i e
      exact nomatch e
    · rename_i e
      exact absurd (List.cons.inj e).1 ne
    · rename_i e
      obtain ⟨rfl, rfl⟩ := List.cons.inj e
      rw [if_neg ne, rest]
      rfl

theorem read?_inked {cs : List Char} (h : Inked cs) : read? (String.ofList cs) = readPlain? cs := by
  rw [read?, String.toList_ofList, mapM_plainChar?_inked h]
  show (joinDigits? false (Text.trim Text.isMargin cs)).bind readPlain? = readPlain? cs
  rw [trim_inked h, joinDigits?_inked h, Option.bind_some]

theorem inked_exponent (width : Nat) (e : Int) : Inked (Layout.exponent width e) := by
  have digits : Digits (Layout.padLeft width (Nat.toDigits 10 e.natAbs)) :=
    (digits_zeros _).append (digits_toDigits _)
  apply Inked.cons _ digits.inked
  split <;> decide

theorem inked_positional {ds : List Char} (hd : Digits ds) (e : Int) :
    Inked (Layout.positional ds e) := by
  unfold Layout.positional
  split
  · exact .cons (by decide) (.cons (by decide) ((digits_zeros _).append hd).inked)
  · dsimp only
    split
    · exact (hd.inked.append (digits_zeros _).inked).append
        (.cons (by decide) (.cons (by decide) inked_nil))
    · have whole : Inked (ds.take (e.toNat + 1)) := fun c hc => hd.inked c (List.mem_of_mem_take hc)
      have fraction : Inked (ds.drop (e.toNat + 1)) :=
        fun c hc => hd.inked c (List.mem_of_mem_drop hc)
      exact whole.append (.cons (by decide) fraction)

theorem inked_mantissa {ds : List Char} (hd : Digits ds) : Inked (Layout.mantissa ds) := by
  match ds, hd with
  | [], _ => exact inked_nil
  | [_], hd => exact hd.inked
  | d :: e :: ds, hd =>
    have first : isInk d = true := hd.inked d List.mem_cons_self
    exact .cons first (.cons (by decide) fun c hc => hd.inked c (List.mem_cons_of_mem d hc))

theorem inked_write (l : Layout) (d : Decimal) : Inked (l.write d) := by
  have digits := digits_significant d.digits
  rw [write_eq]
  apply Inked.append
  · split
    · exact .cons (by decide) inked_nil
    · exact inked_nil
  · unfold body
    split
    · exact inked_positional digits _
    · exact (inked_mantissa digits).append (.cons (by decide) (inked_exponent _ _))

end Decimal

namespace Double

theorem inked_signChars (v : Double) : Inked v.signChars := by
  unfold signChars
  split
  · exact .cons (by decide) inked_nil
  · exact inked_nil

theorem inked_decimalChars (v : Double) : Inked v.decimalChars := by
  unfold decimalChars
  split
  · exact inked_of_all (by decide)
  · split
    · exact (inked_signChars _).append (inked_of_all (by decide))
    · split
      · exact (inked_signChars _).append (inked_of_all (by decide))
      · exact Decimal.inked_write _ _

theorem inked_constantChars (v : Double) : Inked v.constantChars := by
  unfold constantChars
  split
  · split
    · exact (inked_signChars v).append (Decimal.digits_toDigits _).inked
    · exact inked_decimalChars v
  · exact inked_decimalChars v

theorem integer_spec {v : Double} {n : Int} (h : v.toInt? = some n) :
    ∃ negative rank, v = signed negative rank ∧ n.natAbs * unitsPerOne = units rank.val := by
  unfold toInt? at h
  split at h
  · exact nomatch h
  · rename_i u magnitude
    split at h
    · rename_i whole
      cases v with
      | nan => exact nomatch magnitude
      | signed negative rank =>
        refine ⟨negative, rank, rfl, ?_⟩
        have units_eq : units rank.val = u := by
          simp only [magnitude?, Option.ite_none_right_eq_some, Option.some.injEq] at magnitude
          exact magnitude.2
        have abs : n.natAbs = u / unitsPerOne := by
          rw [← Option.some.inj h]
          split
          · rw [Int.natAbs_neg, Int.natAbs_natCast]
          · rw [Int.natAbs_natCast]
        rw [abs, units_eq]
        exact Nat.div_mul_cancel (Nat.dvd_of_mod_eq_zero whole)
    · exact nomatch h

theorem magnitude?_signed {negative : Bool} {rank : Fin (top + 1)} (h : rank.val < top) :
    (signed negative rank).magnitude? = some (units rank.val) := if_pos h

theorem digits_ne_zero {d : Decimal} {negative : Bool} {rank : Fin (top + 1)}
    (h : d.toDouble = signed negative rank) (hz : units rank.val ≠ 0) : d.digits ≠ 0 := by
  intro none_
  have read : zero d.negative = signed negative rank := by
    rw [← h, Decimal.toDouble, if_pos none_]
  have rank_zero : rank.val = 0 := by
    rw [← (signed.inj read).2]
    exact Nat.zero_min top
  rw [rank_zero, units_subnormal (Nat.zero_le _)] at hz
  exact hz rfl

theorem readPlain?_infinity (negative : Bool) :
    Decimal.readPlain? ((if negative then ['-'] else []) ++ "inf".toList)
      = some (infinity negative) := by
  cases negative <;> decide

theorem readPlain?_zero (negative : Bool) :
    Decimal.readPlain? ((if negative then ['-'] else []) ++ "0.0".toList)
      = some (zero negative) := by
  cases negative <;> decide

theorem readPlain?_decimalChars (v : Double) : Decimal.readPlain? v.decimalChars = some v := by
  cases v with
  | nan => decide
  | signed negative rank =>
    by_cases fin : rank.val < top
    · by_cases hz : units rank.val = 0
      · have rank_zero : rank = 0 := Fin.ext (units_eq_zero hz)
        simp only [decimalChars, magnitude?_signed fin, if_pos hz]
        exact (readPlain?_zero negative).trans (by rw [rank_zero]; rfl)
      · simp only [decimalChars, magnitude?_signed fin, if_neg hz]
        have spec := Decimal.shortest_spec negative (Nat.pos_of_ne_zero hz) fin
        rw [Decimal.readPlain?_write _ (digits_ne_zero spec.1 hz), spec.1]
    · have rank_top : rank = ⟨top, Nat.lt_succ_self _⟩ :=
        Fin.ext (Nat.le_antisymm (Nat.le_of_lt_succ rank.isLt) (Nat.le_of_not_lt fin))
      have none_ : (signed negative rank).magnitude? = none := if_neg fin
      simp only [decimalChars, none_]
      exact (readPlain?_infinity negative).trans (by rw [rank_top]; rfl)

theorem readPlain?_constantChars (v : Double) : Decimal.readPlain? v.constantChars = some v := by
  unfold constantChars
  split
  · rename_i n whole
    obtain ⟨negative, rank, rfl, exact_⟩ := integer_spec whole
    split
    · rename_i small
      obtain ⟨c, cs, e, hc⟩ :=
        Decimal.digit_head (Decimal.digits_toDigits n.natAbs) Nat.toDigits_ne_nil
      have plain : Decimal.readUnsigned? negative (Nat.toDigits 10 n.natAbs ++ [])
          = some ⟨negative, Decimal.value (Nat.toDigits 10 n.natAbs), 0⟩ :=
        Decimal.readUnsigned?_plain negative (Decimal.digits_toDigits _) Nat.toDigits_ne_nil rfl
      rw [List.append_nil, Decimal.value_toDigits] at plain
      have read := Decimal.readPlain?_signed negative cs hc
      rw [← e, plain, Option.map_some, Decimal.toDouble_integer small exact_] at read
      exact read
    · exact readPlain?_decimalChars _
  · exact readPlain?_decimalChars v

theorem constantChars_ne_nil (v : Double) : v.constantChars ≠ [] := by
  intro none_
  have read := readPlain?_constantChars v
  rw [none_] at read
  exact nomatch read

/-- The text of a constant is read as that constant. -/
theorem read?_constantText (v : Double) : Decimal.read? v.constantText = some v := by
  rw [constantText, Decimal.read?_inked (inked_constantChars v), readPlain?_constantChars]

end Double

end Formulae
