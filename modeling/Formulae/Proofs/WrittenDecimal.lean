import Formulae.Proofs.Numeral
/-!
The written form of a decimal, read back. Whatever the layout, the reader finds the same double that
the decimal stands for: the layout moves the point, and drops or adds only zeros.
-/
namespace Formulae.Decimal

theorem trimRight_zeros (cs : List Char) :
    ∃ z, cs = Text.trimRight (· = '0') cs ++ List.replicate z '0' := by
  refine ⟨(cs.reverse.takeWhile (· = '0')).length, ?_⟩
  have zeros : cs.reverse.takeWhile (· = '0')
      = List.replicate (cs.reverse.takeWhile (· = '0')).length '0' := by
    rw [List.eq_replicate_iff]
    exact ⟨rfl, fun c hc => of_decide_eq_true (List.all_eq_true.mp List.all_takeWhile c hc)⟩
  have parts := List.takeWhile_append_dropWhile (p := (· = '0')) (l := cs.reverse)
  rw [Text.trimRight, ← List.reverse_replicate, ← zeros, ← List.reverse_append, parts,
    List.reverse_reverse]

theorem toDouble_congr {negative : Bool} {m n : Nat} {e f : Int} (hm : m = n) (he : e = f) :
    toDouble ⟨negative, m, e⟩ = toDouble ⟨negative, n, f⟩ := by
  rw [hm, he]

/-- Digits `ds` of which the first has place `e` are read as the number that they are. -/
def ReadsAs (negative : Bool) (body ds : List Char) (e : Int) : Prop :=
  (readUnsigned? negative body).map toDouble
    = some (toDouble ⟨negative, value ds, e + 1 - ds.length⟩)

theorem ReadsAs.of_point {negative : Bool} {whole fraction tail ds : List Char} {e f : Int}
    (hw : Digits whole) (nonempty : whole ≠ []) (hf : Digits fraction)
    (ht : readTail? tail = some f)
    (same : toDouble ⟨negative, value (whole ++ fraction), f - fraction.length⟩
      = toDouble ⟨negative, value ds, e + 1 - ds.length⟩) :
    ReadsAs negative (whole ++ '.' :: (fraction ++ tail)) ds e := by
  rw [ReadsAs, readUnsigned?_point hw nonempty hf ht, Option.map_some, same]

theorem ReadsAs.of_places {negative : Bool} {whole fraction ds : List Char} {e : Int}
    (hw : Digits whole) (nonempty : whole ≠ []) (hf : Digits fraction)
    (same : toDouble ⟨negative, value (whole ++ fraction), 0 - fraction.length⟩
      = toDouble ⟨negative, value ds, e + 1 - ds.length⟩) :
    ReadsAs negative (whole ++ '.' :: fraction) ds e := by
  have h : ReadsAs negative (whole ++ '.' :: (fraction ++ [])) ds e :=
    ReadsAs.of_point hw nonempty hf rfl same
  rwa [List.append_nil] at h

theorem readsAs_positional (negative : Bool) {ds : List Char} (hd : Digits ds) (hne : ds ≠ [])
    (e : Int) : ReadsAs negative (Layout.positional ds e) ds e := by
  have count : 0 < ds.length := List.length_pos_iff.mpr hne
  unfold Layout.positional
  by_cases sign : e < 0
  · -- The number is below one: zeros stand between the point and the digits.
    rw [if_pos sign]
    have hz : Digits (List.replicate (-e - 1).toNat '0' ++ ds) := (digits_zeros _).append hd
    show ReadsAs negative (['0'] ++ '.' :: (List.replicate (-e - 1).toNat '0' ++ ds)) ds e
    refine ReadsAs.of_places (digits_zeros 1) (List.cons_ne_nil _ _) hz ?_
    apply toDouble_congr
    · exact (value_zeros_append 1 _).trans (value_zeros_append _ ds)
    · rw [List.length_append, List.length_replicate]
      omega
  · rw [if_neg sign]
    dsimp only
    by_cases fits : ds.length ≤ e.toNat + 1
    · -- The number is an integer: zeros fill up the places before the point.
      rw [if_pos fits]
      have hz : Digits (ds ++ List.replicate (e.toNat + 1 - ds.length) '0') :=
        hd.append (digits_zeros _)
      refine ReadsAs.of_places hz (List.append_ne_nil_of_left_ne_nil hne _) (digits_zeros 1) ?_
      have zeros : ds ++ List.replicate (e.toNat + 1 - ds.length) '0' ++ ['0']
          = ds ++ List.replicate (e.toNat + 1 - ds.length + 1) '0' := by
        rw [List.append_assoc, List.replicate_succ']
      rw [zeros, value_append_zeros, toDouble_shift]
      apply toDouble_congr rfl
      rw [List.length_singleton]
      omega
    · rw [if_neg fits]
      have whole : Digits (ds.take (e.toNat + 1)) := fun c hc => hd c (List.mem_of_mem_take hc)
      have fraction : Digits (ds.drop (e.toNat + 1)) := fun c hc => hd c (List.mem_of_mem_drop hc)
      have nonempty : ds.take (e.toNat + 1) ≠ [] := by
        rw [Ne, List.take_eq_nil_iff]
        simp [hne]
      refine ReadsAs.of_places whole nonempty fraction ?_
      apply toDouble_congr
      · rw [List.take_append_drop]
      · rw [List.length_drop]
        omega

theorem readsAs_mantissa (negative : Bool) {ds : List Char} (hd : Digits ds) (hne : ds ≠ [])
    (width : Nat) (e : Int) :
    ReadsAs negative (Layout.mantissa ds ++ 'e' :: Layout.exponent width e) ds e := by
  have ht := readTail?_exponent width e
  match ds, hd, hne with
  | [d], hd, hne =>
    have h := readUnsigned?_plain negative hd hne ht
    rw [ReadsAs, Layout.mantissa, h, Option.map_some, List.length_singleton, Int.natCast_one,
      Int.add_sub_cancel]
  | d :: d' :: ds, hd, hne =>
    have first : Digits [d] := fun c hc => hd c (by simpa using Or.inl (List.mem_singleton.mp hc))
    have others : Digits (d' :: ds) := fun c hc => hd c (List.mem_cons_of_mem d hc)
    show ReadsAs negative ([d] ++ '.' :: (d' :: ds ++ 'e' :: Layout.exponent width e)) _ e
    refine ReadsAs.of_point first (List.cons_ne_nil _ _) others ht ?_
    apply toDouble_congr rfl
    simp only [List.length_cons]
    omega

theorem readSign_of_digit {c : Char} {cs : List Char} (hc : c.isDigit = true) :
    readSign (c :: cs) = (false, c :: cs) := by
  unfold readSign
  split
  · rename_i e
    rw [(List.cons.inj e).1] at hc
    exact absurd hc (by decide)
  · rename_i e
    rw [(List.cons.inj e).1] at hc
    exact absurd hc (by decide)
  · rfl

theorem toLower_of_digit {c : Char} (hc : c.isDigit = true) : c.toLower.isDigit = true := by
  have h := Char.isDigit_iff_toNat.mp hc
  unfold Char.toLower
  split
  · rename_i upper
    exfalso
    have low : 65 ≤ c.toNat := upper.1
    have high : c.toNat ≤ 57 := h.2
    omega
  · exact hc

theorem no_word_of_digit {c : Char} (cs : List Char) (hc : c.isDigit = true) :
    isInfinityWord (c :: cs) = false ∧ isNanWord (c :: cs) = false := by
  have ne : ∀ (d : Char) (ds : List Char), d.isDigit = false → lower (c :: cs) ≠ d :: ds := by
    intro d ds hd e
    have same : c.toLower = d := (List.cons.inj e).1
    rw [← same, toLower_of_digit hc] at hd
    exact nomatch hd
  simp only [isInfinityWord, isNanWord, Bool.or_eq_false_iff, decide_eq_false_iff_not]
  exact ⟨⟨ne 'i' _ rfl, ne 'i' _ rfl⟩, ne 'n' _ rfl⟩

theorem readPlain?_signed (negative : Bool) {c : Char} (cs : List Char) (hc : c.isDigit = true) :
    readPlain? ((if negative then ['-'] else []) ++ c :: cs)
      = (readUnsigned? negative (c :: cs)).map toDouble := by
  have sign : readSign ((if negative then ['-'] else []) ++ c :: cs) = (negative, c :: cs) := by
    cases negative with
    | true => rfl
    | false => exact readSign_of_digit hc
  obtain ⟨infinite, nan⟩ := no_word_of_digit cs hc
  rw [readPlain?, sign]
  simp only [infinite, nan, Bool.false_eq_true, if_false]

theorem digit_head {ds : List Char} (hd : Digits ds) (hne : ds ≠ []) :
    ∃ c cs, ds = c :: cs ∧ c.isDigit = true := by
  cases ds with
  | nil => exact absurd rfl hne
  | cons c cs => exact ⟨c, cs, rfl, hd c List.mem_cons_self⟩

theorem positional_head {ds : List Char} (hd : Digits ds) (hne : ds ≠ []) (e : Int) :
    ∃ c cs, Layout.positional ds e = c :: cs ∧ c.isDigit = true := by
  obtain ⟨c, cs, rfl, hc⟩ := digit_head hd hne
  unfold Layout.positional
  split
  · exact ⟨'0', _, rfl, rfl⟩
  · dsimp only
    split
    · exact ⟨c, _, rfl, hc⟩
    · exact ⟨c, _, rfl, hc⟩

theorem mantissa_head {ds : List Char} (hd : Digits ds) (hne : ds ≠ []) (tail : List Char) :
    ∃ c cs, Layout.mantissa ds ++ tail = c :: cs ∧ c.isDigit = true := by
  obtain ⟨c, cs, rfl, hc⟩ := digit_head hd hne
  cases cs with
  | nil => exact ⟨c, _, rfl, hc⟩
  | cons d ds => exact ⟨c, _, rfl, hc⟩

/-- The digits of a number up to the last that is not zero. -/
def significant (n : Nat) : List Char := Text.trimRight (· = '0') (Nat.toDigits 10 n)

theorem exists_zeros (n : Nat) :
    ∃ z, Nat.toDigits 10 n = significant n ++ List.replicate z '0' := trimRight_zeros _

theorem digits_significant (n : Nat) : Digits (significant n) := by
  obtain ⟨z, all⟩ := exists_zeros n
  intro c hc
  apply digits_toDigits n
  rw [all]
  exact List.mem_append_left _ hc

theorem eq_value_significant {n z : Nat}
    (all : Nat.toDigits 10 n = significant n ++ List.replicate z '0') :
    n = value (significant n) * tenTo z := by
  rw [← value_append_zeros, ← all, value_toDigits]

theorem significant_ne_nil {n : Nat} (hz : n ≠ 0) : significant n ≠ [] := by
  intro none_
  obtain ⟨z, all⟩ := exists_zeros n
  have shown := eq_value_significant all
  rw [none_] at shown
  exact hz (shown.trans (Nat.zero_mul _))

def body (l : Layout) (ds : List Char) (e : Int) : List Char :=
  if l.least ≤ e ∧ e < l.bound then Layout.positional ds e
  else Layout.mantissa ds ++ 'e' :: Layout.exponent l.width e

theorem write_eq (l : Layout) (d : Decimal) :
    l.write d = (if d.negative then ['-'] else [])
      ++ body l (significant d.digits) (d.exponent + (Nat.toDigits 10 d.digits).length - 1) := by
  cases hn : d.negative <;> simp [Layout.write, body, significant, hn]

theorem readsAs_body (l : Layout) (negative : Bool) {ds : List Char} (hd : Digits ds)
    (hne : ds ≠ []) (e : Int) : ReadsAs negative (body l ds e) ds e := by
  unfold body
  split
  · exact readsAs_positional negative hd hne e
  · exact readsAs_mantissa negative hd hne l.width e

theorem body_head (l : Layout) {ds : List Char} (hd : Digits ds) (hne : ds ≠ []) (e : Int) :
    ∃ c cs, body l ds e = c :: cs ∧ c.isDigit = true := by
  unfold body
  split
  · exact positional_head hd hne e
  · exact mantissa_head hd hne _

/-- A decimal other than zero, written in any layout, is read as the double that it stands for. -/
theorem readPlain?_write (l : Layout) {d : Decimal} (hz : d.digits ≠ 0) :
    readPlain? (l.write d) = some d.toDouble := by
  obtain ⟨negative, n, exponent⟩ := d
  obtain ⟨z, all⟩ := exists_zeros n
  have count : (Nat.toDigits 10 n).length = (significant n).length + z := by
    rw [all, List.length_append, List.length_replicate]
  have same : toDouble ⟨negative, n, exponent⟩ = toDouble ⟨negative, value (significant n),
      exponent + (Nat.toDigits 10 n).length - 1 + 1 - (significant n).length⟩ := by
    rw [congrArg (fun k => toDouble ⟨negative, k, exponent⟩) (eq_value_significant all),
      toDouble_shift]
    apply toDouble_congr rfl
    omega
  rw [write_eq, same]
  have digits := digits_significant n
  have nonempty := significant_ne_nil hz
  obtain ⟨c, cs, e, hc⟩ :=
    body_head l digits nonempty (exponent + (Nat.toDigits 10 n).length - 1)
  have h := readsAs_body l negative digits nonempty (exponent + (Nat.toDigits 10 n).length - 1)
  rw [ReadsAs, e] at h
  rw [e, readPlain?_signed negative cs hc, h]

end Formulae.Decimal
