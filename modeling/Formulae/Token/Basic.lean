import Formulae.Text
/-!
Tokens of a text: every bracket alone, and the runs of other characters between brackets and
blanks.
-/
namespace Formulae.Token

def isBracket (c : Char) : Bool := c = '(' || c = ')'

def isPlain (c : Char) : Bool := !isBracket c && !Text.isBlank c

/-- A character in front of the first word. -/
def extend (c : Char) : List (List Char) → List (List Char)
  | [] => [[c]]
  | word :: words => (c :: word) :: words

theorem extend_ne_nil (c : Char) (words : List (List Char)) : extend c words ≠ [] := by
  cases words <;> simp [extend]

def startsPlain : List Char → Bool
  | [] => false
  | c :: _ => isPlain c

def split : List Char → List (List Char)
  | [] => []
  | c :: cs =>
    if Text.isBlank c then split cs
    else if isPlain c && startsPlain cs then extend c (split cs)
    else [c] :: split cs

theorem isBlank_of_isPlain {c : Char} (h : isPlain c = true) : Text.isBlank c = false := by
  simp only [isPlain, Bool.and_eq_true, Bool.not_eq_true'] at h
  exact h.2

theorem isBlank_of_isBracket {c : Char} (h : isBracket c = true) : Text.isBlank c = false := by
  simp only [isBracket, Bool.or_eq_true, decide_eq_true_eq] at h
  rcases h with rfl | rfl <;> decide

theorem isPlain_of_isBracket {c : Char} (h : isBracket c = true) : isPlain c = false := by
  simp [isPlain, h]

theorem char_cases (c : Char) :
    Text.isBlank c = true ∨ isBracket c = true ∨ isPlain c = true := by
  cases blank : Text.isBlank c <;> cases bracket : isBracket c <;> simp [isPlain, blank, bracket]

theorem split_blank {c : Char} (h : Text.isBlank c = true) (cs : List Char) :
    split (c :: cs) = split cs := by
  simp [split, h]

theorem split_joined {c : Char} {cs : List Char} (plain : isPlain c = true)
    (more : startsPlain cs = true) : split (c :: cs) = extend c (split cs) := by
  simp [split, isBlank_of_isPlain plain, plain, more]

theorem split_alone {c : Char} {cs : List Char} (notBlank : Text.isBlank c = false)
    (stop : isPlain c = false ∨ startsPlain cs = false) : split (c :: cs) = [c] :: split cs := by
  have ends : (isPlain c && startsPlain cs) = false := Bool.and_eq_false_iff.mpr stop
  simp [split, notBlank, ends]

theorem split_bracket {c : Char} (h : isBracket c = true) (cs : List Char) :
    split (c :: cs) = [c] :: split cs :=
  split_alone (isBlank_of_isBracket h) (.inl (isPlain_of_isBracket h))

theorem split_ne_nil {c : Char} (h : isPlain c = true) (cs : List Char) :
    split (c :: cs) ≠ [] := by
  cases more : startsPlain cs with
  | true =>
    rw [split_joined h more]
    exact extend_ne_nil c _
  | false =>
    rw [split_alone (isBlank_of_isPlain h) (.inr more)]
    exact List.cons_ne_nil _ _

def tokenize (text : String) : List String := (split text.toList).map String.ofList

def openBracket : String := "("

def closeBracket : String := ")"

end Formulae.Token
