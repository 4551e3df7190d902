import Formulae.Text
/-!
What can be wrong with a text, with the facts that its message is made of. Messages show at most
the first seven of the tokens that were not yet read.
-/
namespace Formulae

inductive Reason
  | unwrapped
  | tooDeep
  | operandsLeft (count : Nat)
  | other (text : String)
deriving DecidableEq

def Reason.text : Reason → String
  | unwrapped => "expression isn't wrapped with external brackets"
  | tooDeep => "expression is nested too deeply"
  | operandsLeft count => s!"{count} operand(s) left without an operator"
  | other text => text

inductive ParseError
  | refused (reason : Reason) (remaining : List String)
  | endOfText (expected : String)
  | otherToken (expected actual : String) (remaining : List String)
  | unexpected (token : String) (remaining : List String)
  | wrongCount (expected actual : Int) (remaining : List String)
deriving DecidableEq

namespace ParseError

def previewTokens : Nat := 7

def remaining : ParseError → List String
  | refused _ rest => rest
  | endOfText _ => []
  | otherToken _ _ rest => rest
  | unexpected _ rest => rest
  | wrongCount _ _ rest => rest

def preview (e : ParseError) : String := " ".intercalate (e.remaining.take previewTokens)

def shown : String := ". In: -> "

def describe (e : ParseError) : String :=
  match e with
  | refused reason rest => if rest.isEmpty then reason.text else reason.text ++ shown ++ e.preview
  | endOfText expected => "expected '" ++ expected ++ "', got end of expression"
  | otherToken expected actual _ =>
    "expected '" ++ expected ++ "', got '" ++ actual ++ "'" ++ shown ++ e.preview
  | unexpected token _ =>
    let line := String.ofList (Text.trimRight Text.isBlank (token ++ " " ++ e.preview).toList)
    "unexpected token '" ++ token ++ "'" ++ shown ++ line
  | wrongCount expected actual _ =>
    s!"wrong number of arguments: expected {expected}, got {actual}" ++ shown ++ e.preview

theorem describe_refused (reason : Reason) {rest : List String} (h : rest ≠ []) :
    (refused reason rest).describe
      = reason.text ++ shown ++ " ".intercalate (rest.take previewTokens) := by
  have some_ : ¬ rest.isEmpty = true := by simpa using h
  exact if_neg some_

def message (e : ParseError) : String := "Parsing error occurred: " ++ e.describe ++ "."

end ParseError

end Formulae
