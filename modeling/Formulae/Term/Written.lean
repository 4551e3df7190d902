import Formulae.Decimal
import Formulae.Term.Basic
import Formulae.Text
/-!
Written forms of a term. In the two bracketed styles each operator stands first or last inside the
brackets of its operands; the bare style has the operator last and no brackets at all.
-/
namespace Formulae

inductive Style
  | operatorFirst
  | operatorLast
  | bare
deriving DecidableEq

namespace Style

def all : List Style := [operatorFirst, operatorLast, bare]

def name : Style → String
  | operatorFirst => "prefix"
  | operatorLast => "postfix"
  | bare => "rpn"

def ofName? (s : String) : Option Style := all.find? (·.name = s)

def spaced (words : List (List Char)) : List Char := [' '].intercalate words

def bracketed (cs : List Char) : List Char := '(' :: cs ++ [')']

def place : Style → List Char → List (List Char) → List Char
  | operatorFirst, op, args => bracketed (spaced (op :: args))
  | operatorLast, op, args => bracketed (spaced (args ++ [op]))
  | bare, op, args => spaced (args ++ [op])

end Style

namespace Term

def chars (style : Style) : Term → List Char :=
  fold (·.name.toList) Double.constantChars fun op args => style.place op.symbol.toList args

def text (style : Style) (t : Term) : String := String.ofList (t.chars style)

def construction : Term → String :=
  fold (fun v => Kind.variableNode.nodeName ++ "(" ++ Text.quote v.name ++ ")")
    (fun c => Kind.constantNode.nodeName ++ "(" ++ c.decimalText ++ ")")
    fun op args =>
      Kind.operatorNode.nodeName ++ "(" ++ Text.quote op.symbol ++ ", ["
        ++ ", ".intercalate args ++ "])"

def formulaConstruction (t : Term) : String :=
  "Expression(" ++ Text.quote (t.text .operatorFirst) ++ ")"

theorem chars_app (style : Style) (op : Op) (args : List Term) :
    (app op args).chars style = style.place op.symbol.toList (args.map (chars style)) :=
  fold_app ..

end Term

end Formulae
