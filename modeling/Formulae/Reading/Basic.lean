import Formulae.Reading.Error
import Formulae.Term.Measure
import Formulae.Term.Written
import Formulae.Token.Basic
/-!
Reading of terms, one token at a time. In the two bracketed styles a stack holds the brackets that are
open; a style decides what a token does in the innermost bracket, and the machine below it is the
same for both. Without brackets the stack holds operands. An operator takes its operands from the
top of it, so one that takes any number of them cannot be read.
-/
namespace Formulae

namespace Term

def ofToken? (token : String) : Option Term :=
  match Variable.ofName? token with
  | some v => some (var v)
  | none => (Decimal.read? token).map const

theorem ofToken?_name (v : Variable) : ofToken? v.name = some (var v) := by
  rw [ofToken?, Variable.ofName?_name]

end Term

namespace Reading

open Token

/-- An open bracket: its operator, once read, and its operands, last first. -/
structure Frame where
  op : Option Op
  operands : List Term

def Frame.empty : Frame := ⟨none, []⟩

def Frame.add (f : Frame) (t : Term) : Frame := ⟨f.op, t :: f.operands⟩

inductive Action
  | enter
  | supply (t : Term)
  | choose (op : Op)
  | close (op : Op)
  | refuse
  | demandClose
  | miscount (arity : Nat)

def operand (token : String) : Action :=
  if token = openBracket then .enter
  else match Term.ofToken? token with
    | some t => .supply t
    | none => .refuse

def closeOnly (op : Op) (token : String) : Action :=
  if token = closeBracket then .close op else .demandClose

/-- The operator comes first and tells how many operands follow. -/
def actFirst : Option Frame → String → Action
  | none, token => operand token
  | some ⟨none, _⟩, token =>
    match Op.ofSymbol? token with
    | some op => .choose op
    | none => .refuse
  | some ⟨some op, operands⟩, token =>
    match op.arity with
    | none => if token = closeBracket then .close op else operand token
    | some n => if operands.length < n then operand token else closeOnly op token

/-- The operator comes last and has to accept the operands before it. -/
def actLast : Option Frame → String → Action
  | none, token => operand token
  | some ⟨none, operands⟩, token =>
    match Op.ofSymbol? token with
    | none => operand token
    | some op =>
      match op.arity with
      | none => .choose op
      | some n => if operands.length = n then .choose op else .miscount n
  | some ⟨some op, _⟩, token => closeOnly op token

def expectedOperand : String := "expression"

def expectedOperator : String := "operator"

def missingFirst : Option Frame → String
  | none => expectedOperand
  | some ⟨none, _⟩ => expectedOperator
  | some ⟨some op, operands⟩ =>
    match op.arity with
    | none => closeBracket
    | some n => if operands.length < n then expectedOperand else closeBracket

def missingLast : Option Frame → String
  | none => expectedOperand
  | some ⟨none, _⟩ => expectedOperator
  | some ⟨some _, _⟩ => closeBracket

structure Reader where
  act : Option Frame → String → Action
  missing : Option Frame → String

def operatorFirst : Reader := ⟨actFirst, missingFirst⟩

def operatorLast : Reader := ⟨actLast, missingLast⟩

/-- The stack after a token, or the whole term that the token completes. -/
inductive Outcome
  | done (t : Term)
  | more (frames : List Frame)

def deliver (t : Term) : List Frame → Outcome
  | [] => .done t
  | f :: fs => .more (f.add t :: fs)

/-- How deep reading may go, if there is a bound: brackets that are open at once, or operators one inside
the other in an operand that is written out. -/
abbrev Limit := Option Nat

def Limit.admits : Limit → Nat → Bool
  | none, _ => true
  | some most, count => count ≤ most

def step (reader : Reader) (limit : Limit) (frames : List Frame) (token : String)
    (rest : List String) : Except ParseError Outcome :=
  match reader.act frames.head? token with
  | .enter =>
    if limit.admits (frames.length + 1) then .ok (.more (.empty :: frames))
    else .error (.refused .tooDeep rest)
  | .supply t => .ok (deliver t frames)
  | .choose op =>
    match frames with
    | [] => .error (.unexpected token rest)
    | f :: fs => .ok (.more (⟨some op, f.operands⟩ :: fs))
  | .close op =>
    match frames with
    | [] => .error (.unexpected token rest)
    | f :: fs => .ok (deliver (.app op f.operands.reverse) fs)
  | .refuse => .error (.unexpected token rest)
  | .demandClose => .error (.otherToken closeBracket token (token :: rest))
  | .miscount n =>
    .error (.wrongCount n (frames.head?.elim 0 (·.operands.length)) (token :: rest))

def run (reader : Reader) (limit : Limit) (frames : List Frame) :
    List String → Except ParseError (Term × List String)
  | [] => .error (.endOfText (reader.missing frames.head?))
  | token :: rest =>
    match step reader limit frames token rest with
    | .error e => .error e
    | .ok (.done t) => .ok (t, rest)
    | .ok (.more frames') => run reader limit frames' rest

def element (reader : Reader) (limit : Limit) (tokens : List String) :
    Except ParseError (Term × List String) :=
  run reader limit [] tokens

def document (reader : Reader) (limit : Limit) (tokens : List String) : Except ParseError Term :=
  match element reader limit tokens with
  | .error e => .error e
  | .ok (t, []) => .ok t
  | .ok (_, rest) => .error (.refused .unwrapped rest)

def bareStep (stack : List Term) (token : String) (rest : List String) :
    Except ParseError (List Term) :=
  match Op.ofSymbol? token with
  | none =>
    match Term.ofToken? token with
    | some t => .ok (t :: stack)
    | none => .error (.unexpected token rest)
  | some op =>
    match op.arity with
    | none => .error (.unexpected token rest)
    | some n =>
      if stack.length < n then .error (.wrongCount n stack.length (token :: rest))
      else .ok (.app op (stack.take n).reverse :: stack.drop n)

/-- One operand is the term; those before it were left over and are written out, unless one of them
is too deep for that. -/
def bareEnd (limit : Limit) : List Term → Except ParseError Term
  | [] => .error (.endOfText expectedOperand)
  | [t] => .ok t
  | _ :: older =>
    if older.all fun t => limit.admits t.nesting then
      .error (.refused (.operandsLeft older.length) (older.reverse.map (Term.text .bare)))
    else .error (.refused .tooDeep [])

theorem bareEnd_several (limit : Limit) (last t : Term) (older : List Term) :
    bareEnd limit (last :: t :: older)
      = if (t :: older).all fun t => limit.admits t.nesting then
          .error (.refused (.operandsLeft (t :: older).length)
            ((t :: older).reverse.map (Term.text .bare)))
        else .error (.refused .tooDeep []) :=
  rfl

def bare (limit : Limit) (stack : List Term) : List String → Except ParseError Term
  | [] => bareEnd limit stack
  | token :: rest =>
    match bareStep stack token rest with
    | .error e => .error e
    | .ok stack' => bare limit stack' rest

def nestingLimit : Limit := some 490

def ofTokens (style : Style) (limit : Limit) (tokens : List String) : Except ParseError Term :=
  match style with
  | .operatorFirst => document operatorFirst limit tokens
  | .operatorLast => document operatorLast limit tokens
  | .bare => bare limit [] tokens

end Reading

def Term.parse (style : Style) (text : String) : Except ParseError Term :=
  Reading.ofTokens style Reading.nestingLimit (Token.tokenize text)

end Formulae
