/-!
The operators of a formula: four of two operands, negation, the sum of exponentials and its
logarithm over any number of operands, and the sum of squares and its root over two to five
operands.
-/
namespace Formulae

inductive Few
  | two | three | four | five
deriving DecidableEq

def Few.count : Few → Nat
  | two => 2
  | three => 3
  | four => 4
  | five => 5

inductive Op
  | add | sub | mul | div | neg | sumexp | lse
  | sumsq (n : Few)
  | distance (n : Few)
deriving DecidableEq

namespace Op

/-- All operators in the order of their codes. -/
def all : List Op :=
  [add, sub, mul, div, neg, sumexp, lse,
   sumsq .two, sumsq .three, sumsq .four, sumsq .five,
   distance .two, distance .three, distance .four, distance .five]

def symbol : Op → String
  | add => "+"
  | sub => "-"
  | mul => "*"
  | div => "/"
  | neg => "negate"
  | sumexp => "sumexp"
  | lse => "lse"
  | sumsq .two => "sumsq2"
  | sumsq .three => "sumsq3"
  | sumsq .four => "sumsq4"
  | sumsq .five => "sumsq5"
  | distance .two => "distance2"
  | distance .three => "distance3"
  | distance .four => "distance4"
  | distance .five => "distance5"

def name : Op → String
  | add => "ADD"
  | sub => "SUB"
  | mul => "MUL"
  | div => "DIV"
  | neg => "NEG"
  | sumexp => "SUMEXP"
  | lse => "LSE"
  | sumsq .two => "SUMSQ2"
  | sumsq .three => "SUMSQ3"
  | sumsq .four => "SUMSQ4"
  | sumsq .five => "SUMSQ5"
  | distance .two => "DISTANCE2"
  | distance .three => "DISTANCE3"
  | distance .four => "DISTANCE4"
  | distance .five => "DISTANCE5"

def code (op : Op) : Nat := all.idxOf op

def bySymbol : List Op := all.mergeSort fun a b => a.symbol ≤ b.symbol

/-- The operand count of an operator, or none where any count will do. -/
def arity : Op → Option Nat
  | add | sub | mul | div => some 2
  | neg => some 1
  | sumexp | lse => none
  | sumsq n | distance n => some n.count

/-- The arity as a table of operators shows it, with a number below zero where any count will do.
-/
def arityCode (op : Op) : Int := (op.arity.map Int.ofNat).getD (-1)

def accepts (op : Op) (count : Nat) : Bool :=
  match op.arity with
  | none => true
  | some n => count = n

def acceptsInt (op : Op) (count : Int) : Bool :=
  match op.arity with
  | none => true
  | some n => count = n

def ofSymbol? (s : String) : Option Op := all.find? (·.symbol = s)

def ofCode? (code : Int) : Option Op :=
  if 0 ≤ code then all[code.toNat]? else none

theorem mem_all (op : Op) : op ∈ all := by
  rcases op with _ | _ | _ | _ | _ | _ | _ | ⟨_ | _ | _ | _⟩ | ⟨_ | _ | _ | _⟩ <;> decide

theorem ofSymbol?_symbol (op : Op) : ofSymbol? op.symbol = some op := by
  rcases op with _ | _ | _ | _ | _ | _ | _ | ⟨_ | _ | _ | _⟩ | ⟨_ | _ | _ | _⟩ <;> decide

theorem symbol_of_ofSymbol? {s : String} {op : Op} (h : ofSymbol? s = some op) : op.symbol = s := by
  simpa using List.find?_some h

theorem symbol_inj {a b : Op} (h : a.symbol = b.symbol) : a = b := by
  have ha := ofSymbol?_symbol a
  rw [h, ofSymbol?_symbol] at ha
  exact (Option.some.inj ha).symm

theorem ofCode?_code (op : Op) : ofCode? op.code = some op := by
  rcases op with _ | _ | _ | _ | _ | _ | _ | ⟨_ | _ | _ | _⟩ | ⟨_ | _ | _ | _⟩ <;> decide

theorem code_getElem : ∀ i : Fin all.length, all[i].code = i := by decide

theorem ofCode?_eq_some_iff {n : Int} {op : Op} : ofCode? n = some op ↔ n = op.code := by
  constructor
  · intro h
    obtain ⟨nonneg, h⟩ := Option.ite_none_right_eq_some.mp h
    obtain ⟨bound, rfl⟩ := List.getElem?_eq_some_iff.mp h
    have place : all[n.toNat].code = n.toNat := code_getElem ⟨n.toNat, bound⟩
    rw [place, Int.toNat_of_nonneg nonneg]
  · rintro rfl
    exact ofCode?_code op

end Op

end Formulae
