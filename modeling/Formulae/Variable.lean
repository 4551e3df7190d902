/-!
The three variables of a formula, their columns in a table of bindings, and rows of values for them.
-/
namespace Formulae

universe u

inductive Variable
  | x | y | z
deriving DecidableEq

namespace Variable

def all : List Variable := [x, y, z]

def name : Variable → String
  | x => "x"
  | y => "y"
  | z => "z"

def column : Variable → Nat
  | x => 0
  | y => 1
  | z => 2

def ofName? (s : String) : Option Variable := all.find? (·.name = s)

def listing : String := ", ".intercalate (all.map name)

theorem mem_all (v : Variable) : v ∈ all := by cases v <;> decide

theorem ofName?_name (v : Variable) : ofName? v.name = some v := by cases v <;> decide

theorem name_of_ofName? {s : String} {v : Variable} (h : ofName? s = some v) : v.name = s := by
  simpa using List.find?_some h

end Variable

structure Row (α : Type u) where
  x : α
  y : α
  z : α
deriving DecidableEq

namespace Row

variable {α : Type u}

def get (r : Row α) : Variable → α
  | .x => r.x
  | .y => r.y
  | .z => r.z

def ofList? : List α → Option (Row α)
  | x :: y :: z :: _ => some ⟨x, y, z⟩
  | _ => none

end Row

end Formulae
