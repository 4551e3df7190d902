import Formulae.Decimal
import Formulae.Refusal
/-!
Values from outside that may stand where a term or a number is wanted. Booleans are equal to the
numbers zero and one, and the order of a record's fields carries no meaning. As a number a text
stands for the one that it spells, a boolean for zero or one, and lists stand for arrays, at any
depth.
-/
namespace Formulae

inductive Foreign
  | null
  | bool (b : Bool)
  | integer (n : Int)
  | real (v : Double)
  | text (s : String)
  | list (items : List Foreign)
  | record (fields : List (String × Foreign))

namespace Foreign

def typeName : Foreign → String
  | null => "NoneType"
  | bool _ => "bool"
  | integer _ => "int"
  | real _ => "float"
  | text _ => "str"
  | list _ => "list"
  | record _ => "dict"

def integer? : Foreign → Option Int
  | bool b => some (if b then 1 else 0)
  | integer n => some n
  | real v => v.toInt?
  | _ => none

def sameReal : Double → Double → Bool
  | .nan, _ => false
  | a, b => a = b

mutual

def same : Foreign → Foreign → Bool
  | null, null => true
  | text s, text t => s = t
  | list xs, list ys => sameAll xs ys
  | record fs, record gs => fs.length = gs.length && sameFields fs gs
  | real v, real w => v.toInt?.isSome && v.toInt? = w.toInt? || sameReal v w
  | a, b => a.integer?.isSome && a.integer? = b.integer?

def sameAll : List Foreign → List Foreign → Bool
  | [], [] => true
  | x :: xs, y :: ys => same x y && sameAll xs ys
  | _, _ => false

def sameFields : List (String × Foreign) → List (String × Foreign) → Bool
  | [], _ => true
  | (key, x) :: fs, gs =>
    (match gs.lookup key with
      | some y => same x y
      | none => false) && sameFields fs gs

end

mutual

/-- A value as an expression of the language that it comes from. -/
def construction : Foreign → String
  | null => "None"
  | bool b => if b then "True" else "False"
  | integer n => toString n
  | real v => v.decimalText
  | text s => Text.quote s
  | list items => "[" ++ ", ".intercalate (constructions items) ++ "]"
  | record fields => "\x7b" ++ ", ".intercalate (fieldConstructions fields) ++ "\x7d"

def constructions : List Foreign → List String
  | [] => []
  | v :: vs => construction v :: constructions vs

def fieldConstructions : List (String × Foreign) → List String
  | [] => []
  | (key, v) :: fields =>
    (Text.quote key ++ ": " ++ construction v) :: fieldConstructions fields

end

/-! ## Numbers and arrays -/

def number : Foreign → Except Refusal Double
  | .text s =>
    match Decimal.read? s with
    | some v => .ok v
    | none => .error (.unreadableNumber s)
  | .integer n =>
    match Double.ofInt? n with
    | some v => .ok v
    | none => .error .integerTooLarge
  | .bool b => .ok (if b then .one else .zero false)
  | .real v => .ok v
  | v => .error (.notNumeric v.typeName)

mutual

/-- A value with every text replaced by the number that it spells; the first that spells none is at
fault. -/
def spelled : Foreign → Except Refusal Foreign
  | .text s =>
    match number (.text s) with
    | .ok v => .ok (.real v)
    | .error e => .error e
  | .list items =>
    match spelledAll items with
    | .ok vs => .ok (.list vs)
    | .error e => .error e
  | v => .ok v

def spelledAll : List Foreign → Except Refusal (List Foreign)
  | [] => .ok []
  | v :: vs =>
    match spelled v with
    | .error e => .error e
    | .ok w =>
      match spelledAll vs with
      | .error e => .error e
      | .ok ws => .ok (w :: ws)

end

/-- The number of an entry in an array, where null stands for none. -/
def entry : Foreign → Except Refusal Double
  | .null => .ok .nan
  | v => number v

def entries : List Foreign → Except Refusal (List Double)
  | [] => .ok []
  | v :: vs =>
    match entry v with
    | .error e => .error e
    | .ok n =>
      match entries vs with
      | .error e => .error e
      | .ok ns => .ok (n :: ns)

mutual

def nested : Foreign → Nested Foreign
  | .list items => .node (nestedAll items)
  | v => .leaf v

def nestedAll : List Foreign → List (Nested Foreign)
  | [] => []
  | v :: vs => nested v :: nestedAll vs

end

/-- The array of a value without texts. Its shape has to be right before its entries are read; axes
past the most that an array has are not looked at. -/
def array (v : Foreign) : Except Refusal (Tensor Double) :=
  let n := nested v
  match n.shape with
  | .error agreed =>
    .error (if agreed.length < Shape.maxRank then .ragged agreed else .tooDeep)
  | .ok shape =>
    if shape.length ≤ Shape.maxRank then
      match entries n.entries with
      | .ok ns => .ok ⟨shape, ns⟩
      | .error e => .error e
    else .error .tooDeep

/-- The array of a value, whose texts are read before its shape is looked at. -/
def tensor (v : Foreign) : Except Refusal (Tensor Double) :=
  match spelled v with
  | .ok w => array w
  | .error e => .error e

/-- A number on its own is a column of one entry. -/
def column (v : Foreign) : Except Refusal (List Double) :=
  match tensor v with
  | .ok t => .ok t.entries
  | .error e => .error e

def columns : List Foreign → Except Refusal (List (List Double))
  | [] => .ok []
  | v :: vs =>
    match column v with
    | .error e => .error e
    | .ok c =>
      match columns vs with
      | .error e => .error e
      | .ok cs => .ok (c :: cs)

end Foreign

end Formulae
