import Formulae.Double
import Formulae.Operator
/-!
Arithmetics in which operators can be computed, among them that of the machine. A sum starts at zero
and takes its terms in order. An operator with too few operands has no value, and operands past the
last that it uses are ignored.
-/
namespace Formulae

universe u

structure Arithmetic (α : Type u) where
  zero : α
  ofDouble : Double → α
  add : α → α → α
  sub : α → α → α
  mul : α → α → α
  div : α → α → α
  neg : α → α
  exp : α → α
  log : α → α
  sqrt : α → α

inductive Reduction
  | exponentials
  | logOfExponentials
  | squares
  | rootOfSquares
deriving DecidableEq

namespace Arithmetic

variable {α : Type u} (A : Arithmetic α)

def summand : Reduction → α → α
  | .exponentials | .logOfExponentials => A.exp
  | .squares | .rootOfSquares => fun a => A.mul a a

def finish : Reduction → α → α
  | .exponentials | .squares => id
  | .logOfExponentials => A.log
  | .rootOfSquares => A.sqrt

def total (f : α → α) (as : List α) : α := as.foldl (fun s a => A.add s (f a)) A.zero

def reduce (r : Reduction) (as : List α) : α := A.finish r (A.total (A.summand r) as)

inductive Role (α : Type u)
  | binary (f : α → α → α)
  | unary (f : α → α)
  | many (r : Reduction)

def role : Op → Role α
  | .add => .binary A.add
  | .sub => .binary A.sub
  | .mul => .binary A.mul
  | .div => .binary A.div
  | .neg => .unary A.neg
  | .sumexp => .many .exponentials
  | .lse => .many .logOfExponentials
  | .sumsq _ => .many .squares
  | .distance _ => .many .rootOfSquares

def combine? (op : Op) (as : List α) : Option α :=
  match A.role op, as with
  | .binary f, a :: b :: _ => some (f a b)
  | .unary f, a :: _ => some (f a)
  | .many r, as => some (A.reduce r as)
  | _, _ => none

end Arithmetic

namespace Double

def lift (f : Float → Float) (v : Double) : Double := ofFloat (f v.toFloat)

def lift₂ (f : Float → Float → Float) (v w : Double) : Double := ofFloat (f v.toFloat w.toFloat)

def arithmetic : Arithmetic Double where
  zero := zero false
  ofDouble := id
  add := lift₂ (· + ·)
  sub := lift₂ (· - ·)
  mul := lift₂ (· * ·)
  div := lift₂ (· / ·)
  neg := lift (- ·)
  exp := lift Float.exp
  log := lift Float.log
  sqrt := lift Float.sqrt

end Double

end Formulae
