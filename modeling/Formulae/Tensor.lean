import Formulae.Double
/-!
Arrays as a shape and its entries in row-major order, and as nested lists. Shapes are aligned at
their last axis; on each axis an extent of one, or an axis that is absent, stretches to the extent
of the others, which have to agree. Entries of a list are also given by positions, of which negative
ones count back from the end.
-/
namespace Formulae

abbrev Shape := List Nat

namespace Shape

def maxRank : Nat := 64

/-- An array that is to be stretched has at most this many axes. -/
def maxStretchedRank : Nat := 32

def volume (s : Shape) : Nat := s.foldr (· * ·) 1

/-- The text of a shape, which for a single axis ends in a comma. -/
def text : Shape → String
  | [] => "()"
  | [n] => s!"({n},)"
  | s => "(" ++ ", ".intercalate (s.map toString) ++ ")"

def sharedStart : Shape → Shape → Shape
  | d :: s, e :: t => if d = e then d :: sharedStart s t else []
  | _, _ => []

/-- The extent on an axis of `rank`, counted from the first. -/
def extent (rank axis : Nat) (s : Shape) : Nat :=
  (List.replicate (rank - s.length) 1 ++ s)[axis]?.getD 1

/-- Two shapes, by position, that cannot be stretched to one. -/
structure Mismatch where
  first : Nat
  firstShape : Shape
  second : Nat
  secondShape : Shape
deriving DecidableEq

/-- The common extent of an axis from the given extents on, the first of which has position `j`.
So far the extent is `e`, set by the shape at `source`; a failure names two positions. -/
def meet (e source j : Nat) : List Nat → Except (Nat × Nat) Nat
  | [] => .ok e
  | d :: ds =>
    if d = 1 then meet e source (j + 1) ds
    else if e = 1 then meet d j (j + 1) ds
    else if d = e then meet e source (j + 1) ds
    else .error (source, j)

def rank (shapes : List Shape) : Nat := (shapes.map List.length).foldl max 0

/-- The common extents of the axes from `axis` on, `n` of them. -/
def meetAxes (shapes : List Shape) : Nat → Nat → Except (Nat × Nat) Shape
  | _, 0 => .ok []
  | axis, n + 1 =>
    match meet 1 0 0 (shapes.map (extent (rank shapes) axis)) with
    | .error e => .error e
    | .ok d =>
      match meetAxes shapes (axis + 1) n with
      | .error e => .error e
      | .ok ds => .ok (d :: ds)

/-- The common shape, or the first two shapes in disagreement on the first axis that has some. -/
def common (shapes : List Shape) : Except Mismatch Shape :=
  match meetAxes shapes 0 (rank shapes) with
  | .ok s => .ok s
  | .error (i, j) => .error ⟨i, shapes[i]?.getD [], j, shapes[j]?.getD []⟩

/-- All index tuples of a shape, the last axis running fastest. -/
def indices : Shape → List (List Nat)
  | [] => [[]]
  | n :: s => (List.range n).flatMap fun i => (indices s).map (i :: ·)

theorem length_indices (s : Shape) : s.indices.length = s.volume := by
  induction s with
  | nil => rfl
  | cons n s ih =>
    simp only [indices, List.length_flatMap, List.length_map, ih, List.map_const',
      List.length_range, List.sum_replicate_nat]
    rfl

end Shape

/-! ## Arrays -/

universe u

inductive Nested (α : Type u)
  | leaf (a : α)
  | node (items : List (Nested α))

structure Tensor (α : Type u) where
  shape : Shape
  entries : List α

namespace Nested

variable {α : Type u}

mutual

/-- The shape, if all items on a level have the same one; else the axes before the first on which
some differ. -/
def shape : Nested α → Except Shape Shape
  | leaf _ => .ok []
  | node items =>
    match commonShape items with
    | .ok s => .ok (items.length :: s)
    | .error s => .error (items.length :: s)

def commonShape : List (Nested α) → Except Shape Shape
  | [] => .ok []
  | [item] => shape item
  | item :: items =>
    match shape item, commonShape items with
    | .ok s, .ok t => if s = t then .ok s else .error (s.sharedStart t)
    | .ok s, .error t | .error s, .ok t | .error s, .error t => .error (s.sharedStart t)

end

mutual

def entries : Nested α → List α
  | leaf a => [a]
  | node items => entriesAll items

def entriesAll : List (Nested α) → List α
  | [] => []
  | item :: items => entries item ++ entriesAll items

end

end Nested

namespace Tensor

variable {α : Type u}

def scalar (a : α) : Tensor α := ⟨[], [a]⟩

def ofList (xs : List α) : Tensor α := ⟨[xs.length], xs⟩

def pieces (width : Nat) : Nat → List α → List (List α)
  | 0, _ => []
  | count + 1, xs => xs.take width :: pieces width count (xs.drop width)

theorem length_pieces (width count : Nat) (xs : List α) :
    (pieces width count xs).length = count := by
  induction count generalizing xs with
  | zero => rfl
  | succ count ih => simp [pieces, ih]

def nest : Shape → List α → Nested α
  | [], xs => (xs.head?.map .leaf).getD (.node [])
  | n :: s, xs => .node ((pieces (Shape.volume s) n xs).map (nest s))

def nested (t : Tensor α) : Nested α := nest t.shape t.entries

def rows? (t : Tensor α) : Option (List (List α)) :=
  match t.shape with
  | [n, width] => some (pieces width n t.entries)
  | _ => none

/-- The entries at one index of the second axis, on all others; there are none without such an
index. -/
def atSecond (t : Tensor α) (index : Nat) : Tensor α :=
  match t.shape with
  | n :: width :: s =>
    if index < width then
      let depth := Shape.volume s
      let blocks := pieces (width * depth) n t.entries
      ⟨n :: s, blocks.flatMap fun b => (b.drop (index * depth)).take depth⟩
    else ofList []
  | _ => ofList []

/-- The position of an index tuple, which stays at zero on every axis of extent one. -/
def position : Shape → List Nat → Nat
  | d :: s, i :: is => (if d = 1 then 0 else i) * Shape.volume s + position s is
  | _, _ => 0

/-- The entry that an index tuple of a wider shape reads; axes that are absent here are skipped.
-/
def read? (t : Tensor α) (index : List Nat) : Option α :=
  t.entries[position t.shape (index.drop (index.length - t.shape.length))]?

end Tensor

/-! ## Positions -/

namespace Position

variable {α : Type u}

def get? (xs : List α) : Int → Option α
  | .ofNat n => xs[n]?
  | .negSucc n => xs.reverse[n]?

def isWord (i : Int) : Bool := -(twoTo 63 : Int) ≤ i && i < (twoTo 63 : Int)

end Position

end Formulae
