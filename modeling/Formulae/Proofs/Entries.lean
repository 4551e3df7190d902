import Formulae.Tensor
import Mathlib.Data.List.Forall2
/-!
Entries of arrays by index tuple. An array shown as nested lists is entered axis by axis; in an
array with one entry for each index tuple of its shape this reaches the entry that stands at the
row-major position of the tuple.
-/
namespace Formulae

universe u w

variable {α : Type u} {ι : Type w}

def Shape.Contains (s : Shape) (index : List Nat) : Prop := List.Forall₂ (· < ·) index s

namespace Nested

def get? : Nested α → List Nat → Option α
  | leaf a, [] => some a
  | node items, i :: is => items[i]?.bind (get? · is)
  | _, _ => none

end Nested

namespace Tensor

/-- There is one entry for each index tuple of the shape. -/
def Full (t : Tensor α) : Prop := t.entries.length = t.shape.volume

def at? (t : Tensor α) (index : List Nat) : Option α := t.nested.get? index

/-! ## Pieces -/

theorem pieces_flatMap {width : Nat} (f : ι → List α) (xs : List ι)
    (h : ∀ x ∈ xs, (f x).length = width) :
    pieces width xs.length (xs.flatMap f) = xs.map f := by
  induction xs with
  | nil => rfl
  | cons x xs ih =>
    obtain ⟨first, others⟩ := List.forall_mem_cons.mp h
    rw [List.flatMap_cons, List.length_cons, pieces, List.take_left' first, List.drop_left' first,
      ih others, List.map_cons]

theorem getElem?_pieces {width count i : Nat} (inside : i < count) (xs : List α) :
    (pieces width count xs)[i]? = some ((xs.drop (i * width)).take width) := by
  induction count generalizing i xs with
  | zero => exact absurd inside (Nat.not_lt_zero i)
  | succ count ih =>
    cases i with
    | zero => simp [pieces]
    | succ i =>
      rw [pieces, List.getElem?_cons_succ, ih (Nat.lt_of_succ_lt_succ inside), List.drop_drop,
        Nat.succ_mul, Nat.add_comm]

/-! ## Entries by position -/

theorem position_lt {s : Shape} {index : List Nat} (inside : s.Contains index) :
    position s index < s.volume := by
  induction inside with
  | nil => exact Nat.one_pos
  | @cons i d is s first _ ih =>
    have row : (if d = 1 then 0 else i) + 1 ≤ d := by
      split
      · omega
      · exact first
    calc
      position (d :: s) (i :: is) < (if d = 1 then 0 else i) * Shape.volume s + Shape.volume s :=
        Nat.add_lt_add_left ih _
      _ = ((if d = 1 then 0 else i) + 1) * Shape.volume s := (Nat.succ_mul _ _).symm
      _ ≤ d * Shape.volume s := Nat.mul_le_mul_right _ row

theorem get?_nest {s : Shape} {index : List Nat} (inside : s.Contains index) {xs : List α}
    (full : xs.length = s.volume) : (nest s xs).get? index = xs[position s index]? := by
  induction inside generalizing xs with
  | nil =>
    obtain ⟨a, rfl⟩ := List.length_eq_one_iff.mp full
    rfl
  | @cons i d is s first inside ih =>
    have index_eq : (if d = 1 then 0 else i) = i := by
      split
      · omega
      · rfl
    have volume : Shape.volume (d :: s) = d * Shape.volume s := rfl
    have room : i * Shape.volume s + Shape.volume s ≤ xs.length := by
      rw [full, volume, ← Nat.succ_mul]
      exact Nat.mul_le_mul_right _ first
    have width : ((xs.drop (i * Shape.volume s)).take (Shape.volume s)).length = Shape.volume s := by
      rw [List.length_take, List.length_drop]
      omega
    rw [nest, Nested.get?, List.getElem?_map, getElem?_pieces first, Option.map_some,
      Option.bind_some, ih width, List.getElem?_take_of_lt (position_lt inside),
      List.getElem?_drop, position, index_eq]

theorem at?_eq {t : Tensor α} (full : t.Full) {index : List Nat}
    (inside : t.shape.Contains index) : t.at? index = t.entries[position t.shape index]? :=
  get?_nest inside full

theorem exists_at? {t : Tensor α} (full : t.Full) {index : List Nat}
    (inside : t.shape.Contains index) : ∃ a, t.at? index = some a := by
  have bound : position t.shape index < t.entries.length := by
    rw [full]
    exact position_lt inside
  rw [at?_eq full inside]
  exact ⟨_, List.getElem?_eq_getElem bound⟩

/-! ## Arrays made entry by entry -/

theorem mem_indices {s : Shape} {index : List Nat} : index ∈ s.indices ↔ s.Contains index := by
  induction s generalizing index with
  | nil => simp [Shape.indices, Shape.Contains]
  | cons n s ih =>
    simp only [Shape.indices, List.mem_flatMap, List.mem_range, List.mem_map, ih, Shape.Contains,
      List.forall₂_cons_right_iff]
    constructor
    · rintro ⟨i, hi, is, his, rfl⟩
      exact ⟨i, is, hi, his, rfl⟩
    · rintro ⟨i, is, hi, his, rfl⟩
      exact ⟨i, hi, is, his, rfl⟩

theorem full_tabulate (s : Shape) (f : List Nat → α) : (⟨s, s.indices.map f⟩ : Tensor α).Full := by
  rw [Full, List.length_map, Shape.length_indices]

theorem get?_nest_tabulate {s : Shape} {index : List Nat} (inside : s.Contains index)
    (f : List Nat → α) : (nest s (s.indices.map f)).get? index = some (f index) := by
  induction inside generalizing f with
  | nil => rfl
  | @cons i d is s first _ ih =>
    have rows : pieces (Shape.volume s) d ((Shape.indices (d :: s)).map f)
        = (List.range d).map fun i => (Shape.indices s).map fun is => f (i :: is) := by
      have block : ∀ i ∈ List.range d,
          (((Shape.indices s).map (i :: ·)).map f).length = Shape.volume s := by
        intro i _
        rw [List.length_map, List.length_map, Shape.length_indices]
      have cut := pieces_flatMap _ _ block
      rw [List.length_range] at cut
      rw [Shape.indices, List.map_flatMap, cut]
      simp only [List.map_map, Function.comp_def]
    rw [nest, rows, Nested.get?, List.map_map, List.getElem?_map, List.getElem?_range first,
      Option.map_some, Option.bind_some]
    exact ih fun is => f (i :: is)

/-- An array made of a value for each index tuple has that value there. -/
theorem at?_tabulate {s : Shape} {index : List Nat} (inside : s.Contains index)
    (f : List Nat → α) : (⟨s, s.indices.map f⟩ : Tensor α).at? index = some (f index) :=
  get?_nest_tabulate inside f

end Tensor

end Formulae
