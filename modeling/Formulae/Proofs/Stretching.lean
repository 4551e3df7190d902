import Formulae.Proofs.CommonShape
import Formulae.Proofs.TableValue
/-!
Evaluation at arrays. Where the shapes of the three arrays agree, the values fill an array of their
common shape, whatever variables the term reads. The value at an index tuple is the one at the
three numbers that the arrays have there; an array of extent one on an axis repeats its only entry
along it, and one without the axis repeats itself.
-/
namespace Formulae

universe u

variable {α : Type u}

namespace Shape

/-- The index tuple at which an array of this shape is read. Axes that it lacks are left out, and
on those of extent one the index stays at zero. -/
def clamp (s : Shape) (index : List Nat) : List Nat :=
  List.zipWith (fun d i => if d = 1 then 0 else i) s (index.drop (index.length - s.length))

theorem length_of_contains {s : Shape} {index : List Nat} (inside : s.Contains index) :
    index.length = s.length :=
  inside.length_eq

theorem aligned {s out : Shape} (wide : s.length ≤ out.length)
    (stretches : ∀ k d e, fromLast out k = some d → fromLast s k = some e → e = 1 ∨ e = d) :
    List.Forall₂ (fun e d => e = 1 ∨ e = d) s (out.drop (out.length - s.length)) := by
  rw [List.forall₂_iff_get]
  refine ⟨by rw [List.length_drop]; omega, ?_⟩
  intro i hi hi'
  have here : fromLast s (s.length - 1 - i) = some (s.get ⟨i, hi⟩) := by
    have back : s.length - 1 - (s.length - 1 - i) = i := by omega
    rw [fromLast_eq (by omega), back]
    exact List.getElem?_eq_getElem hi
  have there : fromLast out (s.length - 1 - i)
      = some ((out.drop (out.length - s.length)).get ⟨i, hi'⟩) := by
    have back : out.length - 1 - (s.length - 1 - i) = out.length - s.length + i := by omega
    rw [fromLast_eq (by omega), back, ← List.getElem?_drop]
    exact List.getElem?_eq_getElem hi'
  exact stretches _ _ _ there here

theorem contains_zipWith {s out : Shape} {index : List Nat}
    (h : List.Forall₂ (fun e d => e = 1 ∨ e = d) s out) (inside : out.Contains index) :
    s.Contains (List.zipWith (fun d i => if d = 1 then 0 else i) s index) := by
  induction h generalizing index with
  | nil =>
    cases inside
    exact .nil
  | @cons e d s out first _ ih =>
    obtain ⟨i, is, hi, his, rfl⟩ := List.forall₂_cons_right_iff.mp inside
    have below : (if e = 1 then 0 else i) < e := by
      split <;> omega
    exact .cons below (ih his)

theorem contains_clamp {s out : Shape} {index : List Nat} (wide : s.length ≤ out.length)
    (stretches : ∀ k d e, fromLast out k = some d → fromLast s k = some e → e = 1 ∨ e = d)
    (inside : out.Contains index) : s.Contains (s.clamp index) := by
  rw [clamp, length_of_contains inside]
  exact contains_zipWith (aligned wide stretches) (List.forall₂_drop _ inside)

end Shape

namespace Tensor

theorem position_zipWith (s : Shape) (index : List Nat) :
    position s (List.zipWith (fun d i => if d = 1 then 0 else i) s index) = position s index := by
  induction s generalizing index with
  | nil => rfl
  | cons d s ih =>
    cases index with
    | nil => rfl
    | cons i is =>
      rw [List.zipWith_cons_cons, position, position, ih]
      split <;> rfl

theorem read?_eq {x : Tensor α} (full : x.Full) {index : List Nat}
    (inside : x.shape.Contains (x.shape.clamp index)) :
    x.read? index = x.at? (x.shape.clamp index) := by
  rw [at?_eq full inside, Shape.clamp, position_zipWith, read?]

end Tensor

namespace Term

variable {x y z : Tensor α}

/-- The numbers that three arrays have at an index tuple of their common shape. -/
structure BoundAt (x y z : Tensor α) (index : List Nat) (row : Row α) : Prop where
  x : x.at? (x.shape.clamp index) = some row.x
  y : y.at? (y.shape.clamp index) = some row.y
  z : z.at? (z.shape.clamp index) = some row.z

def boundRow (A : Arithmetic α) (x y z : Tensor α) (index : List Nat) : Row α :=
  (rowAt? x y z index).getD ⟨A.zero, A.zero, A.zero⟩

theorem boundAt_boundRow (A : Arithmetic α) (full : x.Full ∧ y.Full ∧ z.Full) {out : Shape}
    (common : Shape.IsCommon [x.shape, y.shape, z.shape] out) {index : List Nat}
    (inside : out.Contains index) :
    rowAt? x y z index = some (boundRow A x y z index)
      ∧ BoundAt x y z index (boundRow A x y z index) := by
  have within : ∀ s ∈ [x.shape, y.shape, z.shape], Shape.Contains s (Shape.clamp s index) :=
    fun s hs => Shape.contains_clamp (common.wide s hs) (common.stretches s hs) inside
  have hx := within x.shape (by simp)
  have hy := within y.shape (by simp)
  have hz := within z.shape (by simp)
  obtain ⟨a, ha⟩ := Tensor.exists_at? full.1 hx
  obtain ⟨b, hb⟩ := Tensor.exists_at? full.2.1 hy
  obtain ⟨c, hc⟩ := Tensor.exists_at? full.2.2 hz
  have read : rowAt? x y z index = some ⟨a, b, c⟩ := by
    rw [rowAt?, Tensor.read?_eq full.1 hx, Tensor.read?_eq full.2.1 hy,
      Tensor.read?_eq full.2.2 hz, ha, hb, hc]
  rw [boundRow, read, Option.getD_some]
  exact ⟨rfl, ha, hb, hc⟩

theorem find?_narrow {shapes : List Shape}
    (narrow : ∀ s ∈ shapes, s.length ≤ Shape.maxStretchedRank) :
    shapes.find? (Shape.maxStretchedRank < ·.length) = none := by
  rw [List.find?_eq_none]
  intro s hs
  simpa using narrow s hs

theorem evaluate_mismatch (A : Arithmetic α) (t : Term)
    (narrow : ∀ s ∈ [x.shape, y.shape, z.shape], s.length ≤ Shape.maxStretchedRank)
    {m : Shape.Mismatch} (failed : Shape.common [x.shape, y.shape, z.shape] = .error m) :
    t.evaluate A x y z = .error (.mismatch m) := by
  simp only [evaluate, find?_narrow narrow, failed]

theorem evaluate_common (A : Arithmetic α) {t : Term} (wf : t.WellFormed)
    (full : x.Full ∧ y.Full ∧ z.Full)
    (narrow : ∀ s ∈ [x.shape, y.shape, z.shape], s.length ≤ Shape.maxStretchedRank)
    {out : Shape} (common : Shape.common [x.shape, y.shape, z.shape] = .ok out) :
    t.evaluate A x y z
      = .ok ⟨out, out.indices.map fun index => t.value A (boundRow A x y z index)⟩ := by
  have isCommon := Shape.isCommon_of_common common
  have each : ∀ index ∈ out.indices, rowAt? x y z index = some (boundRow A x y z index) :=
    fun index mem => (boundAt_boundRow A full isCommon (Tensor.mem_indices.mp mem)).1
  have rows : out.indices.filterMap (rowAt? x y z) = out.indices.map (boundRow A x y z) :=
    (List.filterMap_congr each).trans (congrFun List.filterMap_eq_map out.indices)
  simp only [evaluate, find?_narrow narrow, common, rows, columnOn_eq A _ wf, List.map_map,
    Function.comp_def]

/-- A shape that is too long for stretching, no shape before it being so. -/
def FirstTooLong (shapes : List Shape) (s : Shape) : Prop :=
  Shape.maxStretchedRank < s.length ∧ ∃ before after, shapes = before ++ s :: after
    ∧ ∀ r ∈ before, r.length ≤ Shape.maxStretchedRank

theorem find?_eq_some_iff_firstTooLong {shapes : List Shape} {s : Shape} :
    shapes.find? (Shape.maxStretchedRank < ·.length) = some s ↔ FirstTooLong shapes s := by
  simp [List.find?_eq_some_iff_append, FirstTooLong]

theorem evaluate_wide (A : Arithmetic α) (t : Term) {s : Shape}
    (wide : FirstTooLong [x.shape, y.shape, z.shape] s) :
    t.evaluate A x y z = .error (.tooManyAxes s.length) := by
  simp only [evaluate, find?_eq_some_iff_firstTooLong.mpr wide]

theorem exists_firstTooLong {shapes : List Shape}
    (wide : ∃ s ∈ shapes, Shape.maxStretchedRank < s.length) : ∃ s, FirstTooLong shapes s := by
  obtain ⟨s, hs, long⟩ := wide
  cases first : shapes.find? (Shape.maxStretchedRank < ·.length) with
  | none => exact absurd (decide_eq_true long) (List.find?_eq_none.mp first s hs)
  | some s' => exact ⟨s', find?_eq_some_iff_firstTooLong.mp first⟩

/-- Arrays of at most as many axes as can be stretched are refused just where their shapes do not
agree. Else the values fill an array of the common shape, and the one at an index tuple is the value
at the numbers that the three arrays have there. Arrays of more axes are refused for that alone, and
the refusal names the number of axes of the first of them. -/
theorem evaluate_stretched (A : Arithmetic α) (t : Term) (wf : t.WellFormed) (x y z : Tensor α)
    (full : x.Full ∧ y.Full ∧ z.Full) :
    let shapes := [x.shape, y.shape, z.shape]
    ((∀ s ∈ shapes, s.length ≤ Shape.maxStretchedRank) →
      ((∃ m, t.evaluate A x y z = .error (.mismatch m)) ↔ ¬ Shape.Agree shapes)
        ∧ (Shape.Agree shapes → ∃ out, t.evaluate A x y z = .ok out
          ∧ Shape.IsCommon shapes out.shape ∧ out.Full
          ∧ ∀ index, out.shape.Contains index → ∃ row a, BoundAt x y z index row
            ∧ t.evaluateAt A row = .ok (.scalar a) ∧ out.at? index = some a))
      ∧ ((∃ s ∈ shapes, Shape.maxStretchedRank < s.length) →
        ∃ s, FirstTooLong shapes s ∧ t.evaluate A x y z = .error (.tooManyAxes s.length)) := by
  intro shapes
  have refused (wide : ∃ s ∈ shapes, Shape.maxStretchedRank < s.length) :
      ∃ s, FirstTooLong shapes s ∧ t.evaluate A x y z = .error (.tooManyAxes s.length) := by
    obtain ⟨s, first⟩ := exists_firstTooLong wide
    exact ⟨s, first, evaluate_wide A t first⟩
  refine ⟨fun narrow => ?_, refused⟩
  rcases Shape.common_cases shapes with ⟨⟨m, failed⟩, apart⟩ | ⟨shape, common, isCommon, agree⟩
  · have refused := evaluate_mismatch A t narrow failed
    exact ⟨⟨fun _ => apart, fun _ => ⟨m, refused⟩⟩, fun agree => absurd agree apart⟩
  · have found := evaluate_common A wf full narrow common
    refine ⟨⟨?_, fun apart => absurd agree apart⟩, ?_⟩
    · rintro ⟨m, refused⟩
      rw [found] at refused
      cases refused
    · intro _
      refine ⟨_, found, isCommon, Tensor.full_tabulate _ _, ?_⟩
      intro index inside
      exact ⟨_, _, (boundAt_boundRow A full isCommon inside).2, evaluateAt_eq A _ wf,
        Tensor.at?_tabulate inside _⟩

theorem evaluate_stretched_grid :
    let t : Term := .app .sub [.var .x, .var .y]
    let x : Tensor Double := ⟨[2, 1], [.one, .two]⟩
    let y : Tensor Double := ⟨[3], [.zero false, .one, .two]⟩
    let z : Tensor Double := .scalar .nan
    t.WellFormed ∧ (x.Full ∧ y.Full ∧ z.Full)
      ∧ ∃ out, t.evaluate Double.arithmetic x y z = .ok out ∧ out.shape = [2, 3]
        ∧ out.at? [1, 2] = some (.zero false) := by
  intro t x y z
  have wf : t.WellFormed := by decide
  have full : x.Full ∧ y.Full ∧ z.Full := ⟨rfl, rfl, rfl⟩
  have narrow : ∀ s ∈ [x.shape, y.shape, z.shape], s.length ≤ Shape.maxStretchedRank := by decide
  have common : Shape.common [x.shape, y.shape, z.shape] = .ok [2, 3] := by rfl
  have agree : Shape.Agree [x.shape, y.shape, z.shape] := (Shape.isCommon_of_common common).agree
  have found := evaluate_common Double.arithmetic wf full narrow common
  obtain ⟨out, evaluated, -, -, entries⟩ :=
    ((evaluate_stretched Double.arithmetic t wf x y z full).1 narrow).2 agree
  have shape : out.shape = [2, 3] := by
    rw [found] at evaluated
    cases evaluated
    rfl
  have inside : out.shape.Contains [1, 2] := by
    rw [shape]
    exact .cons (by decide) (.cons (by decide) .nil)
  obtain ⟨⟨a, b, c⟩, v, ⟨hx, hy, -⟩, single, entry⟩ := entries [1, 2] inside
  have ha : Double.two = a := Option.some.inj hx
  have hb : Double.two = b := Option.some.inj hy
  refine ⟨wf, full, out, evaluated, shape, ?_⟩
  rw [evaluateAt_eq _ _ wf] at single
  cases single
  have difference : Double.arithmetic.sub .two .two = .zero false := by decide +kernel
  rw [entry, ← ha, ← hb]
  exact congrArg some difference

/-- An array of more axes than can be stretched is refused, though no other has any axis. -/
theorem not_evaluate_of_agree :
    ¬ ∀ (t : Term) (x y z : Tensor Double), t.WellFormed → x.Full ∧ y.Full ∧ z.Full →
      ((∃ m, t.evaluate Double.arithmetic x y z = .error (.mismatch m))
          ↔ ¬ Shape.Agree [x.shape, y.shape, z.shape])
        ∧ (Shape.Agree [x.shape, y.shape, z.shape] →
          ∃ out, t.evaluate Double.arithmetic x y z = .ok out) := by
  intro claim
  let x : Tensor Double := ⟨List.replicate 33 1, [.one]⟩
  have agree : Shape.Agree [x.shape, [], []] := by
    have common : Shape.common [x.shape, [], []] = .ok (List.replicate 33 1) := by decide +kernel
    exact (Shape.isCommon_of_common common).agree
  obtain ⟨out, evaluated⟩ :=
    (claim (.var .x) x (.scalar .one) (.scalar .one) (by decide) ⟨rfl, rfl, rfl⟩).2 agree
  have wide : FirstTooLong [x.shape, [], []] x.shape := ⟨by decide, [], [[], []], rfl, by simp⟩
  have refused := evaluate_wide (y := .scalar .one) (z := .scalar .one) Double.arithmetic (.var .x)
    wide
  cases evaluated.symm.trans refused

end Term

end Formulae
