import Formulae.Tensor
import Formulae.Term.Measure
import Mathlib.Data.List.Forall2
/-!
The common shape of several arrays. Shapes agree where on each axis, counted from the last, their
extents are equal or one of them is one. Just then there is a common shape: it has as many axes as
the longest shape has, and on each of them the extent of some shape, to which all others are equal
or stretch from one.
-/
namespace Formulae.Shape

def fromLast (s : Shape) (k : Nat) : Option Nat := s.reverse[k]?

/-- On each axis, two extents are equal or one of them is one. -/
def Agree (shapes : List Shape) : Prop :=
  ∀ s ∈ shapes, ∀ s' ∈ shapes, ∀ k d d', fromLast s k = some d → fromLast s' k = some d' →
    d = d' ∨ d = 1 ∨ d' = 1

/-- The shape to which several ones stretch, with nothing in it that they do not ask for. -/
structure IsCommon (shapes : List Shape) (out : Shape) : Prop where
  wide : ∀ s ∈ shapes, s.length ≤ out.length
  stretches : ∀ s ∈ shapes, ∀ k d e, fromLast out k = some d → fromLast s k = some e →
    e = 1 ∨ e = d
  attained : ∀ k d, fromLast out k = some d → ∃ s ∈ shapes, fromLast s k = some d

theorem fromLast_eq {s : Shape} {k : Nat} (inside : k < s.length) :
    fromLast s k = s[s.length - 1 - k]? :=
  List.getElem?_reverse inside

theorem exists_fromLast {s : Shape} {k : Nat} : (∃ d, fromLast s k = some d) ↔ k < s.length := by
  rw [← Option.isSome_iff_exists, fromLast, isSome_getElem?, List.length_reverse]

/-! ## One axis -/

theorem exists_meet_cons {e d : Nat} (fits : d = 1 ∨ e = 1 ∨ d = e) (source j : Nat)
    (ds : List Nat) :
    ∃ source', meet e source j (d :: ds) = meet (if d = 1 then e else d) source' (j + 1) ds := by
  by_cases one : d = 1
  · exact ⟨source, by rw [meet, if_pos one, if_pos one]⟩
  · by_cases open_ : e = 1
    · exact ⟨j, by rw [meet, if_neg one, if_pos open_, if_neg one]⟩
    · have same : d = e := (fits.resolve_left one).resolve_left open_
      exact ⟨source, by rw [meet, if_neg one, if_neg open_, if_pos same, if_neg one, same]⟩

theorem meet_cons_of_ne {e d : Nat} (apart : ¬ (d = 1 ∨ e = 1 ∨ d = e)) (source j : Nat)
    (ds : List Nat) : meet e source j (d :: ds) = .error (source, j) := by
  rw [not_or, not_or] at apart
  rw [meet, if_neg apart.1, if_neg apart.2.1, if_neg apart.2.2]

theorem meet_ok {e source j extent : Nat} {ds : List Nat} (h : meet e source j ds = .ok extent) :
    (∀ d ∈ e :: ds, d = 1 ∨ d = extent) ∧ extent ∈ e :: ds := by
  induction ds generalizing e source j with
  | nil =>
    cases h
    simp
  | cons d ds ih =>
    by_cases fits : d = 1 ∨ e = 1 ∨ d = e
    · obtain ⟨source', next⟩ := exists_meet_cons fits source j ds
      obtain ⟨all, mem⟩ := ih (next.symm.trans h)
      grind
    · rw [meet_cons_of_ne fits] at h
      cases h

theorem meet_error {e source j : Nat} {ds : List Nat} {places : Nat × Nat}
    (h : meet e source j ds = .error places) :
    ∃ d ∈ e :: ds, ∃ d' ∈ e :: ds, ¬ (d = d' ∨ d = 1 ∨ d' = 1) := by
  induction ds generalizing e source j with
  | nil => cases h
  | cons d ds ih =>
    by_cases fits : d = 1 ∨ e = 1 ∨ d = e
    · obtain ⟨source', next⟩ := exists_meet_cons fits source j ds
      obtain ⟨x, hx, y, hy, apart⟩ := ih (next.symm.trans h)
      exact ⟨x, by grind, y, by grind, apart⟩
    · exact ⟨d, by simp, e, by simp, by grind⟩

/-! ## All axes -/

variable {shapes : List Shape}

theorem rank_le_iff {n : Nat} : rank shapes ≤ n ↔ ∀ s ∈ shapes, s.length ≤ n := by
  rw [rank, foldl_max_le_iff, List.forall_mem_map]
  simp

theorem extent_eq {s : Shape} {axes k : Nat} (short : s.length ≤ axes) (inside : k < axes) :
    extent axes (axes - 1 - k) s = (fromLast s k).getD 1 := by
  unfold extent
  by_cases has : k < s.length
  · rw [List.getElem?_append_right (by rw [List.length_replicate]; omega), List.length_replicate,
      fromLast_eq has]
    congr 2
    omega
  · have absent : fromLast s k = none := List.getElem?_eq_none (by simpa using has)
    rw [List.getElem?_append_left (by rw [List.length_replicate]; omega), absent,
      List.getElem?_replicate, if_pos (by omega)]
    rfl

theorem meetAxes_ok {axis n : Nat} {out : Shape} (h : meetAxes shapes axis n = .ok out) :
    out.length = n ∧ ∀ i d, out[i]? = some d →
      meet 1 0 0 (shapes.map (extent (rank shapes) (axis + i))) = .ok d := by
  induction n generalizing axis out with
  | zero =>
    cases h
    exact ⟨rfl, nofun⟩
  | succ n ih =>
    rw [meetAxes] at h
    split at h
    · cases h
    · rename_i d first
      split at h
      · cases h
      · rename_i ds others
        cases h
        obtain ⟨length, each⟩ := ih others
        refine ⟨congrArg (· + 1) length, ?_⟩
        intro i d' found
        cases i with
        | zero =>
          cases found
          exact first
        | succ i =>
          have shift : axis + (i + 1) = axis + 1 + i := by omega
          rw [shift]
          exact each i d' found

theorem meetAxes_error {axis n : Nat} {places : Nat × Nat}
    (h : meetAxes shapes axis n = .error places) :
    ∃ i < n, meet 1 0 0 (shapes.map (extent (rank shapes) (axis + i))) = .error places := by
  induction n generalizing axis with
  | zero => cases h
  | succ n ih =>
    rw [meetAxes] at h
    split at h
    · rename_i first
      cases h
      exact ⟨0, Nat.succ_pos n, first⟩
    · split at h
      · rename_i others
        cases h
        obtain ⟨i, hi, failed⟩ := ih others
        have shift : axis + (i + 1) = axis + 1 + i := by omega
        exact ⟨i + 1, Nat.succ_lt_succ hi, by rwa [shift]⟩
      · cases h

/-! ## The common shape -/

theorem map_extent {k : Nat} (inside : k < rank shapes) :
    shapes.map (extent (rank shapes) (rank shapes - 1 - k))
      = shapes.map fun s => (fromLast s k).getD 1 :=
  List.map_congr_left fun _ hs => extent_eq (rank_le_iff.mp (Nat.le_refl _) _ hs) inside

theorem exists_of_mem_extents {k d : Nat} (large : d ≠ 1)
    (mem : d ∈ 1 :: shapes.map fun s => (fromLast s k).getD 1) :
    ∃ s ∈ shapes, fromLast s k = some d := by
  obtain ⟨s, hs, extent⟩ := List.mem_map.mp ((List.mem_cons.mp mem).resolve_left large)
  refine ⟨s, hs, ?_⟩
  cases here : fromLast s k with
  | none =>
    rw [here] at extent
    exact absurd extent.symm large
  | some e =>
    rw [here] at extent
    exact congrArg some extent

theorem exists_length_gt {k : Nat} (inside : k < rank shapes) : ∃ s ∈ shapes, k < s.length := by
  by_contra none_
  have short : ∀ s ∈ shapes, s.length ≤ k := by
    intro s hs
    by_contra long
    exact none_ ⟨s, hs, by omega⟩
  exact absurd (rank_le_iff.mpr short) (by omega)

theorem axes_of_common {out : Shape} (h : common shapes = .ok out) :
    out.length = rank shapes ∧ ∀ k d, fromLast out k = some d →
      meet 1 0 0 (shapes.map fun s => (fromLast s k).getD 1) = .ok d := by
  rw [common] at h
  split at h
  · rename_i found
    cases h
    obtain ⟨length, each⟩ := meetAxes_ok found
    refine ⟨length, ?_⟩
    intro k d extent
    have inside : k < out.length := exists_fromLast.mp ⟨d, extent⟩
    rw [fromLast_eq inside] at extent
    have met := each _ d extent
    rw [length] at inside met
    rwa [Nat.zero_add, map_extent inside] at met
  · cases h

theorem isCommon_of_common {out : Shape} (h : common shapes = .ok out) : IsCommon shapes out := by
  obtain ⟨length, axes⟩ := axes_of_common h
  have stretches : ∀ s ∈ shapes, ∀ k d e, fromLast out k = some d → fromLast s k = some e →
      e = 1 ∨ e = d := by
    intro s hs k d e extent here
    refine (meet_ok (axes k d extent)).1 e (List.mem_cons_of_mem _ (List.mem_map.mpr ⟨s, hs, ?_⟩))
    rw [here, Option.getD_some]
  refine ⟨fun s hs => length ▸ rank_le_iff.mp (Nat.le_refl _) s hs, stretches, ?_⟩
  intro k d extent
  by_cases large : d = 1
  · have inside : k < rank shapes := length ▸ exists_fromLast.mp ⟨d, extent⟩
    obtain ⟨s, hs, long⟩ := exists_length_gt inside
    obtain ⟨e, here⟩ := exists_fromLast.mpr long
    have same : e = d := (stretches s hs k d e extent here).elim (·.trans large.symm) id
    exact ⟨s, hs, same ▸ here⟩
  · exact exists_of_mem_extents large (meet_ok (axes k d extent)).2

theorem not_agree_of_common {m : Mismatch} (h : common shapes = .error m) : ¬ Agree shapes := by
  intro agree
  rw [common] at h
  split at h
  · cases h
  · rename_i failed
    obtain ⟨i, hi, failed⟩ := meetAxes_error failed
    have axis : 0 + i = rank shapes - 1 - (rank shapes - 1 - i) := by omega
    rw [axis, map_extent (by omega)] at failed
    obtain ⟨d, hd, d', hd', apart⟩ := meet_error failed
    rw [not_or, not_or] at apart
    obtain ⟨s, hs, here⟩ := exists_of_mem_extents apart.2.1 hd
    obtain ⟨s', hs', here'⟩ := exists_of_mem_extents apart.2.2 hd'
    rcases agree s hs s' hs' _ d d' here here' with same | one | one
    · exact apart.1 same
    · exact apart.2.1 one
    · exact apart.2.2 one

theorem IsCommon.agree {out : Shape} (h : IsCommon shapes out) : Agree shapes := by
  intro s hs s' hs' k d d' here here'
  have inside : k < out.length := Nat.lt_of_lt_of_le (exists_fromLast.mp ⟨d, here⟩) (h.wide s hs)
  obtain ⟨e, extent⟩ := exists_fromLast.mpr inside
  have first := h.stretches s hs k e d extent here
  have second := h.stretches s' hs' k e d' extent here'
  omega

/-- Shapes have a common shape where they agree, and else two of them are named. -/
theorem common_cases (shapes : List Shape) :
    (∃ m, common shapes = .error m) ∧ ¬ Agree shapes
      ∨ ∃ out, common shapes = .ok out ∧ IsCommon shapes out ∧ Agree shapes := by
  cases h : common shapes with
  | error m => exact Or.inl ⟨⟨m, rfl⟩, not_agree_of_common h⟩
  | ok out =>
    have isCommon := isCommon_of_common h
    exact Or.inr ⟨out, rfl, isCommon, isCommon.agree⟩

end Formulae.Shape
