import Formulae.Term.Basic
/-!
Size, depth and nesting of a term. A term without operands has depth one, and nesting one where it is an
operator.
-/
namespace Formulae

universe u w

theorem foldl_max_le_iff {ns : List Nat} {start most : Nat} :
    ns.foldl max start ≤ most ↔ start ≤ most ∧ ∀ n ∈ ns, n ≤ most := by
  induction ns generalizing start with
  | nil => simp
  | cons n ns ih => rw [List.foldl_cons, ih, Nat.max_le, List.forall_mem_cons, and_assoc]

namespace Term

def sum : List Nat → Nat
  | [] => 0
  | n :: ns => n + sum ns

theorem sum_append (ms ns : List Nat) : sum (ms ++ ns) = sum ms + sum ns := by
  induction ms with
  | nil => simp [sum]
  | cons m ms ih => simp only [List.cons_append, sum, ih]; omega

def size : Term → Nat := fold (fun _ => 1) (fun _ => 1) fun _ sizes => 1 + sum sizes

def depth : Term → Nat := fold (fun _ => 1) (fun _ => 1) fun _ depths => 1 + depths.foldl max 0

@[simp] theorem size_var (v : Variable) : (var v).size = 1 := rfl

@[simp] theorem size_const (c : Double) : (const c).size = 1 := rfl

@[simp] theorem size_app (op : Op) (args : List Term) :
    (app op args).size = 1 + sum (args.map size) :=
  fold_app ..

@[simp] theorem depth_var (v : Variable) : (var v).depth = 1 := rfl

@[simp] theorem depth_const (c : Double) : (const c).depth = 1 := rfl

@[simp] theorem depth_app (op : Op) (args : List Term) :
    (app op args).depth = 1 + (args.map depth).foldl max 0 :=
  fold_app ..

theorem size_eq (t : Term) : t.size = 1 + sum (t.children.map size) := by
  cases t <;> simp [children, sum]

theorem size_pos (t : Term) : 0 < t.size := by
  rw [size_eq]
  omega

theorem depth_pos (t : Term) : 0 < t.depth := by
  cases t with
  | var | const => exact Nat.one_pos
  | app op args =>
    rw [depth_app]
    omega

theorem depth_app_le_iff {op : Op} {args : List Term} {n : Nat} :
    (app op args).depth ≤ n + 1 ↔ ∀ a ∈ args, a.depth ≤ n := by
  rw [depth_app, Nat.add_comm, Nat.add_le_add_iff_right, foldl_max_le_iff]
  simp

/-- How many operators of a term stand one inside the other, at most. -/
def nesting : Term → Nat := fold (fun _ => 0) (fun _ => 0) fun _ depths => 1 + depths.foldl max 0

@[simp] theorem nesting_var (v : Variable) : (var v).nesting = 0 := rfl

@[simp] theorem nesting_const (c : Double) : (const c).nesting = 0 := rfl

@[simp] theorem nesting_app (op : Op) (args : List Term) :
    (app op args).nesting = 1 + (args.map nesting).foldl max 0 :=
  fold_app ..

theorem nesting_app_le_iff {op : Op} {args : List Term} {most : Nat} :
    (app op args).nesting ≤ most + 1 ↔ ∀ a ∈ args, a.nesting ≤ most := by
  rw [nesting_app, Nat.add_comm, Nat.add_le_add_iff_right, foldl_max_le_iff]
  simp

theorem nesting_lt_of_mem (op : Op) {args : List Term} {a : Term} (ha : a ∈ args) :
    a.nesting < (app op args).nesting := by
  have inner := (foldl_max_le_iff.mp (Nat.le_refl ((args.map nesting).foldl max 0))).2
  have below := inner a.nesting (List.mem_map_of_mem ha)
  rw [nesting_app]
  omega

theorem length_flatMap_eq_sum {α : Type u} {β : Type w} {f : α → List β} {count : α → Nat}
    {as : List α} (each : ∀ a ∈ as, (f a).length = count a) :
    (as.flatMap f).length = sum (as.map count) := by
  induction as with
  | nil => rfl
  | cons a as ih =>
    obtain ⟨first, others⟩ := List.forall_mem_cons.mp each
    rw [List.flatMap_cons, List.length_append, first, ih others, List.map_cons, sum]

theorem countP_flatMap_eq_sum {α : Type u} {β : Type w} {p : β → Bool} {f : α → List β}
    {count : α → Nat} {as : List α} (each : ∀ a ∈ as, (f a).countP p = count a) :
    (as.flatMap f).countP p = sum (as.map count) := by
  simp only [List.countP_eq_length_filter] at each
  rw [List.countP_eq_length_filter, List.filter_flatMap, length_flatMap_eq_sum each]

end Term

end Formulae
