import Formulae.Term.Evaluate
import Mathlib.Data.List.Forall2
/-!
Evaluation row by row. In a well-formed term every operator has the operands that it uses, so the
term has a value on each row, and its column on a table lists those values. A term is defined where
no divisor is zero. Regularity asks moreover that logarithms of sums have operands and a sum other
than zero, and that distances are not zero.
-/
namespace Formulae

universe u w

variable {α : Type u} {ι : Type w}

/-- What an operator makes of its operands, and zero where it lacks some. -/
def Arithmetic.apply (A : Arithmetic α) (op : Op) (as : List α) : α :=
  (A.combine? op as).getD A.zero

namespace Op

theorem one_operand {as : List α} (count : as.length = 1) : ∃ a, as = [a] :=
  List.length_eq_one_iff.mp count

theorem two_operands {as : List α} (count : as.length = 2) : ∃ a b, as = [a, b] := by
  cases as with
  | nil => cases count
  | cons a as =>
    obtain ⟨b, rfl⟩ := one_operand (Nat.succ.inj count)
    exact ⟨a, b, rfl⟩

theorem operands_of_accepts (A : Arithmetic α) {op : Op} {as : List ι}
    (count : op.accepts as.length = true) :
    (∃ f a b, A.role op = .binary f ∧ as = [a, b]) ∨ (∃ f a, A.role op = .unary f ∧ as = [a]) ∨
      ∃ r, A.role op = .many r := by
  cases op with
  | add | sub | mul | div =>
    obtain ⟨a, b, rfl⟩ := two_operands (of_decide_eq_true count)
    exact Or.inl ⟨_, a, b, rfl, rfl⟩
  | neg =>
    obtain ⟨a, rfl⟩ := one_operand (of_decide_eq_true count)
    exact Or.inr (Or.inl ⟨_, a, rfl, rfl⟩)
  | sumexp | lse | sumsq | distance => exact Or.inr (Or.inr ⟨_, rfl⟩)

end Op

namespace Column

theorem zipWith_map_map (f : α → α → α) (g h : ι → α) (rows : List ι) :
    List.zipWith f (rows.map g) (rows.map h) = rows.map fun r => f (g r) (h r) := by
  induction rows with
  | nil => rfl
  | cons r rows ih => simp [ih]

theorem foldl_zipWith_map (f : α → α → α) (rows : List ι) (columns : List (ι → α)) (start : ι → α) :
    (columns.map rows.map).foldl (List.zipWith f) (rows.map start)
      = rows.map fun r => (columns.map (· r)).foldl f (start r) := by
  induction columns generalizing start with
  | nil => rfl
  | cons column columns ih =>
    rw [List.map_cons, List.foldl_cons, zipWith_map_map]
    exact ih fun r => f (start r) (column r)

theorem reduce_map (A : Arithmetic α) (r : Reduction) (rows : List ι) (columns : List (ι → α)) :
    reduce A r rows.length (columns.map rows.map)
      = rows.map fun i => A.reduce r (columns.map (· i)) := by
  have start : List.replicate rows.length A.zero = rows.map fun _ => A.zero :=
    (List.map_const' ..).symm
  rw [reduce, start, foldl_zipWith_map, List.map_map]
  rfl

/-- An operator on columns is the operator on each row. -/
theorem combine?_map (A : Arithmetic α) (rows : List ι) {op : Op} {columns : List (ι → α)}
    (count : op.accepts columns.length = true) :
    combine? A rows.length op (columns.map rows.map)
      = some (rows.map fun r => A.apply op (columns.map (· r))) := by
  obtain ⟨f, g, h, role, rfl⟩ | ⟨f, g, role, rfl⟩ | ⟨r, role⟩ := Op.operands_of_accepts A count
  · simp only [combine?, Arithmetic.apply, Arithmetic.combine?, role, List.map_cons, binary,
      zipWith_map_map, Option.getD_some]
  · simp only [combine?, Arithmetic.apply, Arithmetic.combine?, role, List.map_cons, unary,
      List.map_map, Option.getD_some]
    rfl
  · simp only [combine?, Arithmetic.apply, Arithmetic.combine?, role, reduce_map, Option.getD_some]

end Column

theorem mapM_eq_map {β : Type u} {f : ι → Option β} {g : ι → β} {as : List ι}
    (h : ∀ a ∈ as, f a = some (g a)) : as.mapM f = some (as.map g) := by
  induction as with
  | nil => rfl
  | cons a as ih =>
    rw [List.mapM_cons, h a List.mem_cons_self, ih fun b hb => h b (List.mem_cons_of_mem a hb)]
    rfl

/-! ## Lists side by side -/

theorem forall₂_one {R : ι → α → Prop} {as : List ι} {bs : List α} (h : List.Forall₂ R as bs)
    (count : as.length = 1) : ∃ a b, as = [a] ∧ bs = [b] ∧ R a b := by
  cases h with
  | nil => cases count
  | cons first rest =>
    cases rest with
    | nil => exact ⟨_, _, rfl, rfl, first⟩
    | cons => cases count

theorem forall₂_two {R : ι → α → Prop} {as : List ι} {bs : List α} (h : List.Forall₂ R as bs)
    (count : as.length = 2) :
    ∃ a a' b b', as = [a, a'] ∧ bs = [b, b'] ∧ R a b ∧ R a' b' := by
  cases h with
  | nil => cases count
  | cons first rest =>
    obtain ⟨a', b', rfl, rfl, second⟩ := forall₂_one rest (Nat.succ.inj count)
    exact ⟨_, a', _, b', rfl, rfl, first, second⟩

theorem exists_mapM {β : Type u} {f : ι → Option β} {R : ι → β → Prop} {as : List ι}
    (h : ∀ a ∈ as, ∃ b, f a = some b ∧ R a b) :
    ∃ bs, as.mapM f = some bs ∧ List.Forall₂ R as bs := by
  induction as with
  | nil => exact ⟨[], rfl, .nil⟩
  | cons a as ih =>
    obtain ⟨b, first, related⟩ := h a List.mem_cons_self
    obtain ⟨bs, others, all⟩ := ih fun c hc => h c (List.mem_cons_of_mem a hc)
    refine ⟨b :: bs, ?_, .cons related all⟩
    rw [List.mapM_cons, first, others]
    rfl

namespace Term

def value (A : Arithmetic α) (row : Row α) : Term → α := fold row.get A.ofDouble A.apply

@[simp] theorem value_var (A : Arithmetic α) (row : Row α) (v : Variable) :
    (var v).value A row = row.get v := rfl

@[simp] theorem value_const (A : Arithmetic α) (row : Row α) (c : Double) :
    (const c).value A row = A.ofDouble c := rfl

theorem value_app (A : Arithmetic α) (row : Row α) (op : Op) (args : List Term) :
    (app op args).value A row = A.apply op (args.map (value A row)) :=
  fold_app ..

variable (A : Arithmetic α) {t : Term}

theorem column?_eq (rows : List (Row α)) (wf : t.WellFormed) :
    t.column? A rows = some (rows.map fun row => t.value A row) := by
  induction t using ind with
  | var v => rfl
  | const c => rfl
  | app op args ih =>
    obtain ⟨count, operands⟩ := wellFormed_app.mp wf
    have columns : args.mapM (column? A rows)
        = some ((args.map fun a row => a.value A row).map rows.map) := by
      rw [List.map_map]
      exact mapM_eq_map fun a ha => ih a ha (operands a ha)
    rw [column?_app, columns, Option.bind_some, Column.combine?_map A rows (by simpa using count)]
    simp only [value_app, List.map_map]
    rfl

/-- The column of a well-formed term lists its values. -/
theorem columnOn_eq (rows : List (Row α)) (wf : t.WellFormed) :
    t.columnOn A rows = .ok (rows.map fun row => t.value A row) := by
  rw [columnOn, column?_eq A rows wf]

end Term

/-! ## Conditions on every operator -/

namespace Row

def set (r : Row α) : Variable → α → Row α
  | .x, a => ⟨a, r.y, r.z⟩
  | .y, a => ⟨r.x, a, r.z⟩
  | .z, a => ⟨r.x, r.y, a⟩

theorem get_set (r : Row α) (v w : Variable) (a : α) :
    (r.set v a).get w = if w = v then a else r.get w := by
  cases v <;> cases w <;> rfl

@[simp] theorem set_get (r : Row α) (v : Variable) : r.set v (r.get v) = r := by
  cases v <;> rfl

end Row

def Arithmetic.Divides (A : Arithmetic α) : Op → List α → Prop
  | .div, [_, b] => b ≠ A.zero
  | _, _ => True

/-- What regularity asks of the operands of an operator. -/
def Arithmetic.Regular (A : Arithmetic α) : Op → List α → Prop
  | .div, [_, b] => b ≠ A.zero
  | .lse, as => as ≠ [] ∧ A.total (A.summand .exponentials) as ≠ A.zero
  | .distance _, as => A.total (A.summand .squares) as ≠ A.zero
  | _, _ => True

namespace Term

/-- A condition on what the operands are worth holds at every operator of a term. -/
inductive Everywhere (A : Arithmetic α) (row : Row α) (P : Op → List α → Prop) : Term → Prop
  | var (v : Variable) : Everywhere A row P (var v)
  | const (c : Double) : Everywhere A row P (const c)
  | app {op : Op} {args : List Term} (here : P op (args.map (value A row)))
      (operands : ∀ a ∈ args, Everywhere A row P a) : Everywhere A row P (app op args)

theorem everywhere_app {A : Arithmetic α} {row : Row α} {P : Op → List α → Prop} {op : Op}
    {args : List Term} : Everywhere A row P (app op args) ↔
      P op (args.map (value A row)) ∧ ∀ a ∈ args, Everywhere A row P a :=
  ⟨fun | .app here operands => ⟨here, operands⟩, fun h => .app h.1 h.2⟩

/-- No divisor in a term is zero. -/
def Defined (A : Arithmetic α) (row : Row α) (t : Term) : Prop := t.Everywhere A row A.Divides

def Regular (A : Arithmetic α) (row : Row α) (t : Term) : Prop := t.Everywhere A row A.Regular

end Term

end Formulae
