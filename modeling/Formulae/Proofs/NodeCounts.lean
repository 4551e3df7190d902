import Formulae.Proofs.LevelOrder
import Mathlib.Data.List.Nodup
/-!
What is counted among the nodes of a term. Each node is a constant, a use of a variable or a use of
an operator, so the three counts together are the size of the term. What operands contain, the term
above them contains as often as all of them together.
-/
namespace Formulae

universe u w

/-! ## Groups -/

variable {κ : Type u} {α : Type w}

theorem flatMap_filter_singleton (keys : List κ) (holds : κ → α → Bool) (a : α) :
    (keys.flatMap fun k => [a].filter (holds k))
      = List.replicate (keys.countP (holds · a)) a := by
  induction keys with
  | nil => rfl
  | cons k keys ih => by_cases h : holds k a <;> simp [h, ih, List.replicate_succ]

theorem flatMap_filter_perm {keys : List κ} {holds : κ → α → Bool} {items : List α}
    (once : ∀ a ∈ items, keys.countP (holds · a) = 1) :
    (keys.flatMap fun k => items.filter (holds k)).Perm items := by
  induction items with
  | nil => simp
  | cons a items ih =>
    obtain ⟨first, others⟩ := List.forall_mem_cons.mp once
    have own : (keys.flatMap fun k => [a].filter (holds k)) = [a] := by
      rw [flatMap_filter_singleton, first, List.replicate_one]
    have apart (k : κ) : (a :: items).filter (holds k)
        = [a].filter (holds k) ++ items.filter (holds k) := List.filter_append [a] items
    simp only [apart]
    refine (List.flatMap_append_perm keys _ _).symm.trans ?_
    rw [own]
    exact (ih others).cons a

theorem Op.count_all (op : Op) : all.count op = 1 :=
  List.count_eq_one_of_mem (by decide) op.mem_all

namespace Term

/-! ## Every node once -/

theorem map_filterMap_constOf? (nodes : List Term) :
    (nodes.filterMap constOf?).map const = nodes.filter fun t => t.constOf?.isSome := by
  induction nodes with
  | nil => rfl
  | cons t nodes ih => cases t <;> simp [List.filterMap_cons, constOf?, ih]

theorem map_filterMap_varOf? (nodes : List Term) :
    (nodes.filterMap varOf?).map var = nodes.filter fun t => t.varOf?.isSome := by
  induction nodes with
  | nil => rfl
  | cons t nodes ih => cases t <;> simp [List.filterMap_cons, varOf?, ih]

/-- What the statistics look for in a node. -/
def groups : List (Term → Bool) :=
  (fun t => t.constOf?.isSome) :: (fun t => t.varOf?.isSome) :: Op.all.map hasOp

theorem countP_groups (t : Term) : groups.countP (· t) = 1 := by
  cases t with
  | const c => rfl
  | var v => rfl
  | app op args =>
    have own : (Op.all.map hasOp).countP (· (app op args)) = Op.all.count op := by
      rw [List.countP_map, List.count]
      congr 1
      funext oq
      exact decide_eq_decide.mpr eq_comm
    exact own.trans op.count_all

theorem groups_perm (nodes : List Term) :
    ((nodes.filterMap constOf?).map const ++ ((nodes.filterMap varOf?).map var
      ++ Op.all.flatMap fun op => nodes.filter (hasOp op))).Perm nodes := by
  have whole := flatMap_filter_perm (fun t (_ : t ∈ nodes) => t.countP_groups)
  rwa [groups, List.flatMap_cons, List.flatMap_cons, List.flatMap_map, ← map_filterMap_constOf?,
    ← map_filterMap_varOf?] at whole

/-! ## Uses -/

theorem mem_vars_iff_count {t : Term} {v : Variable} : v ∈ t.vars ↔ 0 < t.occurrences.count v := by
  rw [List.count_pos_iff, mem_vars, t.occurrences_perm.mem_iff]

theorem count_occurrences (t : Term) (v : Variable) :
    t.occurrences.count v = t.depthFirst.count (var v) := by
  rw [t.occurrences_perm.count_eq, List.count_filterMap, List.count]
  congr 1
  funext s
  cases s <;> simp [varOf?]

theorem mem_usage {t : Term} {v : Variable} {n : Nat} :
    (v, n) ∈ t.usage ↔ 0 < n ∧ n = t.depthFirst.count (var v) := by
  rw [← count_occurrences]
  constructor
  · intro recorded
    obtain ⟨w, mem, same⟩ := List.mem_map.mp recorded
    cases same
    exact ⟨mem_vars_iff_count.mp mem, rfl⟩
  · rintro ⟨pos, rfl⟩
    exact List.mem_map.mpr ⟨v, mem_vars_iff_count.mpr pos, rfl⟩

/-- The uses of each variable are as many as are on record for it. -/
theorem usage_perm (t : Term) :
    (t.usage.flatMap fun (v, n) => List.replicate n (var v)).Perm
      ((t.depthFirst.filterMap varOf?).map var) := by
  have once : ∀ w ∈ t.occurrences, t.vars.countP (w == ·) = 1 := by
    intro w mem
    have distinct : t.vars.Nodup := List.Nodup.filter _ (by decide)
    have counted := List.count_eq_one_of_mem distinct (mem_vars_iff_count.mpr
      (List.count_pos_iff.mpr mem))
    rwa [List.count, funext fun v => BEq.comm (a := v)] at counted
  have grouped := (flatMap_filter_perm once).map var
  rw [List.map_flatMap] at grouped
  rw [usage, List.flatMap_map]
  refine .trans (.of_eq ?_) (grouped.trans (t.occurrences_perm.map var))
  simp only [List.filter_beq, List.map_replicate]

theorem vars_sorted (t : Term) : (t.vars.map Variable.name).Pairwise (· < ·) := by
  have all : (Variable.all.map Variable.name).Pairwise (· < ·) := by decide
  exact all.sublist (List.filter_sublist.map _)

/-- How often a variable is used, which is not at all where no use of it is on record. -/
def uses (t : Term) (v : Variable) : Nat := (t.usage.lookup v).getD 0

theorem uses_eq (t : Term) (v : Variable) : t.uses v = t.depthFirst.count (var v) := by
  rw [uses]
  cases found : t.usage.lookup v with
  | some n =>
    obtain ⟨front, back, split, -⟩ := List.lookup_eq_some_iff.mp found
    have recorded : (v, n) ∈ t.usage := by simp [split]
    exact (mem_usage.mp recorded).2
  | none =>
    have unrecorded := List.lookup_eq_none_iff.mp found
    by_contra used
    have recorded := mem_usage.mpr ⟨Nat.pos_of_ne_zero (Ne.symm used), rfl⟩
    simpa using unrecorded _ recorded

theorem uses_app (op : Op) (args : List Term) (v : Variable) :
    (app op args).uses v = sum (args.map (uses · v)) := by
  rw [uses_eq, depthFirst_app, List.count_cons_of_ne (by simp)]
  exact countP_flatMap_eq_sum fun a _ => (a.uses_eq v).symm

/-! ## The statistics -/

theorem mapM_withOpNamed (t : Term) (ops : List Op) :
    (ops.mapM fun op => (Operand.term t).withOpNamed op.symbol) = .ok (ops.map t.withOp) := by
  simp only [Operand.withOpNamed, Op.ofSymbol?_symbol]
  exact List.mapM_pure

theorem census_perm (t : Term) :
    (t.constants.map const ++ ((t.usage.flatMap fun (v, n) => List.replicate n (var v))
      ++ Op.all.flatMap t.withOp)).Perm t.depthFirst := by
  refine .trans (.append_left _ (t.usage_perm.append ?_)) (groups_perm t.depthFirst)
  exact .flatMap_left _ fun op _ => t.breadthFirst_perm.filter _

/-- Every node is counted once, as a constant, as a use of a variable or as a use of an operator.
The variables are in the order of their names and are those of which uses are counted. A term uses a
variable, and has constants, as its operands do together. -/
theorem statistics_partition (t : Term) :
    (∃ found, (Op.all.mapM fun op => (Operand.term t).withOpNamed op.symbol) = .ok found
      ∧ (t.constants.map const ++ ((t.usage.flatMap fun (v, n) => List.replicate n (var v))
          ++ found.flatten)).Perm t.depthFirst
      ∧ t.constants.length + sum (t.usage.map Prod.snd) + sum (found.map List.length) = t.size)
    ∧ (t.vars.map Variable.name).Pairwise (· < ·)
    ∧ (∀ v, v ∈ t.vars ↔ ∃ n, (v, n) ∈ t.usage)
    ∧ (∀ v n, (v, n) ∈ t.usage ↔ 0 < n ∧ n = t.depthFirst.count (var v))
    ∧ (∀ op args v, (app op args).uses v = sum (args.map (uses · v)))
    ∧ ∀ op args, (app op args).constants = args.flatMap constants := by
  have census := t.census_perm
  have total := census.length_eq
  rw [List.length_append, List.length_append, List.length_map, length_depthFirst,
    length_flatMap_eq_sum fun _ _ => List.length_replicate, length_flatMap_eq_sum fun _ _ => rfl,
    ← Nat.add_assoc] at total
  rw [List.flatMap_def] at census
  refine ⟨⟨Op.all.map t.withOp, mapM_withOpNamed t Op.all, census, ?_⟩, t.vars_sorted, fun v => ?_,
    fun v n => mem_usage, uses_app, constants_app⟩
  · rw [List.map_map]
    exact total
  · simp [usage]

end Term

end Formulae
