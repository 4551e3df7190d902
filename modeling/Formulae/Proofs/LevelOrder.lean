import Formulae.Term.Traversal
import Mathlib.Data.List.Perm.Basic
/-!
The two orders of the nodes of a term. A queue releases the nodes of the terms in it, each of them as
often as they are listed before their operands. It releases what is left of a level before the
operands that have joined it, so one level after the other. The other order is that of the addresses
of the nodes in a dictionary, where the address of a node starts those of its operands.
-/
namespace Formulae.Term

theorem depthFirst_eq (t : Term) : t.depthFirst = t :: t.children.flatMap depthFirst := by
  cases t with
  | var | const => simp [depthFirst, children]
  | app op args => exact depthFirst_app op args

theorem release_perm (queue : List Term) : (release queue).Perm (queue.flatMap depthFirst) := by
  induction queue using release.induct with
  | case1 => simp [release]
  | case2 t queue ih =>
    rw [List.flatMap_append] at ih
    rw [release, List.flatMap_cons, depthFirst_eq, List.cons_append]
    exact (ih.trans List.perm_append_comm).cons t

theorem breadthFirst_perm (t : Term) : t.breadthFirst.Perm t.depthFirst := by
  simpa [breadthFirst] using release_perm [t]

/-! ## Variables that occur -/

theorem occurrences_perm (t : Term) : t.occurrences.Perm (t.depthFirst.filterMap varOf?) :=
  t.breadthFirst_perm.filterMap varOf?

theorem mem_vars {t : Term} {v : Variable} : v ∈ t.vars ↔ v ∈ t.depthFirst.filterMap varOf? := by
  simp [vars, Variable.mem_all, t.occurrences_perm.mem_iff]

@[simp] theorem mem_vars_var {v w : Variable} : w ∈ (var v).vars ↔ w = v := by
  simp [mem_vars, depthFirst, varOf?]

@[simp] theorem vars_const (c : Double) : (const c).vars = [] := by
  simp [vars, occurrences, breadthFirst, release, children, varOf?]

@[simp] theorem mem_vars_app {op : Op} {args : List Term} {v : Variable} :
    v ∈ (app op args).vars ↔ ∃ a ∈ args, v ∈ a.vars := by
  simp only [mem_vars, depthFirst_app, List.filterMap_cons_none (rfl : varOf? (app op args) = none),
    List.filterMap_flatMap, List.mem_flatMap]

/-! ## Levels -/

/-- The nodes that lie so many levels below some terms, from left to right. -/
def layer (ts : List Term) : Nat → List Term
  | 0 => ts
  | n + 1 => (layer ts n).flatMap children

def level (t : Term) : Nat → List Term := layer [t]

theorem layer_flatMap_children (ts : List Term) (n : Nat) :
    layer (ts.flatMap children) n = layer ts (n + 1) := by
  induction n with
  | zero => rfl
  | succ n ih =>
    rw [layer, ih]
    rfl

theorem release_append (us ws : List Term) :
    release (us ++ ws) = us ++ release (ws ++ us.flatMap children) := by
  induction us generalizing ws with
  | nil => simp
  | cons u us ih =>
    rw [List.cons_append, release, List.append_assoc, ih, List.flatMap_cons, List.append_assoc]
    rfl

theorem release_eq_layers (ts : List Term) (n : Nat) :
    release ts = (List.range n).flatMap (layer ts) ++ release (layer ts n) := by
  induction n with
  | zero => rfl
  | succ n ih =>
    have next := release_append (layer ts n) []
    rw [List.append_nil, List.nil_append] at next
    rw [ih, next, List.range_succ, List.flatMap_append, List.append_assoc]
    simp [layer]

theorem lt_depth_iff {t : Term} {n : Nat} : n + 1 < t.depth ↔ ∃ c ∈ t.children, n < c.depth := by
  cases t with
  | var | const => simp [children]
  | app op args =>
    rw [← Nat.not_le, depth_app_le_iff]
    simp [children]

theorem layer_ne_nil_iff {ts : List Term} {n : Nat} :
    layer ts n ≠ [] ↔ ∃ t ∈ ts, n < t.depth := by
  induction n generalizing ts with
  | zero => simp [layer, depth_pos, List.eq_nil_iff_forall_not_mem]
  | succ n ih =>
    rw [← layer_flatMap_children, ih]
    simp only [lt_depth_iff, List.mem_flatMap]
    constructor
    · rintro ⟨c, ⟨t, ht, hc⟩, deep⟩
      exact ⟨t, ht, c, hc, deep⟩
    · rintro ⟨t, ht, c, hc, deep⟩
      exact ⟨c, ⟨t, ht, hc⟩, deep⟩

/-- There are nodes on as many levels as the term is deep. -/
theorem level_ne_nil_iff {t : Term} {n : Nat} : t.level n ≠ [] ↔ n < t.depth := by
  simp [level, layer_ne_nil_iff]

theorem breadthFirst_eq_levels (t : Term) :
    t.breadthFirst = (List.range t.depth).flatMap t.level := by
  have empty : layer [t] t.depth = [] := by
    by_contra remaining
    exact Nat.lt_irrefl _ (level_ne_nil_iff.mp remaining)
  rw [breadthFirst, release_eq_layers [t] t.depth, empty, release, List.append_nil]
  rfl

/-! ## Addresses -/

/-- The subterm at an address, which names an operand by its position on each level. -/
def subterm? : Term → List Nat → Option Term
  | t, [] => some t
  | t, i :: address => t.children[i]?.bind (subterm? · address)

/-- A list of all subterms in the order of their addresses in a dictionary. So each node stands
before its operands, and all nodes of an operand before those of the next. -/
def InAddressOrder (t : Term) (nodes : List Term) : Prop :=
  ∃ addresses : List (List Nat), addresses.Pairwise (List.Lex (· < ·))
    ∧ (∀ address, address ∈ addresses ↔ (t.subterm? address).isSome)
    ∧ nodes.map some = addresses.map t.subterm?

mutual

def addresses : Term → List (List Nat)
  | var _ => [[]]
  | const _ => [[]]
  | app _ args => [] :: addressesFrom 0 args

/-- The addresses of the nodes of operands, the first of which is at the position given. -/
def addressesFrom (i : Nat) : List Term → List (List Nat)
  | [] => []
  | t :: ts => (addresses t).map (i :: ·) ++ addressesFrom (i + 1) ts

end

theorem mem_addressesFrom {i : Nat} {ts : List Term} {address : List Nat} :
    address ∈ addressesFrom i ts
      ↔ ∃ j t inner, ts[j]? = some t ∧ inner ∈ t.addresses ∧ address = (i + j) :: inner := by
  induction ts generalizing i with
  | nil => simp [addressesFrom]
  | cons t ts ih =>
    simp only [addressesFrom, List.mem_append, List.mem_map, ih]
    constructor
    · rintro (⟨inner, mem, rfl⟩ | ⟨j, s, inner, at_, mem, rfl⟩)
      · exact ⟨0, t, inner, rfl, mem, rfl⟩
      · exact ⟨j + 1, s, inner, at_, mem, by rw [Nat.add_assoc, Nat.add_comm 1]⟩
    · rintro ⟨_ | j, s, inner, at_, mem, rfl⟩
      · cases at_
        exact .inl ⟨inner, mem, rfl⟩
      · exact .inr ⟨j, s, inner, at_, mem, by rw [Nat.add_assoc, Nat.add_comm 1]⟩

theorem mem_addresses {t : Term} {address : List Nat} :
    address ∈ t.addresses ↔ (t.subterm? address).isSome := by
  induction t using ind generalizing address with
  | var | const => cases address <;> simp [addresses, subterm?, children]
  | app op args ih =>
    cases address with
    | nil => simp [addresses, subterm?]
    | cons i inner =>
      have below : i :: inner ∈ addressesFrom 0 args
          ↔ ∃ t, args[i]? = some t ∧ inner ∈ t.addresses := by
        simp [mem_addressesFrom]
      have listed : i :: inner ∈ (app op args).addresses ↔ i :: inner ∈ addressesFrom 0 args := by
        simp [addresses]
      rw [listed, below, subterm?, children]
      cases at_ : args[i]? with
      | none => simp
      | some t => simp [ih t (List.mem_of_getElem? at_)]

theorem addressesFrom_sorted {ts : List Term}
    (each : ∀ t ∈ ts, t.addresses.Pairwise (List.Lex (· < ·))) (i : Nat) :
    (addressesFrom i ts).Pairwise (List.Lex (· < ·)) := by
  induction ts generalizing i with
  | nil => exact .nil
  | cons t ts ih =>
    obtain ⟨first, others⟩ := List.forall_mem_cons.mp each
    rw [addressesFrom, List.pairwise_append]
    refine ⟨List.pairwise_map.mpr (first.imp .cons), ih others (i + 1), ?_⟩
    intro address mem address' mem'
    obtain ⟨inner, -, rfl⟩ := List.mem_map.mp mem
    obtain ⟨j, s, inner', -, -, rfl⟩ := mem_addressesFrom.mp mem'
    exact .rel (by omega)

theorem addresses_sorted (t : Term) : t.addresses.Pairwise (List.Lex (· < ·)) := by
  induction t using ind with
  | var | const => exact List.pairwise_singleton ..
  | app op args ih =>
    rw [addresses, List.pairwise_cons]
    refine ⟨fun address mem => ?_, addressesFrom_sorted ih 0⟩
    obtain ⟨j, s, inner, -, -, rfl⟩ := mem_addressesFrom.mp mem
    exact .nil

theorem map_addressesFrom (op : Op) (us : List Term) {ts : List Term}
    (each : ∀ t ∈ ts, t.addresses.map t.subterm? = t.depthFirst.map some) :
    (addressesFrom us.length ts).map (app op (us ++ ts)).subterm?
      = (ts.flatMap depthFirst).map some := by
  -- The operands before the ones listed keep their addresses, so `us` grows along the list.
  induction ts generalizing us with
  | nil => rfl
  | cons t ts ih =>
    obtain ⟨first, others⟩ := List.forall_mem_cons.mp each
    have here : (app op (us ++ t :: ts)).subterm? ∘ (us.length :: ·) = t.subterm? := by
      funext address
      simp [subterm?, children]
    have rest := ih (us ++ [t]) others
    rw [List.length_append, List.append_assoc] at rest
    rw [addressesFrom, List.map_append, List.map_map, here, first, List.flatMap_cons,
      List.map_append]
    exact congrArg (_ ++ ·) rest

theorem map_addresses (t : Term) : t.addresses.map t.subterm? = t.depthFirst.map some := by
  induction t using ind with
  | var | const => rfl
  | app op args ih =>
    rw [addresses, depthFirst_app, List.map_cons, List.map_cons]
    exact congrArg (some (app op args) :: ·) (map_addressesFrom op [] ih)

theorem depthFirst_inAddressOrder (t : Term) : t.InAddressOrder t.depthFirst :=
  ⟨t.addresses, t.addresses_sorted, fun _ => mem_addresses, t.map_addresses.symm⟩

/-! ## Both -/

theorem length_depthFirst (t : Term) : t.depthFirst.length = t.size := by
  induction t using ind with
  | var | const => rfl
  | app op args ih =>
    rw [depthFirst_app, List.length_cons, length_flatMap_eq_sum ih, size_app, Nat.add_comm]

/-- Level by level, the nodes of a term are those of each level, down to the depth of the term; each
before its operands, they are in the order of their addresses. Both are all the nodes. -/
theorem nodes_in_order (t : Term) :
    ∃ wide deep, (Operand.term t).nodesBy "breadth_first" = .ok wide
      ∧ (Operand.term t).nodesBy "depth_first" = .ok deep
      ∧ wide = (List.range t.depth).flatMap t.level
      ∧ (∀ n, t.level n ≠ [] ↔ n < t.depth)
      ∧ t.InAddressOrder deep
      ∧ wide.Perm deep ∧ wide.length = t.size ∧ deep.length = t.size := by
  have same := t.breadthFirst_perm
  refine ⟨t.breadthFirst, t.depthFirst, rfl, rfl, t.breadthFirst_eq_levels,
    fun _ => level_ne_nil_iff, t.depthFirst_inAddressOrder, same, ?_, t.length_depthFirst⟩
  rw [same.length_eq, length_depthFirst]

example :
    let t := app .sub [app .neg [var .x], var .y]
    (List.range t.depth).flatMap t.level = [t, app .neg [var .x], var .y, var .x]
      ∧ t.depthFirst = [t, app .neg [var .x], var .x, var .y] := by decide

end Formulae.Term
