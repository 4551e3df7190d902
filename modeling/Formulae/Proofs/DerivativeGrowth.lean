import Formulae.Proofs.DerivativeTerm
import Formulae.Term.Traversal
import Mathlib.Algebra.BigOperators.Ring.List
import Mathlib.Algebra.Order.BigOperators.Group.List
import Mathlib.Tactic.Ring
/-!
The growth of derivatives. Next to the derivatives of its operands, a rule writes the operands a few
times and joins them one by one. So each level of a term adds to its derivative at most five nodes
for each node from that level down, and at most the operands of the widest node and two in depth.
-/
namespace Formulae.Term

def width (t : Term) : Nat := (t.depthFirst.map fun s => s.children.length).foldl max 0

variable {args ds : List Term} {n e : Nat}

theorem width_le_iff {t : Term} : t.width ≤ n ↔ ∀ s ∈ t.depthFirst, s.children.length ≤ n := by
  simp [width, foldl_max_le_iff]

theorem width_app_le_iff {op : Op} :
    (app op args).width ≤ n ↔ args.length ≤ n ∧ ∀ a ∈ args, a.width ≤ n := by
  simp only [width_le_iff, depthFirst_app, List.forall_mem_cons, List.forall_mem_flatMap, children]

/-! ## Size -/

theorem sum_eq (ns : List Nat) : sum ns = ns.sum := by
  induction ns with
  | nil => rfl
  | cons n ns ih => rw [sum, ih, List.sum_cons]

theorem length_le_sum_size (ts : List Term) : ts.length ≤ sum (ts.map size) := by
  rw [sum_eq, ← List.length_map (f := size)]
  exact List.length_le_sum_of_one_le _ (List.forall_mem_map.mpr fun t _ => t.size_pos)

@[simp] theorem size_binary (op : Op) (a b : Term) : (app op [a, b]).size = 1 + a.size + b.size := by
  simp [sum, Nat.add_assoc]

theorem size_plus (a b : Term) : (plus a b).size = 1 + a.size + b.size := size_binary .add a b

theorem size_times (a b : Term) : (times a b).size = 1 + a.size + b.size := size_binary .mul a b

theorem size_foldl_plus (t : Term) (ts : List Term) :
    (ts.foldl plus t).size = t.size + ts.length + sum (ts.map size) := by
  induction ts generalizing t with
  | nil => rfl
  | cons r ts ih =>
    rw [List.foldl_cons, ih, size_plus, List.length_cons, List.map_cons, sum]
    omega

theorem size_sum? {ts : List Term} {s : Term} (total : sum? ts = some s) :
    s.size + 1 = ts.length + sum (ts.map size) := by
  cases ts with
  | nil => cases total
  | cons t ts =>
    cases total
    rw [size_foldl_plus, List.length_cons, List.map_cons, sum]
    omega

theorem sum_size_zipWith {f : Term → Term → Term} {k : Nat}
    (each : ∀ a d, (f a d).size = k + a.size + d.size) (same : ds.length = args.length) :
    sum ((List.zipWith f args ds).map size)
      = k * args.length + sum (args.map size) + sum (ds.map size) := by
  induction args generalizing ds with
  | nil =>
    obtain rfl := List.length_eq_zero_iff.mp same
    rfl
  | cons a args ih =>
    cases ds with
    | nil => cases same
    | cons d ds =>
      have rest := ih (Nat.succ.inj same)
      simp only [List.zipWith_cons_cons, List.map_cons, sum, each, rest, List.length_cons,
        Nat.mul_succ]
      omega

theorem size_exponentialsRule_le (same : ds.length = args.length) :
    (exponentialsRule args ds).size
      ≤ 1 + 3 * args.length + sum (args.map size) + sum (ds.map size) := by
  have each : ∀ a d, (times (app .sumexp [a]) d).size = 2 + a.size + d.size := by
    intro a d
    simp [size_times, sum]
    omega
  have terms := sum_size_zipWith each same
  rw [exponentialsRule]
  cases total : sum? (List.zipWith (fun a d => times (app .sumexp [a]) d) args ds) with
  | none =>
    have alone : zero.size = 1 := rfl
    rw [Option.getD_none, alone]
    omega
  | some s =>
    have joined := size_sum? total
    rw [List.length_zipWith, terms] at joined
    rw [Option.getD_some]
    omega

theorem size_squaresRule? (same : ds.length = args.length) {s : Term}
    (squares : squaresRule? args ds = some s) :
    s.size = 1 + 2 * args.length + sum (args.map size) + sum (ds.map size) := by
  obtain ⟨total, summed, rfl⟩ := Option.map_eq_some_iff.mp squares
  have joined := size_sum? summed
  have alone : two.size = 1 := rfl
  rw [List.length_zipWith, sum_size_zipWith size_times same] at joined
  rw [size_times, alone]
  omega

/-- A rule writes its operands at most five times and adds at most five nodes to them. -/
theorem size_le_of_ruled {op : Op} {d : Term} (same : ds.length = args.length)
    (made : Ruled op args ds d) :
    d.size ≤ 5 * (1 + sum (args.map size)) + sum (ds.map size) := by
  have few := length_le_sum_size args
  cases made with
  | add | sub | mul | div | neg =>
    simp only [plus, times, size_app, List.map_cons, List.map_nil, sum]
    omega
  | sumexp =>
    have bound := size_exponentialsRule_le same
    omega
  | lse =>
    have bound := size_exponentialsRule_le same
    rw [size_binary, size_app]
    omega
  | sumsq squares =>
    have written := size_squaresRule? same squares
    omega
  | distance squares =>
    have written := size_squaresRule? same squares
    have alone : two.size = 1 := rfl
    rw [size_binary, size_times, alone, size_app]
    omega

/-! ## Depth -/

theorem depth_binary_le {op : Op} {a b : Term} (ha : a.depth ≤ n) (hb : b.depth ≤ n) :
    (app op [a, b]).depth ≤ n + 1 :=
  depth_app_le_iff.mpr (by simp [ha, hb])

theorem depth_foldl_plus_le {t : Term} {ts : List Term} (first : t.depth ≤ n)
    (others : ∀ s ∈ ts, s.depth ≤ n) : (ts.foldl plus t).depth ≤ n + ts.length := by
  induction ts generalizing t n with
  | nil => exact first
  | cons r ts ih =>
    obtain ⟨second, others⟩ := List.forall_mem_cons.mp others
    have joined : (plus t r).depth ≤ n + 1 := depth_binary_le first second
    have bound := ih joined fun s hs => Nat.le_succ_of_le (others s hs)
    rw [List.foldl_cons, List.length_cons]
    omega

theorem depth_sum?_lt {ts : List Term} {s : Term} (total : sum? ts = some s)
    (terms : ∀ t ∈ ts, t.depth ≤ n) : s.depth < n + ts.length := by
  cases ts with
  | nil => cases total
  | cons t ts =>
    cases total
    obtain ⟨first, others⟩ := List.forall_mem_cons.mp terms
    have bound := depth_foldl_plus_le first others
    rw [List.length_cons]
    omega

section Deepest

variable (operands : ∀ a ∈ args, a.depth ≤ e) (slopes : ∀ d ∈ ds, d.depth ≤ e)

include operands slopes

theorem depth_exponentialsRule_le : (exponentialsRule args ds).depth ≤ args.length + 1 + e := by
  have each : ∀ a d : Term, a.depth ≤ e → d.depth ≤ e →
      (times (app .sumexp [a]) d).depth ≤ e + 1 + 1 := by
    intro a d ha hd
    exact depth_binary_le (depth_app_le_iff.mpr (by simp [ha])) (Nat.le_succ_of_le hd)
  have terms : ∀ t ∈ List.zipWith (fun a d => times (app .sumexp [a]) d) args ds,
      t.depth ≤ e + 1 + 1 := forall_zipWith each operands slopes
  rw [exponentialsRule]
  cases total : sum? (List.zipWith (fun a d => times (app .sumexp [a]) d) args ds) with
  | none =>
    have alone : zero.depth = 1 := rfl
    rw [Option.getD_none, alone]
    omega
  | some s =>
    have joined := depth_sum?_lt total terms
    rw [List.length_zipWith] at joined
    rw [Option.getD_some]
    omega

theorem depth_squaresRule?_le {s : Term} (squares : squaresRule? args ds = some s) :
    s.depth ≤ args.length + 1 + e := by
  obtain ⟨total, summed, rfl⟩ := Option.map_eq_some_iff.mp squares
  have each : ∀ a d : Term, a.depth ≤ e → d.depth ≤ e → (times a d).depth ≤ e + 1 :=
    fun _ _ => depth_binary_le
  have joined := depth_sum?_lt summed (forall_zipWith each operands slopes)
  have positive := total.depth_pos
  have alone : two.depth = 1 := rfl
  rw [List.length_zipWith] at joined
  have whole : (times two total).depth ≤ args.length + e + 1 :=
    depth_binary_le (by omega) (by omega)
  omega

/-- A rule lies above what it is made of by the count of operands and two. -/
theorem depth_le_of_ruled {op : Op} {d : Term} (made : Ruled op args ds d) :
    d.depth ≤ args.length + 2 + e := by
  cases made with
  | add | sub | mul | div | neg =>
    simp only [List.forall_mem_cons] at operands slopes
    simp [plus, times]
    omega
  | sumexp =>
    have bound := depth_exponentialsRule_le operands slopes
    omega
  | lse =>
    have dividend := depth_exponentialsRule_le operands slopes
    have divisor : (app .sumexp args).depth ≤ e + 1 := depth_app_le_iff.mpr operands
    have whole : (app .div [exponentialsRule args ds, app .sumexp args]).depth
        ≤ args.length + 1 + e + 1 := depth_binary_le dividend (by omega)
    omega
  | sumsq squares =>
    have bound := depth_squaresRule?_le operands slopes squares
    omega
  | @distance n _ _ s squares =>
    have dividend := depth_squaresRule?_le operands slopes squares
    have root : (app (.distance n) args).depth ≤ e + 1 := depth_app_le_iff.mpr operands
    have alone : two.depth = 1 := rfl
    have divisor : (times two (app (.distance n) args)).depth ≤ e + 1 + 1 :=
      depth_binary_le (by omega) root
    have nonempty : 0 < args.length := by
      cases args with
      | nil => cases squares
      | cons a args => exact Nat.succ_pos _
    have whole : (app .div [s, times two (app (.distance n) args)]).depth
        ≤ args.length + 1 + e + 1 := depth_binary_le dividend (by omega)
    omega

end Deepest

/-! ## Terms -/

theorem exists_depth_app (op : Op) (args : List Term) :
    ∃ e, (app op args).depth = e + 1 ∧ ∀ a ∈ args, a.depth ≤ e := by
  refine ⟨(args.map depth).foldl max 0, by rw [depth_app, Nat.add_comm], ?_⟩
  exact List.forall_mem_map.mp (foldl_max_le_iff.mp (Nat.le_refl _)).2

theorem size_derivative_var (v w : Variable) : ((var w).derivative v).size = 1 := by
  rw [derivative]
  split <;> rfl

theorem depth_derivative_var (v w : Variable) : ((var w).derivative v).depth = 1 := by
  rw [derivative]
  split <;> rfl

theorem size_derivative_le {t : Term} (wf : t.WellFormed) (v : Variable) :
    (t.derivative v).size ≤ 5 * t.size * t.depth := by
  induction t using ind with
  | var w =>
    rw [size_derivative_var]
    exact (by decide : 1 ≤ 5 * 1 * 1)
  | const c => exact (by decide : 1 ≤ 5 * 1 * 1)
  | app op args ih =>
    obtain ⟨count, operands⟩ := wellFormed_app.mp wf
    -- With `e + 1` the depth of the whole, the operands use up `5 * e` for each of their nodes, and
    -- the rule adds five for every node of the whole.
    obtain ⟨e, depth, below⟩ := exists_depth_app op args
    have same : (args.map (derivative v)).length = args.length := List.length_map _
    have slopes : sum ((args.map (derivative v)).map size) ≤ sum (args.map size) * (5 * e) := by
      rw [sum_eq, sum_eq, List.map_map, ← List.sum_map_mul_right args size]
      refine List.sum_le_sum fun a ha => ?_
      calc
        (a.derivative v).size ≤ 5 * a.size * a.depth := ih a ha (operands a ha)
        _ ≤ 5 * a.size * e := Nat.mul_le_mul_left _ (below a ha)
        _ = a.size * (5 * e) := by ring
    rw [derivative_app, size_app, depth]
    calc
      (rule op args (args.map (derivative v))).size
          ≤ 5 * (1 + sum (args.map size)) + sum ((args.map (derivative v)).map size) :=
        size_le_of_ruled same (ruled count same)
      _ ≤ 5 * (1 + sum (args.map size)) + sum (args.map size) * (5 * e) :=
        Nat.add_le_add_left slopes _
      _ ≤ 5 * (1 + sum (args.map size)) + sum (args.map size) * (5 * e) + 5 * e :=
        Nat.le_add_right _ _
      _ = 5 * (1 + sum (args.map size)) * (e + 1) := by ring

theorem depth_derivative_le {t : Term} (wf : t.WellFormed) (v : Variable) {k : Nat}
    (wide : t.width ≤ k) : (t.derivative v).depth ≤ (k + 2) * t.depth := by
  induction t using ind with
  | var w =>
    rw [depth_derivative_var, depth_var]
    omega
  | const c =>
    have alone : ((const c).derivative v).depth = 1 := rfl
    rw [alone, depth_const]
    omega
  | app op args ih =>
    obtain ⟨count, operands⟩ := wellFormed_app.mp wf
    obtain ⟨e, depth, below⟩ := exists_depth_app op args
    obtain ⟨here, inner⟩ := width_app_le_iff.mp wide
    have same : (args.map (derivative v)).length = args.length := List.length_map _
    have kept : ∀ a ∈ args, a.depth ≤ (k + 2) * e := fun a ha =>
      (below a ha).trans (Nat.le_mul_of_pos_left e (Nat.succ_pos _))
    have slopes : ∀ d ∈ args.map (derivative v), d.depth ≤ (k + 2) * e :=
      List.forall_mem_map.mpr fun a ha =>
        (ih a ha (operands a ha) (inner a ha)).trans (Nat.mul_le_mul_left _ (below a ha))
    rw [derivative_app, depth]
    calc
      (rule op args (args.map (derivative v))).depth ≤ args.length + 2 + (k + 2) * e :=
        depth_le_of_ruled kept slopes (ruled count same)
      _ ≤ k + 2 + (k + 2) * e := Nat.add_le_add_right (Nat.add_le_add_right here 2) _
      _ = (k + 2) * (e + 1) := by ring

/-- A well-formed term has a derivative by each variable, of at most five times as many nodes as the
term has, taken as often as the term is deep, and at most as much deeper as the count of operands of
its widest operator and two. -/
theorem differentiate_growth (t : Term) (wf : t.WellFormed) (v : Variable) :
    ∃ d, t.differentiate v.name = .ok d ∧ d.size ≤ 5 * t.size * t.depth
      ∧ d.depth ≤ (t.width + 2) * t.depth :=
  ⟨_, differentiate_eq wf v, size_derivative_le wf v, depth_derivative_le wf v (Nat.le_refl _)⟩

theorem differentiate_growth_distance :
    let t := app (.distance .three) [var .x, app .div [var .y, var .x], .one]
    t.size = 6 ∧ t.depth = 3 ∧ t.width = 3
      ∧ ∃ d, t.differentiate "x" = .ok d ∧ d.size ≤ 90 ∧ d.depth ≤ 15 := by
  intro t
  exact ⟨rfl, rfl, rfl, differentiate_growth t (by decide) .x⟩

example : ((app .lse []).derivative .x).depth
    = ((app .lse []).width + 2) * (app .lse []).depth := by decide

end Formulae.Term
