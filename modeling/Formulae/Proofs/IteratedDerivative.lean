import Formulae.Proofs.DerivativeTerm
import Formulae.Proofs.LevelOrder
import Formulae.Proofs.Safety
/-!
Derivatives by one variable after the other. The rules put together the operands, their derivatives
and the constants zero, one and two, so what a term inherits from its operands its derivatives
inherit from it, however many rounds there are: they have no other constants and no other variables.
-/
namespace Formulae.Term

def differentiateAll (t : Term) (names : List String) : Except Refusal Term :=
  names.foldlM differentiate t

theorem differentiateAll_cons {t d : Term} {name : String} (first : t.differentiate name = .ok d)
    (names : List String) : t.differentiateAll (name :: names) = d.differentiateAll names := by
  rw [differentiateAll, List.foldlM_cons, first]
  rfl

/-! ## Inheritance -/

/-- A property of the constants in the rules that a term has just if all its operands have it. -/
structure Inherited (P : Term → Prop) : Prop where
  zero : P zero
  one : P one
  two : P two
  app : ∀ {op args}, P (app op args) ↔ ∀ a ∈ args, P a

namespace Inherited

variable {P : Term → Prop} {t : Term}

theorem closed (h : Inherited P) : Closed P := ⟨h.zero, h.two, fun _ operands => h.app.mpr operands⟩

theorem derivative (h : Inherited P) (wf : t.WellFormed) (ht : P t) (v : Variable) :
    P (t.derivative v) := by
  induction t using ind with
  | var w =>
    by_cases same : w = v
    · simpa [Term.derivative, same] using h.one
    · simpa [Term.derivative, same] using h.zero
  | const c => exact h.zero
  | app op args ih =>
    obtain ⟨count, operands⟩ := wellFormed_app.mp wf
    have inherited := h.app.mp ht
    rw [derivative_app]
    refine h.closed.rule count (List.length_map _) inherited ?_
    exact List.forall_mem_map.mpr fun a ha => ih a ha (operands a ha) (inherited a ha)

theorem exists_differentiateAll (h : Inherited P) (wf : t.WellFormed) (ht : P t)
    (vs : List Variable) :
    ∃ d, t.differentiateAll (vs.map Variable.name) = .ok d ∧ d.WellFormed ∧ P d := by
  induction vs generalizing t with
  | nil => exact ⟨t, rfl, wf, ht⟩
  | cons v vs ih =>
    obtain ⟨d, rounds, kept⟩ := ih (wf.derivative v) (h.derivative wf ht v)
    refine ⟨d, ?_, kept⟩
    rw [List.map_cons, differentiateAll_cons (differentiate_eq wf v), rounds]

end Inherited

theorem inherited_vars (t : Term) : Inherited fun s => s.vars ⊆ t.vars where
  zero := by simp [zero]
  one := by simp [one]
  two := by simp [two]
  app {op args} := by
    constructor
    · intro h a ha v hv
      exact h (mem_vars_app.mpr ⟨a, ha, hv⟩)
    · intro h v hv
      obtain ⟨a, ha, hv⟩ := mem_vars_app.mp hv
      exact h a ha hv

theorem constants_const (c : Double) : (const c).constants = [c] := by
  simp [constants, depthFirst, constOf?]

theorem inherited_constants (t : Term) :
    Inherited fun s =>
      ∀ c ∈ s.constants, c ∈ t.constants ∨ c ∈ [Double.zero false, .one, .two] where
  zero := by simp [zero, constants_const]
  one := by simp [one, constants_const]
  two := by simp [two, constants_const]
  app := by simp only [constants_app, List.forall_mem_flatMap, implies_true]

/-! ## Names that are no variables -/

theorem differentiate_unknown (t : Term) {name : String} (unknown : ∀ v : Variable, v.name ≠ name) :
    t.differentiate name = .error (.underivable name) := by
  have none_ : Variable.ofName? name = none := by
    cases known : Variable.ofName? name with
    | none => rfl
    | some v => exact absurd (Variable.name_of_ofName? known) (unknown v)
  simp [differentiate, none_]

theorem differentiateAll_unknown {t : Term} (wf : t.WellFormed) (vs : List Variable) {name : String}
    (unknown : ∀ v : Variable, v.name ≠ name) (names : List String) :
    t.differentiateAll (vs.map Variable.name ++ name :: names) = .error (.underivable name) := by
  induction vs generalizing t with
  | nil =>
    rw [List.map_nil, List.nil_append, differentiateAll, List.foldlM_cons,
      differentiate_unknown t unknown]
    rfl
  | cons v vs ih =>
    rw [List.map_cons, List.cons_append, differentiateAll_cons (differentiate_eq wf v),
      ih (wf.derivative v)]

/-- However often a well-formed term is differentiated, each constant is one of the term or zero,
one or two, and a valid term stays valid. The first name that is no variable ends the rounds with a
refusal of that name, which every term gives. -/
theorem differentiateAll_invents_nothing (t : Term) (wf : t.WellFormed) :
    (∀ vs : List Variable, ∃ d, t.differentiateAll (vs.map Variable.name) = .ok d ∧ d.WellFormed
        ∧ (∀ c ∈ d.constants, c ∈ t.constants ∨ c ∈ [Double.zero false, .one, .two])
        ∧ (t.isValid = true → d.isValid = true))
      ∧ (∀ (vs : List Variable) (name : String) (names : List String),
        (∀ v : Variable, v.name ≠ name) →
        t.differentiateAll (vs.map Variable.name ++ name :: names) = .error (.underivable name))
      ∧ ∀ (s : Term) (name : String), (∀ v : Variable, v.name ≠ name) →
        s.differentiate name = .error (.underivable name) := by
  refine ⟨?_, fun vs name names unknown => differentiateAll_unknown wf vs unknown names,
    fun s name unknown => differentiate_unknown s unknown⟩
  intro vs
  obtain ⟨d, rounds, wf', known⟩ :=
    (inherited_constants t).exists_differentiateAll wf (fun _ hc => Or.inl hc) vs
  refine ⟨d, rounds, wf', known, ?_⟩
  have small : ∀ c ∈ [Double.zero false, .one, .two], c.isFinite = true := by decide
  rw [wf.isValid_eq, wf'.isValid_eq, List.all_eq_true, List.all_eq_true]
  intro finite c hc
  exact (known c hc).elim (finite c) (small c)

theorem differentiateAll_invents_nothing_quotient :
    let quotient (c : Double) := app .div [const c, app (.distance .two) [var .x, var .y]]
    (∃ d, (quotient (.infinity true)).differentiateAll ["y", "x"] = .ok d
        ∧ ∀ c ∈ d.constants, c = .infinity true ∨ c ∈ [Double.zero false, .one, .two])
      ∧ (∃ d, (quotient .two).differentiateAll ["y", "x"] = .ok d ∧ d.isValid = true)
      ∧ (quotient .two).differentiateAll ["y", "w", "x"] = .error (.underivable "w")
      ∧ (const .two).differentiate "w" = .error (.underivable "w") := by
  intro quotient
  have unknown : ∀ v : Variable, v.name ≠ "w" := by
    intro v
    cases v <;> decide
  obtain ⟨infinite, -, -⟩ :=
    differentiateAll_invents_nothing (quotient (.infinity true)) (by decide)
  obtain ⟨finite, stops, all⟩ := differentiateAll_invents_nothing (quotient .two) (by decide)
  refine ⟨?_, ?_, stops [.y] "w" ["x"] unknown, all (const .two) "w" unknown⟩
  · have own : (quotient (.infinity true)).constants = [.infinity true] := by decide
    obtain ⟨d, rounds, -, known, -⟩ := infinite [.y, .x]
    rw [own] at known
    exact ⟨d, rounds, fun c hc => (known c hc).imp_left List.eq_of_mem_singleton⟩
  · obtain ⟨d, rounds, -, -, valid⟩ := finite [.y, .x]
    exact ⟨d, rounds, valid (by decide)⟩

end Formulae.Term
