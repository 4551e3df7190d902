import Formulae.Proofs.CheckedReading
import Formulae.Proofs.DerivativeTerm
/-!
Sessions: one node after the other is made by a constructor, by a reader or by differentiation, from
those that were made before. The nodes that sessions make are just the well-formed terms.
-/
namespace Formulae

open Token

/-! ## Making nodes -/

/-- A node that one call makes. Its operands, or the node that it differentiates, come from earlier
calls; brackets may be open to any limit. -/
inductive Makes (made : List Term) : Term → Prop
  | named {name : String} {t : Term} (call : Term.ofName name = .ok t) : Makes made t
  | number {v : Foreign} {c : Double} (call : v.number = .ok c) : Makes made (.const c)
  | operator {a : Operand} {operands : List Operand} {t : Term}
      (earlier : ∀ s, Operand.term s ∈ operands → s ∈ made)
      (call : Term.apply a operands = .ok t) : Makes made t
  | reading {style : Style} {limit : Reading.Limit} {text : String} {t : Term}
      (call : Reading.ofTokens style limit (tokenize text) = .ok t) : Makes made t
  | derivative {s d : Term} {name : String} (earlier : s ∈ made)
      (call : s.differentiate name = .ok d) : Makes made d

/-- The nodes that some calls make, the last one first. A call that fails makes none. -/
inductive Session : List Term → Prop
  | start : Session []
  | call {made : List Term} {t : Term} (before : Session made) (makes : Makes made t) :
      Session (t :: made)

theorem Term.wellFormed_of_differentiate {s d : Term} {name : String} (wf : s.WellFormed)
    (h : s.differentiate name = .ok d) : d.WellFormed := by
  cases known : Variable.ofName? name with
  | none =>
    simp only [differentiate, known] at h
    cases h
  | some v =>
    rw [← Variable.name_of_ofName? known, differentiate_eq wf v] at h
    cases h
    exact wf.derivative v

theorem Makes.wellFormed {made : List Term} {t : Term} (makes : Makes made t)
    (wf : ∀ s ∈ made, s.WellFormed) : t.WellFormed := by
  cases makes with
  | named call =>
    unfold Term.ofName at call
    split at call
    · cases call
      exact .var _
    · cases call
  | number => exact .const _
  | operator earlier call =>
    obtain ⟨op, args, -, rfl, count, rfl⟩ := Term.apply_ok_iff.mp call
    exact .app count fun a ha => wf a (earlier a (List.mem_map_of_mem ha))
  | reading call => exact Reading.wellFormed_of_ofTokens call
  | derivative earlier call => exact Term.wellFormed_of_differentiate (wf _ earlier) call

theorem Session.wellFormed {made : List Term} (session : Session made) :
    ∀ t ∈ made, t.WellFormed := by
  induction session with
  | start => simp
  | call _ makes ih => exact List.forall_mem_cons.mpr ⟨makes.wellFormed ih, ih⟩

theorem Session.exists_all {args made : List Term} (session : Session made)
    (each : ∀ a ∈ args, ∀ made, Session made → ∃ made', Session made' ∧ made ⊆ made' ∧ a ∈ made') :
    ∃ made', Session made' ∧ made ⊆ made' ∧ ∀ a ∈ args, a ∈ made' := by
  induction args generalizing made with
  | nil => exact ⟨made, session, List.Subset.refl made, by simp⟩
  | cons a args ih =>
    obtain ⟨first, others⟩ := List.forall_mem_cons.mp each
    obtain ⟨middle, session, kept, here⟩ := first made session
    obtain ⟨made', session, kept', there⟩ := ih session others
    exact ⟨made', session, List.Subset.trans kept kept', List.forall_mem_cons.mpr ⟨kept' here, there⟩⟩

theorem Session.exists_call {made made' : List Term} {t : Term} (session : Session made')
    (kept : made ⊆ made') (makes : Makes made' t) :
    ∃ made', Session made' ∧ made ⊆ made' ∧ t ∈ made' :=
  ⟨_, session.call makes, List.subset_cons_of_subset t kept, List.mem_cons_self⟩

/-- Constructors alone make every well-formed term, whatever was made before. -/
theorem Session.exists_of_wellFormed {t : Term} (wf : t.WellFormed) {made : List Term}
    (session : Session made) : ∃ made', Session made' ∧ made ⊆ made' ∧ t ∈ made' := by
  induction t using Term.ind generalizing made with
  | var v =>
    have call : Term.ofName v.name = .ok (.var v) := by
      simp only [Term.ofName, Variable.ofName?_name]
    exact session.exists_call (List.Subset.refl made) (.named call)
  | const c =>
    have call : (Foreign.real c).number = .ok c := rfl
    exact session.exists_call (List.Subset.refl made) (.number call)
  | app op args ih =>
    obtain ⟨count, operands⟩ := Term.wellFormed_app.mp wf
    -- a session for one operand goes on from that of the operands before it
    obtain ⟨made', session, kept, all⟩ :=
      session.exists_all fun a ha made session => ih a ha (operands a ha) session
    have earlier : ∀ s, Operand.term s ∈ args.map Operand.term → s ∈ made' := by simpa using all
    exact session.exists_call kept (.operator earlier (Term.construct_eq count))

theorem exists_session_iff {t : Term} : (∃ made, Session made ∧ t ∈ made) ↔ t.WellFormed := by
  constructor
  · rintro ⟨made, session, mem⟩
    exact session.wellFormed t mem
  · intro wf
    obtain ⟨made, session, -, mem⟩ := Session.start.exists_of_wellFormed wf
    exact ⟨made, session, mem⟩

end Formulae
