import Formulae.Proofs.Acceptance
import Formulae.Proofs.DerivativeTerm
import Formulae.Term.Build
import Formulae.Term.Traversal
/-!
Equality of terms is equality of their texts. Terms are compared node by node and constants by their
decimal texts, which tell all doubles apart; the bracketed texts tell all well-formed terms apart.
So equal terms have the same derivatives, the same counts and the same values.
-/
namespace Formulae

open Reading

universe u

/-! ## Texts of constants -/

namespace Double

theorem decimalText_inj {c d : Double} (h : c.decimalText = d.decimalText) : c = d := by
  have chars : c.decimalChars = d.decimalChars := String.ofList_inj.mp h
  have read := readPlain?_decimalChars c
  rw [chars, readPlain?_decimalChars] at read
  exact (Option.some.inj read).symm

theorem constantText_inj {c d : Double} (h : c.constantText = d.constantText) : c = d := by
  have read := read?_constantText c
  rw [h, read?_constantText] at read
  exact (Option.some.inj read).symm

end Double

namespace Term

/-! ## Node by node -/

theorem sameAll_iff {as bs : List Term} (each : ∀ a ∈ as, ∀ b, a.same b = true ↔ a = b) :
    sameAll as bs = true ↔ as = bs := by
  induction as generalizing bs with
  | nil => cases bs <;> simp [sameAll]
  | cons a as ih =>
    obtain ⟨first, others⟩ := List.forall_mem_cons.mp each
    cases bs with
    | nil => simp [sameAll]
    | cons b bs => simp [sameAll, first b, ih others]

theorem same_iff {a b : Term} : a.same b = true ↔ a = b := by
  induction a using ind generalizing b with
  | var v =>
    cases b with
    | var w =>
      have names : v.name = w.name ↔ v = w := by cases v <;> cases w <;> decide
      simp [same, names]
    | const | app => simp [same]
  | const c =>
    cases b with
    | const d =>
      have texts : c.decimalText = d.decimalText ↔ c = d :=
        ⟨Double.decimalText_inj, congrArg _⟩
      simp [same, texts]
    | var | app => simp [same]
  | app op as ih =>
    cases b with
    | app oq bs => simp [same, sameAll_iff fun a ha b => ih a ha]
    | var | const => simp [same]

theorem same_equivalence : Equivalence fun a b : Term => a.same b = true where
  refl _ := same_iff.mpr rfl
  symm h := same_iff.mpr (same_iff.mp h).symm
  trans h h' := same_iff.mpr ((same_iff.mp h).trans (same_iff.mp h'))

/-! ## Bracketed texts -/

variable {reader : Reader} {style : Style} {a b : Term}

theorem eq_of_text (hr : Reads reader style) (ha : a.WellFormed) (hb : b.WellFormed)
    (h : a.text style = b.text style) : a = b := by
  have tokens : b.tokens style = a.tokens style := by
    rw [← tokenize_text, ← h, tokenize_text]
  have first : Derives style (a.tokens style) a := .of_wellFormed style ha
  have second : Derives style (a.tokens style) b := tokens ▸ .of_wellFormed style hb
  exact (derives_unique hr first second).symm

theorem same_iff_text (hr : Reads reader style) (ha : a.WellFormed) (hb : b.WellFormed) :
    a.same b = true ↔ a.text style = b.text style :=
  same_iff.trans ⟨congrArg _, eq_of_text hr ha hb⟩

/-! ## What equal terms share -/

/-- Neither term can be told from the other by what is made or counted or computed of it. -/
structure Interchangeable (a b : Term) : Prop where
  derivatives : ∀ v : Variable, ∃ da db, a.differentiate v.name = .ok da
    ∧ b.differentiate v.name = .ok db ∧ da.same db = true
  size : a.size = b.size
  depth : a.depth = b.depth
  vars : a.vars = b.vars
  constants : List.Forall₂ (fun c d => (const c).same (const d) = true) a.constants b.constants
  values : ∀ {α : Type u} (A : Arithmetic α) (x y z : Tensor α),
    a.evaluate A x y z = b.evaluate A x y z

theorem interchangeable_of_same (wf : a.WellFormed) (h : a.same b = true) :
    Interchangeable.{u} a b := by
  obtain rfl := same_iff.mp h
  exact {
    derivatives v := ⟨_, _, differentiate_eq wf v, differentiate_eq wf v, same_iff.mpr rfl⟩
    size := rfl
    depth := rfl
    vars := rfl
    constants := List.forall₂_same.mpr fun _ _ => same_iff.mpr rfl
    values _ _ _ _ := rfl }

/-- Well-formed terms are equal just if their texts are, in either bracketed style, and equal ones
are interchangeable. Equality is an equivalence; what is no number equals itself, the two zeros
differ, and doubles with one text inside a term have one decimal text. That an interpreter may run
out of stack on deep terms is left aside. -/
theorem same_textual (a b : Term) (ha : a.WellFormed) (hb : b.WellFormed) :
    (a.same b = true ↔ a.text .operatorFirst = b.text .operatorFirst)
      ∧ (a.same b = true ↔ a.text .operatorLast = b.text .operatorLast)
      ∧ (a.same b = true → Interchangeable.{u} a b)
      ∧ (Equivalence fun s t : Term => s.same t = true)
      ∧ (const .nan).same (const .nan) = true
      ∧ (const (.zero true)).same (const (.zero false)) = false
      ∧ ∀ c d : Double, c.constantText = d.constantText → c.decimalText = d.decimalText := by
  refine ⟨same_iff_text .first ha hb, same_iff_text .last ha hb, interchangeable_of_same ha,
    same_equivalence, same_iff.mpr rfl, by decide +kernel, ?_⟩
  intro c d texts
  rw [Double.constantText_inj texts]

theorem same_textual_signed_zeros :
    let sum (negative : Bool) := app .add [app .sumexp [], const (.zero negative)]
    (sum true).text .operatorLast = "((sumexp) -0 +)"
      ∧ (sum false).text .operatorLast = "((sumexp) 0 +)"
      ∧ (sum true).same (sum false) = false
      ∧ (sum true).same (sum true) = true ∧ Interchangeable.{u} (sum true) (sum true) := by
  intro sum
  have wf : ∀ negative, (sum negative).WellFormed := by decide
  have differs : (sum true).text .operatorLast ≠ (sum false).text .operatorLast := by
    decide +kernel
  obtain ⟨-, apart, -⟩ := same_textual.{u} (sum true) (sum false) (wf true) (wf false)
  obtain ⟨together, -, shared, -⟩ := same_textual.{u} (sum true) (sum true) (wf true) (wf true)
  have equal := together.mpr rfl
  refine ⟨by decide +kernel, by decide +kernel, ?_, equal, shared equal⟩
  simpa using mt apart.mp differs

end Term

end Formulae
