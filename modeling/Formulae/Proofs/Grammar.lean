import Formulae.Proofs.WrittenTokens
import Formulae.Reading.Basic
import Formulae.Term.Measure
import Mathlib.Data.List.Infix
/-!
The grammar of written terms, apart from any reader: which tokens derive which term in a style. The
bracketed styles open and close brackets in pairs, and no more of them are open at once than the
term is nested deep.
-/
namespace Formulae

open Token

/-- The tokens of a term, where each constant may be written in any of its ways. A variable is not
also a number, so that the rules for leaves never meet. -/
inductive Derives (style : Style) : List String → Term → Prop
  | var (v : Variable) : Derives style [v.name] (.var v)
  | const {token : String} {c : Double} (number : Decimal.read? token = some c) :
      Derives style [token] (.const c)
  | app {op : Op} {parts : List (List String)} {args : List Term}
      (count : op.accepts args.length = true)
      (operands : List.Forall₂ (Derives style) parts args) :
      Derives style (style.arrange op.symbol parts.flatten) (.app op args)

namespace Derives

variable {style : Style}

mutual

theorem ind {motive : List String → Term → Prop} (var : ∀ v : Variable, motive [v.name] (.var v))
    (const : ∀ {token c}, Decimal.read? token = some c → motive [token] (.const c))
    (app : ∀ {op parts args}, Op.accepts op args.length = true →
      List.Forall₂ (Derives style) parts args → List.Forall₂ motive parts args →
      motive (style.arrange op.symbol parts.flatten) (.app op args)) :
    ∀ {tokens t}, Derives style tokens t → motive tokens t
  | _, _, .var v => var v
  | _, _, .const number => const number
  | _, _, .app count operands => app count operands (indAll var const app operands)

theorem indAll {motive : List String → Term → Prop} (var : ∀ v : Variable, motive [v.name] (.var v))
    (const : ∀ {token c}, Decimal.read? token = some c → motive [token] (.const c))
    (app : ∀ {op parts args}, Op.accepts op args.length = true →
      List.Forall₂ (Derives style) parts args → List.Forall₂ motive parts args →
      motive (style.arrange op.symbol parts.flatten) (.app op args)) :
    ∀ {parts args}, List.Forall₂ (Derives style) parts args → List.Forall₂ motive parts args
  | _, _, .nil => .nil
  | _, _, .cons h hs => .cons (ind var const app h) (indAll var const app hs)

end

end Derives

/-! ## Words that are no numbers -/

theorem read?_name (v : Variable) : Decimal.read? v.name = none := by cases v <;> decide +kernel

theorem read?_symbol (op : Op) : Decimal.read? op.symbol = none := by
  have listed : ∀ op ∈ Op.all, Decimal.read? op.symbol = none := by decide +kernel
  exact listed op (Op.mem_all op)

theorem read?_openBracket : Decimal.read? openBracket = none := by decide +kernel

theorem read?_closeBracket : Decimal.read? closeBracket = none := by decide +kernel

def Flat (token : String) : Prop := token ≠ openBracket ∧ token ≠ closeBracket

theorem flat_name (v : Variable) : Flat v.name := by cases v <;> exact ⟨by decide, by decide⟩

theorem flat_symbol (op : Op) : Flat op.symbol := by
  have listed : ∀ op ∈ Op.all, op.symbol ≠ openBracket ∧ op.symbol ≠ closeBracket := by
    decide +kernel
  exact listed op (Op.mem_all op)

theorem flat_of_number {token : String} {c : Double} (h : Decimal.read? token = some c) :
    Flat token := by
  constructor
  · rintro rfl
    exact nomatch read?_openBracket.symm.trans h
  · rintro rfl
    exact nomatch read?_closeBracket.symm.trans h

theorem flat_constantText (c : Double) : Flat c.constantText :=
  flat_of_number (Double.read?_constantText c)

/-! ## Nesting -/

def Balanced (tokens : List String) : Prop :=
  tokens.count openBracket = tokens.count closeBracket

/-- At most `most` brackets are open after each token. -/
def NestsWithin (most : Nat) (tokens : List String) : Prop :=
  ∀ front ∈ tokens.inits, front.count openBracket ≤ front.count closeBracket + most

instance (most : Nat) (tokens : List String) : Decidable (NestsWithin most tokens) :=
  inferInstanceAs (Decidable (∀ front ∈ tokens.inits, _))

theorem Flat.balanced {token : String} (h : Flat token) : Balanced [token] := by
  rw [Balanced, List.count_singleton, List.count_singleton]
  simp [h.1, h.2]

theorem Balanced.append {u v : List String} (hu : Balanced u) (hv : Balanced v) :
    Balanced (u ++ v) := by
  rw [Balanced, List.count_append, List.count_append, hu, hv]

theorem Balanced.flatten {parts : List (List String)} {args : List Term}
    (h : List.Forall₂ (fun u _ => Balanced u) parts args) : Balanced parts.flatten := by
  induction h with
  | nil => rfl
  | cons hu _ ih => exact hu.append ih

theorem Balanced.arrange (style : Style) (op : Op) {inner : List String} (h : Balanced inner) :
    Balanced (style.arrange op.symbol inner) := by
  have symbol := (flat_symbol op).balanced
  rw [Balanced] at symbol h ⊢
  cases style <;>
    simp only [Style.arrange, List.count_cons, List.count_append, List.count_nil] at symbol ⊢ <;>
    simp [openBracket, closeBracket] at symbol h ⊢ <;>
    omega

theorem NestsWithin.mono {m n : Nat} {tokens : List String} (h : NestsWithin m tokens)
    (le : m ≤ n) : NestsWithin n tokens := by
  intro front hf
  have bound := h front hf
  omega

theorem NestsWithin.left {most : Nat} {u v : List String} (h : NestsWithin most (u ++ v)) :
    NestsWithin most u := by
  intro front hf
  have shorter : front <+: u := (List.mem_inits _ _).mp hf
  exact h front ((List.mem_inits _ _).mpr (shorter.trans (List.prefix_append u v)))

theorem NestsWithin.right {most : Nat} {u v : List String} (hu : Balanced u)
    (h : NestsWithin most (u ++ v)) : NestsWithin most v := by
  intro front hf
  have longer : u ++ front ∈ (u ++ v).inits :=
    (List.mem_inits _ _).mpr ((List.prefix_append_right_inj u).mpr ((List.mem_inits _ _).mp hf))
  have bound := h _ longer
  rw [List.count_append, List.count_append, hu] at bound
  omega

theorem NestsWithin.inside {most : Nat} {u : List String}
    (h : NestsWithin most (openBracket :: u)) : ∃ m, most = m + 1 ∧ NestsWithin m u := by
  have step : ∀ front, front <+: u →
      front.count openBracket + 1 ≤ front.count closeBracket + most := by
    intro front hf
    have bound := h (openBracket :: front)
      ((List.mem_inits _ _).mpr (List.cons_prefix_cons.mpr ⟨rfl, hf⟩))
    simpa [List.count_cons, openBracket, closeBracket] using bound
  have first := step [] (List.nil_prefix)
  refine ⟨most - 1, by simp at first; omega, ?_⟩
  intro front hf
  have bound := step front ((List.mem_inits _ _).mp hf)
  omega

namespace Derives

variable {style : Style} {tokens : List String} {t : Term}

theorem ne_nil (h : Derives style tokens t) : tokens ≠ [] := by
  cases h with
  | var => exact List.cons_ne_nil _ _
  | const => exact List.cons_ne_nil _ _
  | app => cases style <;> simp [Style.arrange]

theorem balanced (h : Derives style tokens t) : Balanced tokens :=
  ind (motive := fun tokens _ => Balanced tokens) (fun v => (flat_name v).balanced)
    (fun number => (flat_of_number number).balanced)
    (fun {op} _ _ _ _ ih => (Balanced.flatten ih).arrange style op) h

theorem nesting_operands {parts : List (List String)} {args : List Term} {most : Nat}
    (ds : List.Forall₂ (Derives style) parts args)
    (ih : List.Forall₂ (fun u a => ∀ m, NestsWithin m u → a.nesting ≤ m) parts args)
    (within : NestsWithin most parts.flatten) : ∀ a ∈ args, a.nesting ≤ most := by
  induction ds with
  | nil => exact fun _ h => absurd h List.not_mem_nil
  | @cons u a parts args d _ inner =>
    cases ih with
    | cons first others =>
      rw [List.flatten_cons] at within
      intro b hb
      rcases List.mem_cons.mp hb with rfl | hb
      · exact first most within.left
      · exact inner others (within.right d.balanced) b hb

/-- Brackets of the tokens are open as deep as the term is nested. -/
theorem nesting_le (bracketed : style ≠ .bare) (h : Derives style tokens t) :
    ∀ most, NestsWithin most tokens → t.nesting ≤ most := by
  refine ind (motive := fun tokens t => ∀ most, NestsWithin most tokens → t.nesting ≤ most)
    ?_ ?_ ?_ h
  · intro v most _
    exact Nat.zero_le _
  · intro token c _ most _
    exact Nat.zero_le _
  · intro op parts args _ operands ih most within
    cases style with
    | bare => exact absurd rfl bracketed
    | operatorFirst =>
      obtain ⟨m, rfl, inside⟩ := NestsWithin.inside within
      have rest := NestsWithin.right (flat_symbol op).balanced inside
      exact Term.nesting_app_le_iff.mpr (nesting_operands operands ih rest.left)
    | operatorLast =>
      obtain ⟨m, rfl, inside⟩ := NestsWithin.inside within
      exact Term.nesting_app_le_iff.mpr (nesting_operands operands ih inside.left)

end Derives

/-! ## Standard spelling -/

/-- A token with each number written in its standard way. -/
def standard (token : String) : String :=
  match Decimal.read? token with
  | some c => c.constantText
  | none => token

theorem standard_of_not_number {token : String} (h : Decimal.read? token = none) :
    standard token = token := by
  rw [standard, h]

theorem standard_of_number {token : String} {c : Double} (h : Decimal.read? token = some c) :
    standard token = c.constantText := by
  rw [standard, h]

theorem map_standard_arrange (style : Style) (op : Op) (inner : List String) :
    (style.arrange op.symbol inner).map standard
      = style.arrange op.symbol (inner.map standard) := by
  have symbol := standard_of_not_number (read?_symbol op)
  have opening := standard_of_not_number read?_openBracket
  have closing := standard_of_not_number read?_closeBracket
  cases style <;> simp [Style.arrange, symbol, opening, closing]

theorem map_tokens_eq {style : Style} {parts : List (List String)} {args : List Term}
    (h : List.Forall₂ (fun u a => Term.tokens style a = u.map standard) parts args) :
    args.map (Term.tokens style) = parts.map (List.map standard) := by
  induction h with
  | nil => rfl
  | cons first _ others => rw [List.map_cons, List.map_cons, first, others]

/-- The term derived is written with the tokens that derive it, up to the spelling of numbers. -/
theorem Derives.tokens_eq {style : Style} {tokens : List String} {t : Term}
    (h : Derives style tokens t) : t.tokens style = tokens.map standard := by
  refine ind (motive := fun tokens t => t.tokens style = tokens.map standard) ?_ ?_ ?_ h
  · intro v
    exact congrArg (fun w => [w]) (standard_of_not_number (read?_name v)).symm
  · intro token c number
    exact congrArg (fun w => [w]) (standard_of_number number).symm
  · intro op parts args _ _ ih
    rw [Term.tokens_app, map_tokens_eq ih, map_standard_arrange, List.map_flatten]

theorem Derives.of_wellFormed (style : Style) {t : Term} (wf : t.WellFormed) :
    Derives style (t.tokens style) t := by
  induction t using Term.ind with
  | var v => exact .var v
  | const c => exact .const (Double.read?_constantText c)
  | app op args ih =>
    obtain ⟨count, operands⟩ := Term.wellFormed_app.mp wf
    rw [Term.tokens_app]
    refine .app count ?_
    rw [List.forall₂_map_left_iff, List.forall₂_same]
    exact fun a ha => ih a ha (operands a ha)

end Formulae
