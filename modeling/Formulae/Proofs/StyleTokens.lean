import Formulae.Proofs.LevelOrder
import Formulae.Proofs.OperandCount
/-!
The tokens of one term in the three styles. The styles put an operator first or last and give it
brackets or none, so they share the tokens that are no brackets, and the operands keep their order.
Each operator of a bracketed style adds one pair of brackets, which closes what it opens.
-/
namespace Formulae

open Token Reading

/-! ## Brackets -/

theorem Flat.count_openBracket {token : String} (h : Flat token) :
    [token].count openBracket = 0 := by
  simp [h.1]

theorem Flat.count_closeBracket {token : String} (h : Flat token) :
    [token].count closeBracket = 0 := by
  simp [h.2]

theorem length_eq_unbracketed (tokens : List String) :
    tokens.length = (unbracketed tokens).length
      + (tokens.count openBracket + tokens.count closeBracket) := by
  induction tokens with
  | nil => rfl
  | cons token tokens ih =>
    have alone : 1 = (unbracketed [token]).length
        + ([token].count openBracket + [token].count closeBracket) := by
      by_cases opens : token = openBracket
      · subst opens
        decide
      · by_cases closes : token = closeBracket
        · subst closes
          decide
        · simp [unbracketed, opens, closes]
    have cut : unbracketed (token :: tokens) = unbracketed [token] ++ unbracketed tokens :=
      List.filter_append [token] tokens
    rw [← List.singleton_append, List.count_append, List.count_append, List.singleton_append, cut,
      List.length_append, List.length_cons]
    omega

/-- No bracket is closed before it is opened, and none is left open. -/
structure WellBracketed (tokens : List String) : Prop where
  balanced : Balanced tokens
  opened : ∀ front, front <+: tokens → front.count closeBracket ≤ front.count openBracket

namespace WellBracketed

theorem nil : WellBracketed [] where
  balanced := rfl
  opened front hf := by
    rw [List.prefix_nil.mp hf]
    exact Nat.le_refl 0

theorem of_flat {token : String} (h : Flat token) : WellBracketed [token] where
  balanced := h.balanced
  opened front hf := by
    have none := h.count_closeBracket
    have fewer := hf.sublist.count_le closeBracket
    omega

theorem append {u v : List String} (hu : WellBracketed u) (hv : WellBracketed v) :
    WellBracketed (u ++ v) where
  balanced := hu.balanced.append hv.balanced
  opened front hf := by
    rcases List.prefix_or_prefix_of_prefix hf (List.prefix_append u v) with within | ⟨back, rfl⟩
    · exact hu.opened front within
    · have later := hv.opened back ((List.prefix_append_right_inj u).mp hf)
      have settled := hu.balanced
      rw [Balanced] at settled
      rw [List.count_append, List.count_append]
      omega

theorem flatMap {ts : List Term} {f : Term → List String} (each : ∀ t ∈ ts, WellBracketed (f t)) :
    WellBracketed (ts.flatMap f) := by
  induction ts with
  | nil => exact nil
  | cons t ts ih =>
    obtain ⟨first, others⟩ := List.forall_mem_cons.mp each
    exact first.append (ih others)

theorem enclosed {u : List String} (h : WellBracketed u) :
    WellBracketed (openBracket :: (u ++ [closeBracket])) := by
  have settled := h.balanced
  rw [Balanced] at settled
  have opens (w : List String) : (openBracket :: w).count openBracket = w.count openBracket + 1 :=
    List.count_cons_self
  have closes (w : List String) : (openBracket :: w).count closeBracket = w.count closeBracket :=
    List.count_cons_of_ne (by decide)
  have whole : Balanced (openBracket :: (u ++ [closeBracket])) := by
    rw [Balanced, opens, closes, List.count_append, List.count_append, settled]
    rfl
  -- the last bracket closes the first, so only a front that stops before it is left to the operands
  refine ⟨whole, fun front hf => ?_⟩
  rcases List.prefix_cons_iff.mp hf with rfl | ⟨front, rfl, inner⟩
  · exact Nat.le_refl 0
  · rcases List.prefix_concat_iff.mp inner with rfl | within
    · exact Nat.le_of_eq whole.symm
    · have before := h.opened front within
      rw [opens, closes]
      omega

theorem arrange (style : Style) (op : Op) {inner : List String} (h : WellBracketed inner) :
    WellBracketed (style.arrange op.symbol inner) := by
  have symbol := of_flat (flat_symbol op)
  cases style with
  | operatorFirst => exact (symbol.append h).enclosed
  | operatorLast =>
    have whole := (h.append symbol).enclosed
    rwa [List.append_assoc] at whole
  | bare => exact h.append symbol

end WellBracketed

namespace Term

theorem wellBracketed_tokens (style : Style) (t : Term) : WellBracketed (t.tokens style) := by
  induction t using ind with
  | var v => exact .of_flat (flat_name v)
  | const c => exact .of_flat (flat_constantText c)
  | app op args ih =>
    rw [tokens_app_flatMap]
    exact (WellBracketed.flatMap ih).arrange style op

/-! ## The same tokens -/

theorem unbracketed_tokens (t : Term) : unbracketed (t.tokens .operatorLast) = t.tokens .bare := by
  induction t using ind with
  | var v => exact unbracketed_flat (flat_name v)
  | const c => exact unbracketed_flat (flat_constantText c)
  | app op args ih =>
    rw [tokens_app, tokens_app, unbracketed_arrange, unbracketed_flatten, List.map_map]
    exact congrArg (fun parts => Style.bare.arrange op.symbol parts.flatten)
      (List.map_congr_left ih)

theorem tokens_perm (t : Term) : (t.tokens .operatorFirst).Perm (t.tokens .operatorLast) := by
  induction t using ind with
  | var | const => exact .refl _
  | app op args ih =>
    have inner : (args.flatMap (tokens .operatorFirst)).Perm
        (args.flatMap (tokens .operatorLast)) := .flatMap_left args ih
    have moved := (List.perm_append_singleton op.symbol (args.flatMap (tokens .operatorFirst))).symm
    have passed := moved.trans (inner.append_right [op.symbol])
    rw [tokens_app_flatMap, tokens_app_flatMap]
    simpa [Style.arrange] using (passed.append_right [closeBracket]).cons openBracket

def operators (t : Term) : Nat := t.depthFirst.countP fun s => s.kind = .operatorNode

theorem operators_app (op : Op) (args : List Term) :
    (app op args).operators = sum (args.map operators) + 1 := by
  rw [operators, depthFirst_app, List.countP_cons_of_pos (by rfl),
    countP_flatMap_eq_sum fun _ _ => rfl]
  rfl

theorem count_openBracket_tokens (t : Term) :
    (t.tokens .operatorLast).count openBracket = t.operators := by
  induction t using ind with
  | var v => exact (flat_name v).count_openBracket
  | const c => exact (flat_constantText c).count_openBracket
  | app op args ih =>
    have inner : (args.flatMap (tokens .operatorLast)).count openBracket
        = sum (args.map operators) := countP_flatMap_eq_sum ih
    have ends : [op.symbol, closeBracket].count openBracket = 0 := by
      simpa [List.count_cons, openBracket, closeBracket] using (flat_symbol op).count_openBracket
    rw [tokens_app_flatMap, Style.arrange, List.count_cons_self, List.count_append, inner, ends,
      operators_app]

theorem length_tokens (t : Term) :
    (t.tokens .operatorLast).length = t.size + 2 * t.operators := by
  have pairs := (t.wellBracketed_tokens .operatorLast).balanced
  rw [length_eq_unbracketed, unbracketed_tokens, length_tokens_bare, ← pairs,
    count_openBracket_tokens, Nat.two_mul]

/-! ## The order of the operands -/

def leafToken? : Term → Option String
  | var v => some v.name
  | const c => some c.constantText
  | app _ _ => none

theorem filter_arrange {p : String → Bool} (symbols : ∀ op : Op, p op.symbol = false)
    (opening : p openBracket = false) (closing : p closeBracket = false) (style : Style) (op : Op)
    (inner : List String) : (style.arrange op.symbol inner).filter p = inner.filter p := by
  cases style <;> simp [Style.arrange, symbols, opening, closing]

/-- Tokens of leaves that meet a condition stand in any style in the order of the leaves. -/
theorem filter_tokens {p : String → Bool} (symbols : ∀ op : Op, p op.symbol = false)
    (opening : p openBracket = false) (closing : p closeBracket = false) (style : Style) (t : Term) :
    (t.tokens style).filter p = (t.depthFirst.filterMap leafToken?).filter p := by
  induction t using ind with
  | var | const => rfl
  | app op args ih =>
    rw [tokens_app_flatMap, filter_arrange symbols opening closing, List.filter_flatMap,
      depthFirst_app, List.filterMap_cons_none rfl, List.filterMap_flatMap, List.filter_flatMap]
    exact List.flatMap_congr ih

theorem filter_isLeaf_tokens (style : Style) (t : Term) :
    (t.tokens style).filter isLeaf = t.depthFirst.filterMap leafToken? := by
  have leaves : ∀ token ∈ t.depthFirst.filterMap leafToken?, isLeaf token = true := by
    intro token mem
    obtain ⟨s, -, written⟩ := List.mem_filterMap.mp mem
    cases s with
    | var v =>
      cases written
      simp [isLeaf_eq, ofToken?_name]
    | const c =>
      cases written
      simp [isLeaf, Double.read?_constantText]
    | app => cases written
  rw [filter_tokens (by simp [isLeaf_eq, ofToken?_symbol]) (by decide +kernel)
    (by decide +kernel), List.filter_eq_self.mpr leaves]

theorem filter_number_tokens (style : Style) (t : Term) :
    (t.tokens style).filter (fun token => (Decimal.read? token).isSome)
      = t.constants.map Double.constantText := by
  rw [filter_tokens (by simp [read?_symbol]) (by simp [read?_openBracket])
    (by simp [read?_closeBracket]), constants, List.map_filterMap, List.filter_filterMap]
  congr 1
  funext s
  cases s <;> simp [leafToken?, constOf?, read?_name, Double.read?_constantText]

/-! ## The three styles -/

/-- Without its brackets, a term with its operators last is the term without brackets, which has a
token for each node. The bracketed styles have the same tokens, two more for each operator, and
close each bracket that they open. The tokens of the operands are in every style those of the leaves
in their order, and the numbers among them are those of the constants. -/
theorem styles_agree (t : Term) :
    unbracketed (tokenize (t.text .operatorLast)) = tokenize (t.text .bare)
    ∧ (tokenize (t.text .bare)).length = t.size
    ∧ (tokenize (t.text .operatorFirst)).Perm (tokenize (t.text .operatorLast))
    ∧ (tokenize (t.text .operatorFirst)).length = t.size + 2 * t.operators
    ∧ (tokenize (t.text .operatorLast)).length = t.size + 2 * t.operators
    ∧ (∀ style, WellBracketed (tokenize (t.text style)))
    ∧ (∀ style, (tokenize (t.text style)).filter isLeaf = t.depthFirst.filterMap leafToken?)
    ∧ ∀ style, (tokenize (t.text style)).filter (fun token => (Decimal.read? token).isSome)
        = t.constants.map Double.constantText := by
  simp only [tokenize_text]
  have same := t.tokens_perm
  exact ⟨t.unbracketed_tokens, t.length_tokens_bare, same, same.length_eq.trans t.length_tokens,
    t.length_tokens, (wellBracketed_tokens · t), (filter_isLeaf_tokens · t),
    (filter_number_tokens · t)⟩

end Term

end Formulae
