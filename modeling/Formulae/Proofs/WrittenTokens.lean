import Formulae.Proofs.ConstantText
import Formulae.Term.Written
import Mathlib.Data.List.Forall2
/-!
The tokens of a written term. Words are kept apart by spaces and brackets, so that a written term
falls into the names, symbols and constants that were put into it, and into its brackets.
-/
namespace Formulae

namespace Token

structure Word (cs : List Char) : Prop where
  nonempty : cs ≠ []
  plain : ∀ c ∈ cs, isPlain c = true

/-- A text that falls into given tokens, whatever follows that is no part of a word. -/
def Splits (cs : List Char) (tokens : List (List Char)) : Prop :=
  ∀ rest, startsPlain rest = false → split (cs ++ rest) = tokens ++ split rest

theorem splits_nil : Splits [] [] := fun _ _ => rfl

theorem Splits.word {cs : List Char} (h : Word cs) : Splits cs [cs] := by
  obtain ⟨nonempty, plain⟩ := h
  intro rest stop
  induction cs with
  | nil => exact absurd rfl nonempty
  | cons c cs ih =>
    have pc := plain c List.mem_cons_self
    cases cs with
    | nil => exact split_alone (isBlank_of_isPlain pc) (.inr stop)
    | cons d ds =>
      have pd := plain d (List.mem_cons_of_mem c List.mem_cons_self)
      have tail := ih (List.cons_ne_nil d ds) fun e he => plain e (List.mem_cons_of_mem c he)
      have more : startsPlain (d :: ds ++ rest) = true := pd
      rw [List.cons_append, split_joined pc more, tail]
      rfl

theorem Splits.append_space {cs ds : List Char} {ts us : List (List Char)} (hc : Splits cs ts)
    (hd : Splits ds us) : Splits (cs ++ ' ' :: ds) (ts ++ us) := by
  intro rest stop
  have gap : startsPlain (' ' :: (ds ++ rest)) = false := rfl
  have blank : Text.isBlank ' ' = true := by decide
  rw [List.append_assoc, List.cons_append, hc _ gap, split_blank blank, hd rest stop,
    List.append_assoc]

theorem Splits.spaced {words : List (List Char)} {tokens : List (List (List Char))}
    (h : List.Forall₂ Splits words tokens) : Splits (Style.spaced words) tokens.flatten := by
  induction h with
  | nil => exact splits_nil
  | @cons word ts words tss first others ih =>
    cases others with
    | nil =>
      have alone : Style.spaced [word] = word := by simp [Style.spaced, List.intercalate]
      rw [alone, List.flatten_singleton]
      exact first
    | @cons word' ts' words tss =>
      have cut : Style.spaced (word :: word' :: words)
          = word ++ ' ' :: Style.spaced (word' :: words) := by
        simp [Style.spaced, List.intercalate]
      rw [cut, List.flatten_cons]
      exact first.append_space ih

theorem Splits.bracketed {cs : List Char} {ts : List (List Char)} (h : Splits cs ts) :
    Splits (Style.bracketed cs) (['('] :: ts ++ [[')']]) := by
  intro rest stop
  have gap : startsPlain (')' :: rest) = false := rfl
  have cut : Style.bracketed cs ++ rest = '(' :: (cs ++ ')' :: rest) := by
    simp [Style.bracketed]
  rw [cut, split_bracket (by decide), h _ gap, split_bracket (by decide)]
  simp

end Token

def Style.arrange : Style → String → List String → List String
  | operatorFirst, op, inner => Token.openBracket :: op :: (inner ++ [Token.closeBracket])
  | operatorLast, op, inner => Token.openBracket :: (inner ++ [op, Token.closeBracket])
  | bare, op, inner => inner ++ [op]

theorem Style.arrange_inj {style : Style} {op op' : Op} {u u' : List String}
    (h : style.arrange op.symbol u = style.arrange op'.symbol u') : op = op' ∧ u = u' := by
  cases style with
  | operatorFirst =>
    obtain ⟨symbol, inner⟩ := List.cons.inj (List.cons.inj h).2
    exact ⟨Op.symbol_inj symbol, List.append_cancel_right inner⟩
  | operatorLast =>
    obtain ⟨inner, ends⟩ := List.append_inj' (List.cons.inj h).2 rfl
    exact ⟨Op.symbol_inj (List.cons.inj ends).1, inner⟩
  | bare =>
    obtain ⟨inner, ends⟩ := List.append_inj' h rfl
    exact ⟨Op.symbol_inj (List.cons.inj ends).1, inner⟩

namespace Term

def tokens (style : Style) : Term → List String :=
  fold (fun v => [v.name]) (fun c => [c.constantText]) fun op args =>
    style.arrange op.symbol args.flatten

theorem tokens_app (style : Style) (op : Op) (args : List Term) :
    (app op args).tokens style = style.arrange op.symbol (args.map (tokens style)).flatten :=
  fold_app ..

theorem tokens_app_flatMap (style : Style) (op : Op) (args : List Term) :
    (app op args).tokens style = style.arrange op.symbol (args.flatMap (tokens style)) := by
  rw [tokens_app, List.flatMap_def]

theorem word_name (v : Variable) : Token.Word v.name.toList := by
  cases v <;> exact ⟨by decide, List.all_eq_true.mp (by decide)⟩

theorem word_symbol (op : Op) : Token.Word op.symbol.toList := by
  have listed : ∀ op ∈ Op.all,
      op.symbol.toList ≠ [] ∧ op.symbol.toList.all Token.isPlain = true := by
    decide +kernel
  obtain ⟨nonempty, plain⟩ := listed op (Op.mem_all op)
  exact ⟨nonempty, List.all_eq_true.mp plain⟩

theorem word_constantChars (c : Double) : Token.Word c.constantChars :=
  ⟨Double.constantChars_ne_nil c, fun d hd => isPlain_of_isInk (Double.inked_constantChars c d hd)⟩

theorem splits_chars (style : Style) (t : Term) :
    Token.Splits (t.chars style) ((t.tokens style).map String.toList) := by
  induction t using ind with
  | var v => exact Token.Splits.word (word_name v)
  | const c =>
    have same : (const c).tokens style = [c.constantText] := rfl
    rw [same, List.map_singleton, Double.constantText, String.toList_ofList]
    exact Token.Splits.word (word_constantChars c)
  | app op args ih =>
    have operands : List.Forall₂ Token.Splits (args.map (chars style))
        (args.map fun a => (a.tokens style).map String.toList) := by
      rw [List.forall₂_map_left_iff, List.forall₂_map_right_iff, List.forall₂_same]
      exact ih
    have word := Token.Splits.word (word_symbol op)
    rw [chars_app, tokens_app]
    cases style with
    | operatorFirst =>
      have inner := (Token.Splits.spaced (.cons word operands)).bracketed
      simpa [Style.place, Style.arrange, Token.openBracket, Token.closeBracket, List.map_flatten,
        Function.comp_def] using inner
    | operatorLast =>
      have inner := (Token.Splits.spaced (List.rel_append operands (.cons word .nil))).bracketed
      simpa [Style.place, Style.arrange, Token.openBracket, Token.closeBracket, List.map_flatten,
        Function.comp_def] using inner
    | bare =>
      have inner := Token.Splits.spaced (List.rel_append operands (.cons word .nil))
      simpa [Style.place, Style.arrange, List.map_flatten, Function.comp_def] using inner

theorem tokenize_text (style : Style) (t : Term) :
    Token.tokenize (t.text style) = t.tokens style := by
  have cut := splits_chars style t [] rfl
  rw [List.append_nil, Token.split, List.append_nil] at cut
  rw [Token.tokenize, text, String.toList_ofList, cut, List.map_map]
  simp [Function.comp_def]

end Term

end Formulae
