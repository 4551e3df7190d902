import Formulae.Proofs.WrittenTokens
/-!
The tokens of any text. Each of them is a bracket or a word, so tokens that are put into one text
with a space between them come out of it again.
-/
namespace Formulae.Token

inductive Piece : List Char → Prop
  | bracket {c : Char} (h : isBracket c = true) : Piece [c]
  | word {cs : List Char} (h : Word cs) : Piece cs

theorem Word.cons {c : Char} {cs : List Char} (hc : isPlain c = true) (h : Word cs) :
    Word (c :: cs) :=
  ⟨List.cons_ne_nil c cs, List.forall_mem_cons.mpr ⟨hc, h.plain⟩⟩

theorem word_singleton {c : Char} (h : isPlain c = true) : Word [c] :=
  ⟨List.cons_ne_nil c [], List.forall_mem_singleton.mpr h⟩

theorem Piece.word_of_head {c : Char} {cs : List Char} (h : Piece (c :: cs))
    (plain : isPlain c = true) : Word (c :: cs) := by
  cases h with
  | bracket isBracket => simp [isPlain, isBracket] at plain
  | word h => exact h

theorem Piece.splits {cs : List Char} (h : Piece cs) : Splits cs [cs] := by
  cases h with
  | bracket isBracket => exact fun rest _ => split_bracket isBracket rest
  | word h => exact .word h

theorem extend_head (c : Char) (words : List (List Char)) :
    ∃ cs rest, extend c words = (c :: cs) :: rest := by
  cases words with
  | nil => exact ⟨[], [], rfl⟩
  | cons word words => exact ⟨word, words, rfl⟩

theorem split_head {c : Char} (plain : isPlain c = true) (cs : List Char) :
    ∃ word rest, split (c :: cs) = (c :: word) :: rest := by
  cases more : startsPlain cs with
  | true =>
    rw [split_joined plain more]
    exact extend_head c (split cs)
  | false => exact ⟨[], split cs, split_alone (isBlank_of_isPlain plain) (.inr more)⟩

theorem piece_of_mem_split {cs : List Char} : ∀ piece ∈ split cs, Piece piece := by
  induction cs with
  | nil => exact fun _ h => absurd h List.not_mem_nil
  | cons c cs ih =>
    obtain blank | bracket | plain := char_cases c
    · rwa [split_blank blank]
    · rw [split_bracket bracket]
      exact List.forall_mem_cons.mpr ⟨.bracket bracket, ih⟩
    · cases next : startsPlain cs with
      | false =>
        rw [split_alone (isBlank_of_isPlain plain) (.inr next)]
        exact List.forall_mem_cons.mpr ⟨.word (word_singleton plain), ih⟩
      | true =>
        cases cs with
        | nil => cases next
        | cons d ds =>
          obtain ⟨word, rest, pieces⟩ := split_head next ds
          rw [split_joined plain next]
          rw [pieces] at ih ⊢
          obtain ⟨first, others⟩ := List.forall_mem_cons.mp ih
          exact List.forall_mem_cons.mpr ⟨.word ((first.word_of_head next).cons plain), others⟩

theorem piece_of_mem_tokenize {text token : String} (h : token ∈ tokenize text) :
    Piece token.toList := by
  obtain ⟨cs, mem, rfl⟩ := List.mem_map.mp h
  rw [String.toList_ofList]
  exact piece_of_mem_split cs mem

/-- Tokens with spaces between them are the tokens of that text. -/
theorem tokenize_intercalate {tokens : List String} (h : ∀ token ∈ tokens, Piece token.toList) :
    tokenize (" ".intercalate tokens) = tokens := by
  have pieces : List.Forall₂ Splits (tokens.map String.toList)
      (tokens.map fun token => [token.toList]) := by
    rw [List.forall₂_map_left_iff, List.forall₂_map_right_iff, List.forall₂_same]
    exact fun token mem => (h token mem).splits
  have cut := Splits.spaced pieces [] rfl
  rw [List.append_nil, split, List.append_nil] at cut
  have text : (" ".intercalate tokens).toList = Style.spaced (tokens.map String.toList) :=
    String.toList_intercalate
  rw [tokenize, text, cut, ← List.flatMap_def, List.map_flatMap]
  simp

end Formulae.Token
