import Formulae.Proofs.Spacing
import Formulae.Reading.Basic
import Mathlib.Data.List.Chain
/-!
How the tokens of a text stand in it: one after the other, with gaps of blanks around them, and with
a blank in the gap between two words. No text can be laid out in two ways, so the blanks have no part
in its tokens beyond keeping words apart, and none in what is read from them.
-/
namespace Formulae.Token

variable {c d : Char} {cs ds gap : List Char}

/-! ## Texts put together -/

theorem startsPlain_append (h : cs ≠ []) (ds : List Char) :
    startsPlain (cs ++ ds) = startsPlain cs := by
  cases cs with
  | nil => exact absurd rfl h
  | cons => rfl

theorem extend_append {words : List (List Char)} (h : words ≠ []) (c : Char)
    (more : List (List Char)) : extend c (words ++ more) = extend c words ++ more := by
  cases words with
  | nil => exact absurd rfl h
  | cons => rfl

def endsPlain (cs : List Char) : Bool := startsPlain cs.reverse

theorem endsPlain_cons (c : Char) (h : cs ≠ []) : endsPlain (c :: cs) = endsPlain cs := by
  rw [endsPlain, List.reverse_cons, startsPlain_append (by simpa using h), endsPlain]

/-- Where no word goes on from one text to the next, the tokens of both are those of the whole. -/
theorem split_append (apart : endsPlain cs = false ∨ startsPlain ds = false) :
    split (cs ++ ds) = split cs ++ split ds := by
  induction cs with
  | nil => rfl
  | cons c cs ih =>
    -- The last character decides `apart`, so the hypothesis passes to a rest that is not empty.
    have inner : split (cs ++ ds) = split cs ++ split ds := by
      cases cs with
      | nil => rfl
      | cons d rest =>
        exact ih (apart.imp_left fun h => by rwa [endsPlain_cons c (List.cons_ne_nil d rest)] at h)
    rw [List.cons_append]
    obtain blank | bracket | plain := char_cases c
    · rw [split_blank blank, split_blank blank, inner]
    · rw [split_bracket bracket, split_bracket bracket, inner, List.cons_append]
    · cases more : startsPlain cs with
      | true =>
        cases cs with
        | nil => cases more
        | cons d rest =>
          have more' : startsPlain (d :: rest ++ ds) = true := more
          rw [split_joined plain more, split_joined plain more', inner,
            extend_append (split_ne_nil more rest)]
      | false =>
        have stop : startsPlain (cs ++ ds) = false := by
          cases cs with
          | nil => exact apart.resolve_left (by simp [endsPlain, startsPlain, plain])
          | cons => exact more
        rw [split_alone (isBlank_of_isPlain plain) (.inr more),
          split_alone (isBlank_of_isPlain plain) (.inr stop), inner, List.cons_append]

theorem tokenize_append {text more : String}
    (apart : endsPlain text.toList = false ∨ startsPlain more.toList = false) :
    tokenize (text ++ more) = tokenize text ++ tokenize more := by
  rw [tokenize, String.toList_append, split_append apart, List.map_append]
  rfl

/-! ## Words between blanks -/

/-- A text with a space on each side of every bracket. -/
def spread (cs : List Char) : List Char :=
  cs.flatMap fun c => if isBracket c then [' ', c, ' '] else [c]

def words (cs : List Char) : List (List Char) :=
  (cs.splitOnP Text.isBlank).filter (!·.isEmpty)

theorem words_blank (blank : Text.isBlank c = true) (cs : List Char) :
    words (c :: cs) = words cs := by
  simp [words, List.splitOnP_cons_eq_if_modifyHead, blank]

theorem words_joined (hc : Text.isBlank c = false) (hd : Text.isBlank d = false) (cs : List Char) :
    words (c :: d :: cs) = extend c (words (d :: cs)) := by
  obtain ⟨word, rest, cut⟩ := List.exists_cons_of_ne_nil (List.splitOnP_ne_nil Text.isBlank cs)
  simp [words, List.splitOnP_cons_eq_if_modifyHead, hc, hd, cut, extend]

theorem words_alone (hc : Text.isBlank c = false) (stop : ∀ d ∈ cs.head?, Text.isBlank d = true) :
    words (c :: cs) = [c] :: words cs := by
  cases cs with
  | nil => simp [words, List.splitOnP_cons_eq_if_modifyHead, List.splitOnP_nil, hc]
  | cons d cs =>
    have blank := stop d rfl
    simp [words, List.splitOnP_cons_eq_if_modifyHead, hc, blank]

theorem isBracket_of_isBlank (h : Text.isBlank c = true) : isBracket c = false := by
  by_contra bracket
  rw [Bool.not_eq_false] at bracket
  exact Bool.false_ne_true ((isBlank_of_isBracket bracket).symm.trans h)

theorem isBracket_of_isPlain (h : isPlain c = true) : isBracket c = false := by
  simp only [isPlain, Bool.and_eq_true, Bool.not_eq_true'] at h
  exact h.1

theorem spread_bracket (h : isBracket c = true) (cs : List Char) :
    spread (c :: cs) = ' ' :: c :: ' ' :: spread cs := by
  simp [spread, h]

theorem spread_other (h : isBracket c = false) (cs : List Char) :
    spread (c :: cs) = c :: spread cs := by
  simp [spread, h]

theorem isBlank_space : Text.isBlank ' ' = true := by decide

theorem isBlank_head_spread (stop : startsPlain cs = false) :
    ∀ d ∈ (spread cs).head?, Text.isBlank d = true := by
  cases cs with
  | nil => simp [spread]
  | cons c cs =>
    obtain blank | bracket | plain := char_cases c
    · simpa [spread_other (isBracket_of_isBlank blank)] using blank
    · simpa [spread_bracket bracket] using isBlank_space
    · exact absurd (stop.symm.trans plain) Bool.false_ne_true

theorem split_eq_words (cs : List Char) : split cs = words (spread cs) := by
  induction cs with
  | nil => rfl
  | cons c cs ih =>
    obtain blank | bracket | plain := char_cases c
    · rw [split_blank blank, spread_other (isBracket_of_isBlank blank), words_blank blank, ih]
    · rw [split_bracket bracket, spread_bracket bracket, words_blank isBlank_space,
        words_alone (isBlank_of_isBracket bracket) (by simpa using isBlank_space),
        words_blank isBlank_space, ih]
    · have ink := isBlank_of_isPlain plain
      rw [spread_other (isBracket_of_isPlain plain)]
      cases more : startsPlain cs with
      | false => rw [split_alone ink (.inr more), words_alone ink (isBlank_head_spread more), ih]
      | true =>
        cases cs with
        | nil => cases more
        | cons d ds =>
          have plain' : isPlain d = true := more
          rw [split_joined plain more, ih, spread_other (isBracket_of_isPlain plain'),
            words_joined ink (isBlank_of_isPlain plain')]

/-! ## Layouts -/

structure Cell where
  gap : List Char
  piece : List Char

/-- A text by its pieces, with a gap before each of them and one at the end. There are only blanks in
the gaps, and two words have some between them. -/
structure Layout where
  cells : List Cell
  last : List Char
  piece : ∀ cell ∈ cells, Piece cell.piece
  blank : ∀ gap ∈ last :: cells.map Cell.gap, ∀ c ∈ gap, Text.isBlank c = true
  apart : cells.IsChain fun before after => Word before.piece → Word after.piece → after.gap ≠ []

namespace Layout

def chars (l : Layout) : List Char := l.cells.flatMap (fun cell => cell.gap ++ cell.piece) ++ l.last

def text (l : Layout) : String := String.ofList l.chars

def tokens (l : Layout) : List String := l.cells.map fun cell => String.ofList cell.piece

end Layout

theorem split_gap (blank : ∀ c ∈ gap, Text.isBlank c = true) (cs : List Char) :
    split (gap ++ cs) = split cs := by
  induction gap with
  | nil => rfl
  | cons c gap ih =>
    obtain ⟨first, others⟩ := List.forall_mem_cons.mp blank
    rw [List.cons_append, split_blank first, ih others]

theorem Piece.isBlank_eq {cs : List Char} (h : Piece cs) : ∀ c ∈ cs, Text.isBlank c = false := by
  cases h with
  | bracket bracket => exact List.forall_mem_singleton.mpr (isBlank_of_isBracket bracket)
  | word word => exact fun c mem => isBlank_of_isPlain (word.plain c mem)

theorem isPlain_of_isBlank (h : Text.isBlank c = true) : isPlain c = false := by
  simp [isPlain, h]

theorem startsPlain_gap (blank : ∀ c ∈ gap, Text.isBlank c = true) : startsPlain gap = false := by
  cases gap with
  | nil => rfl
  | cons c gap => exact isPlain_of_isBlank (blank c List.mem_cons_self)

/-- A piece that no word goes on from is a token. -/
theorem split_piece {piece : List Char} (h : Piece piece)
    (stop : Word piece → startsPlain cs = false) : split (piece ++ cs) = piece :: split cs := by
  cases h with
  | bracket bracket => exact split_bracket bracket cs
  | word word => exact Splits.word word cs (stop word)

theorem startsPlain_cell {cell : Cell} (piece : Piece cell.piece)
    (blank : ∀ c ∈ cell.gap, Text.isBlank c = true) (apart : Word cell.piece → cell.gap ≠ [])
    (rest : List Char) : startsPlain (cell.gap ++ cell.piece ++ rest) = false := by
  obtain ⟨gap, cs⟩ := cell
  cases gap with
  | cons c gap => exact isPlain_of_isBlank (blank c List.mem_cons_self)
  | nil =>
    cases piece with
    | bracket bracket => exact isPlain_of_isBracket bracket
    | word word => exact absurd rfl (apart word)

namespace Layout

theorem split_chars (l : Layout) : split l.chars = l.cells.map Cell.piece := by
  obtain ⟨cells, last, piece, blank, apart⟩ := l
  induction cells with
  | nil =>
    have none_ := split_gap (blank last List.mem_cons_self) []
    rwa [List.append_nil] at none_
  | cons cell cells ih =>
    obtain ⟨first, others⟩ := List.forall_mem_cons.mp piece
    obtain ⟨end_, before, gaps⟩ : (∀ c ∈ last, Text.isBlank c = true)
        ∧ (∀ c ∈ cell.gap, Text.isBlank c = true)
        ∧ ∀ gap ∈ cells.map Cell.gap, ∀ c ∈ gap, Text.isBlank c = true := by
      simpa only [List.map_cons, List.forall_mem_cons] using blank
    obtain ⟨next, chain⟩ := List.isChain_cons.mp apart
    have rest := ih others (List.forall_mem_cons.mpr ⟨end_, gaps⟩) chain
    have stop : Word cell.piece →
        startsPlain (cells.flatMap (fun cell => cell.gap ++ cell.piece) ++ last) = false := by
      intro word
      cases cells with
      | nil => exact startsPlain_gap end_
      | cons after cells =>
        rw [List.flatMap_cons, List.append_assoc]
        exact startsPlain_cell (others after List.mem_cons_self)
          (gaps after.gap (List.mem_map_of_mem List.mem_cons_self)) (next after rfl word) _
    rw [chars, List.flatMap_cons, List.append_assoc, List.append_assoc, split_gap before,
      split_piece first stop]
    exact congrArg _ rest

theorem exists_cons (c : Char) (l : Layout) : ∃ l' : Layout, l'.chars = c :: l.chars := by
  obtain ⟨cells, last, piece, blank, apart⟩ := l
  obtain isBlank | bracket | plain := char_cases c
  · cases cells with
    | nil =>
      refine ⟨⟨[], c :: last, piece, ?_, apart⟩, rfl⟩
      simpa [isBlank] using blank
    | cons cell cells =>
      refine ⟨⟨⟨c :: cell.gap, cell.piece⟩ :: cells, last, ?_, ?_, ?_⟩, rfl⟩
      · simpa using piece
      · simpa [isBlank] using blank
      · exact List.isChain_cons.mpr (List.isChain_cons.mp apart)
  · refine ⟨⟨⟨[], [c]⟩ :: cells, last, ?_, ?_, ?_⟩, rfl⟩
    · exact List.forall_mem_cons.mpr ⟨.bracket bracket, piece⟩
    · simpa using blank
    · refine List.isChain_cons.mpr ⟨fun _ _ word => ?_, apart⟩
      have plain := word.plain c List.mem_cons_self
      exact absurd ((isPlain_of_isBracket bracket).symm.trans plain) Bool.false_ne_true
  · -- the character goes to the word that it stands before, if there is one
    by_cases joined : ∃ cell ∈ cells.head?, cell.gap = [] ∧ Word cell.piece
    · obtain ⟨⟨gap, cs⟩, first, rfl, word⟩ := joined
      obtain ⟨rest, rfl⟩ := List.head?_eq_some_iff.mp first
      refine ⟨⟨⟨[], c :: cs⟩ :: rest, last, ?_, ?_, ?_⟩, rfl⟩
      · exact List.forall_mem_cons.mpr
          ⟨.word (word.cons plain), fun cell mem => piece cell (List.mem_cons_of_mem _ mem)⟩
      · simpa using blank
      · obtain ⟨next, chain⟩ := List.isChain_cons.mp apart
        exact List.isChain_cons.mpr ⟨fun cell mem _ => next cell mem word, chain⟩
    · refine ⟨⟨⟨[], [c]⟩ :: cells, last, ?_, ?_, ?_⟩, rfl⟩
      · exact List.forall_mem_cons.mpr ⟨.word (word_singleton plain), piece⟩
      · simpa using blank
      · refine List.isChain_cons.mpr ⟨fun cell mem _ word none_ => ?_, apart⟩
        exact joined ⟨cell, mem, none_, word⟩

theorem exists_of_text (text : String) : ∃ l : Layout, l.text = text := by
  have laid : ∀ cs : List Char, ∃ l : Layout, l.chars = cs := by
    intro cs
    induction cs with
    | nil => exact ⟨⟨[], [], by simp, by simp, .nil⟩, rfl⟩
    | cons c cs ih =>
      obtain ⟨l, rfl⟩ := ih
      exact l.exists_cons c
  obtain ⟨l, chars⟩ := laid text.toList
  exact ⟨l, by rw [Layout.text, chars, String.ofList_toList]⟩

theorem tokenize_text (l : Layout) : tokenize l.text = l.tokens := by
  rw [tokenize, text, String.toList_ofList, l.split_chars, List.map_map]
  rfl

theorem flatMap_piece (l : Layout) :
    l.cells.flatMap Cell.piece = l.chars.filter (!Text.isBlank ·) := by
  have noBlanks {gap : List Char} (mem : gap ∈ l.last :: l.cells.map Cell.gap) :
      gap.filter (!Text.isBlank ·) = [] := by
    simpa using l.blank gap mem
  have whole {cell : Cell} (mem : cell ∈ l.cells) :
      cell.piece.filter (!Text.isBlank ·) = cell.piece := by
    simpa using (l.piece cell mem).isBlank_eq
  rw [chars, List.filter_append, noBlanks List.mem_cons_self, List.append_nil, List.filter_flatMap]
  refine List.flatMap_congr fun cell mem => ?_
  have gap := noBlanks (List.mem_cons_of_mem _ (List.mem_map_of_mem mem))
  rw [List.filter_append, gap, whole mem, List.nil_append]

end Layout

/-- The tokens of a text are its words, once every bracket has spaces around it: the pieces of the one
layout that the text has, which hold all of its characters but the blanks. So tokens put into one text
with a space between them come out of it again, texts that are put together have the tokens of both
unless a word goes on from one to the other, and however the tokens of a text are laid out with
blanks, they are read as that text. -/
theorem tokenize_by_layout (text : String) :
    tokenize text = (words (spread text.toList)).map String.ofList
    ∧ (∀ tokens, tokenize text = tokens ↔ ∃ l : Layout, l.text = text ∧ l.tokens = tokens)
    ∧ (tokenize text).flatMap String.toList = text.toList.filter (!Text.isBlank ·)
    ∧ tokenize (" ".intercalate (tokenize text)) = tokenize text
    ∧ (∀ more : String, endsPlain text.toList = false ∨ startsPlain more.toList = false →
        tokenize (text ++ more) = tokenize text ++ tokenize more)
    ∧ ∀ l : Layout, l.tokens = tokenize text → ∀ style,
        Term.parse style l.text = Term.parse style text := by
  refine ⟨?_, ?_, ?_, tokenize_intercalate fun _ => piece_of_mem_tokenize,
    fun _ => tokenize_append, ?_⟩
  · rw [tokenize, split_eq_words]
  · intro tokens
    constructor
    · rintro rfl
      obtain ⟨l, rfl⟩ := Layout.exists_of_text text
      exact ⟨l, rfl, l.tokenize_text.symm⟩
    · rintro ⟨l, rfl, rfl⟩
      exact l.tokenize_text
  · obtain ⟨l, rfl⟩ := Layout.exists_of_text text
    rw [l.tokenize_text, Layout.text, String.toList_ofList, ← l.flatMap_piece, Layout.tokens,
      List.flatMap_map]
    simp
  · intro l same style
    rw [Term.parse, Term.parse, l.tokenize_text, same]

theorem tokenize_by_layout_mixed :
    tokenize ("lse(x\u2003\ty" ++ ")1") = ["lse", "(", "x", "y"] ++ [")", "1"]
      ∧ ∀ style, Term.parse style "\n(x\u2003 1\t+ )" = Term.parse style "(x 1 +)" := by
  constructor
  · obtain ⟨-, -, -, -, joined, -⟩ := tokenize_by_layout "lse(x\u2003\ty"
    rw [joined ")1" (.inr (by decide))]
    decide +kernel
  · obtain ⟨-, laid, -⟩ := tokenize_by_layout "\n(x\u2003 1\t+ )"
    obtain ⟨l, text, tokens⟩ := (laid _).mp rfl
    obtain ⟨-, -, -, -, -, free⟩ := tokenize_by_layout "(x 1 +)"
    rw [← text]
    exact free l (tokens.trans (by decide +kernel))

end Formulae.Token
