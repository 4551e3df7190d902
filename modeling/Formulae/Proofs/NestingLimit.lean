import Formulae.Proofs.FirstFault
/-!
What a limit on the open brackets changes. A reader with a limit goes through the same stacks as the
reader without one, up to the first bracket that would be one too many, and stops there. So only the
stacks of the reader without a limit decide whether a text is too deep, and these can be counted in
the text: its front is read up to there, and so many of its brackets are not yet closed.
-/
namespace Formulae

open Token

namespace Reading

def TooDeep {α : Type} (outcome : Except ParseError α) : Prop :=
  ∃ rest, outcome = .error (.refused .tooDeep rest)

/-- The open brackets before each token that a reader without a limit comes to, and those at the end
of the tokens if it gets there. -/
def visited (reader : Reader) (frames : List Frame) : List String → List (List Frame)
  | [] => [frames]
  | token :: rest =>
    frames :: match step reader none frames token rest with
      | .ok (.more frames') => visited reader frames' rest
      | _ => []

def visitedIn (style : Style) (tokens : List String) : List (List Frame) :=
  match style with
  | .operatorFirst => visited operatorFirst [] tokens
  | .operatorLast => visited operatorLast [] tokens
  | .bare => []

variable {reader : Reader} {style : Style} {frames stack : List Frame} {token expected : String}
  {rest front taken tokens : List String} {most : Nat} {e : ParseError}

theorem visitedIn_eq (hr : Reads reader style) (tokens : List String) :
    visitedIn style tokens = visited reader [] tokens := by
  cases hr <;> rfl

theorem mem_visited_self : frames ∈ visited reader frames tokens := by
  cases tokens <;> exact .head _

theorem visited_of_step {frames' : List Frame}
    (h : step reader none frames token rest = .ok (.more frames')) :
    visited reader frames (token :: rest) = frames :: visited reader frames' rest := by
  rw [visited, h]

theorem visited_of_stop (stops : ∀ frames',
    step reader none frames token rest ≠ .ok (.more frames')) :
    visited reader frames (token :: rest) = [frames] := by
  rw [visited]
  split
  · exact absurd ‹_› (stops _)
  · rfl

theorem not_tooDeep_of_reports (h : e.Reports token rest) :
    ¬ TooDeep (.error e : Except ParseError (Term × List String)) := by
  rintro ⟨unread, same⟩
  cases h.unwrapped_of_refused (Except.error.inj same)

/-! ## With the limit and without -/

/-- The limit shows in one step only, at a bracket that is one too many. -/
theorem step_some (reader : Reader) (most : Nat) (frames : List Frame) (token : String)
    (rest : List String) :
    step reader (some most) frames token rest = step reader none frames token rest
      ∨ (most < frames.length + 1
        ∧ step reader none frames token rest = .ok (.more (.empty :: frames))
        ∧ step reader (some most) frames token rest = .error (.refused .tooDeep rest)) := by
  cases effect reader frames token with
  | takes same => exact .inl (by rw [same, same])
  | fails _ same => exact .inl (by rw [same, same])
  | enters _ same =>
    have opened : step reader none frames token rest = .ok (.more (.empty :: frames)) := by
      rw [same]
      rfl
    by_cases fits : frames.length + 1 ≤ most
    · have admitted : Limit.admits (some most) (frames.length + 1) = true := decide_eq_true fits
      left
      rw [opened, same, if_pos admitted]
    · have beyond : ¬ Limit.admits (some most) (frames.length + 1) = true :=
        mt of_decide_eq_true fits
      right
      exact ⟨Nat.lt_of_not_le fits, opened, by rw [same, if_neg beyond]⟩

theorem run_of_within (within : ∀ stack ∈ visited reader frames tokens, stack.length ≤ most) :
    run reader (some most) frames tokens = run reader none frames tokens := by
  -- the induction is along the run without a limit, whose last token opens no bracket
  induction frames, tokens using run.induct reader none with
  | case1 frames => rfl
  | case2 frames token rest _ stepped | case3 frames token rest _ stepped =>
    obtain same | ⟨-, opened, -⟩ := step_some reader most frames token rest
    · rw [run, run, same, stepped]
    · rw [opened] at stepped
      cases stepped
  | case4 frames token rest frames' stepped ih =>
    rw [visited_of_step stepped, List.forall_mem_cons] at within
    obtain same | ⟨beyond, opened, -⟩ := step_some reader most frames token rest
    · rw [run, run, same, stepped]
      exact ih within.2
    · rw [opened] at stepped
      cases stepped
      exact absurd (within.2 _ mem_visited_self) (Nat.not_le_of_lt beyond)

theorem length_le_of_step {frames' : List Frame} (fits : frames.length ≤ most)
    (h : step reader (some most) frames token rest = .ok (.more frames')) :
    frames'.length ≤ most := by
  cases effect reader frames token with
  | takes same lower =>
    rw [same] at h
    exact Nat.le_trans (lower frames' (Except.ok.inj h)) fits
  | fails _ same =>
    rw [same] at h
    cases h
  | enters _ same =>
    rw [same] at h
    split at h
    · cases h
      exact of_decide_eq_true ‹_›
    · cases h

theorem run_of_exceeds (fits : frames.length ≤ most) (mem : stack ∈ visited reader frames tokens)
    (exceeds : most < stack.length) : TooDeep (run reader (some most) frames tokens) := by
  have other {frames : List Frame} (fits : frames.length ≤ most) : stack ≠ frames := by
    rintro rfl
    exact Nat.not_le_of_lt exceeds fits
  induction frames, tokens using run.induct reader none with
  | case1 frames => exact absurd (List.mem_singleton.mp mem) (other fits)
  | case2 frames token rest _ stepped | case3 frames token rest _ stepped =>
    rw [visited_of_stop (by simp [stepped]), List.mem_singleton] at mem
    exact absurd mem (other fits)
  | case4 frames token rest frames' stepped ih =>
    rw [visited_of_step stepped, List.mem_cons] at mem
    obtain same | ⟨-, -, refused⟩ := step_some reader most frames token rest
    · rw [stepped] at same
      rw [run, same]
      exact ih (length_le_of_step fits same) (mem.resolve_left (other fits))
    · exact ⟨rest, by rw [run, refused]⟩

theorem not_tooDeep_run (reader : Reader) (frames : List Frame) (tokens : List String) :
    ¬ TooDeep (run reader none frames tokens) := by
  induction frames, tokens using run.induct reader none with
  | case1 frames =>
    rintro ⟨rest, same⟩
    cases same
  | case2 frames token rest e stepped =>
    rw [run, stepped]
    exact not_tooDeep_of_reports (reports_of_step stepped fun _ => rfl).1
  | case3 frames token rest t stepped =>
    rw [run_of_step stepped]
    rintro ⟨unread, same⟩
    cases same
  | case4 frames token rest frames' stepped ih =>
    rw [run_of_step stepped]
    exact ih

/-! ## Whole texts -/

theorem tooDeep_document_iff (limit : Limit) :
    TooDeep (document reader limit tokens) ↔ TooDeep (run reader limit [] tokens) := by
  unfold TooDeep document element
  cases run reader limit [] tokens with
  | error e => simp
  | ok result =>
    obtain ⟨t, rest⟩ := result
    cases rest <;> simp

theorem endOfText_document_iff :
    document reader none tokens = .error (.endOfText expected)
      ↔ run reader none [] tokens = .error (.endOfText expected) := by
  unfold document element
  cases run reader none [] tokens with
  | error e => simp
  | ok result =>
    obtain ⟨t, rest⟩ := result
    cases rest <;> simp

theorem document_of_within (within : ∀ stack ∈ visited reader [] tokens, stack.length ≤ most) :
    document reader (some most) tokens = document reader none tokens := by
  rw [document, document, element, element, run_of_within within]

theorem tooDeep_iff_exceeds : TooDeep (document reader (some most) tokens)
    ↔ ∃ stack ∈ visited reader [] tokens, most < stack.length := by
  constructor
  · intro tooDeep
    by_contra none_
    have within : ∀ stack ∈ visited reader [] tokens, stack.length ≤ most :=
      fun stack mem => Nat.le_of_not_lt fun beyond => none_ ⟨stack, mem, beyond⟩
    rw [document_of_within within, tooDeep_document_iff] at tooDeep
    exact not_tooDeep_run reader [] tokens tooDeep
  · rintro ⟨stack, mem, exceeds⟩
    exact (tooDeep_document_iff _).mpr (run_of_exceeds (Nat.zero_le most) mem exceeds)

theorem document_of_not_tooDeep (h : ¬ TooDeep (document reader (some most) tokens)) :
    document reader (some most) tokens = document reader none tokens := by
  refine document_of_within fun stack mem => Nat.le_of_not_lt fun beyond => h ?_
  exact tooDeep_iff_exceeds.mpr ⟨stack, mem, beyond⟩

/-! ## The brackets in the text -/

/-- Each stack is what some front of the tokens leaves open, at whose end more is expected. -/
theorem exists_front (hr : Reads reader style) (reached : Reached style frames taken)
    (mem : stack ∈ visited reader frames tokens) :
    ∃ front, front <+: tokens ∧ Reached style stack (taken ++ front)
      ∧ run reader none frames front = .error (.endOfText (reader.missing stack.head?)) := by
  have here {frames : List Frame} {tokens taken : List String} (reached : Reached style frames taken)
      (same : stack = frames) : ∃ front, front <+: tokens ∧ Reached style stack (taken ++ front)
        ∧ run reader none frames front = .error (.endOfText (reader.missing stack.head?)) := by
    subst same
    exact ⟨[], List.nil_prefix, by rwa [List.append_nil], rfl⟩
  -- Along the run: the stack is the present one, with the empty front, or a later one.
  induction frames, tokens using run.induct reader none generalizing taken with
  | case1 frames => exact here reached (List.mem_singleton.mp mem)
  | case2 frames token rest _ stepped | case3 frames token rest _ stepped =>
    rw [visited_of_stop (by simp [stepped]), List.mem_singleton] at mem
    exact here reached mem
  | case4 frames token rest frames' stepped ih =>
    rw [visited_of_step stepped, List.mem_cons] at mem
    obtain same | mem := mem
    · exact here reached same
    · have explained := reached.step hr.bracketed (Steps.of_step hr stepped)
      obtain ⟨front, ahead, opened, waits⟩ := ih explained mem
      refine ⟨token :: front, List.cons_prefix_cons.mpr ⟨rfl, ahead⟩, ?_, ?_⟩
      · rwa [List.append_assoc, List.singleton_append] at opened
      · rw [run_of_step (step_of_ok stepped front)]
        exact waits

theorem exists_stack (hr : Reads reader style) (reached : Reached style frames taken)
    (ahead : front <+: tokens)
    (waits : run reader none frames front = .error (.endOfText expected)) :
    ∃ stack ∈ visited reader frames tokens, Reached style stack (taken ++ front) := by
  induction frames, front using run.induct reader none generalizing taken tokens with
  | case1 frames => exact ⟨frames, mem_visited_self, by rwa [List.append_nil]⟩
  | case2 frames token front e stepped =>
    rw [run, stepped] at waits
    have reports := (reports_of_step stepped fun _ => rfl).1
    rw [Except.error.inj waits] at reports
    cases reports
  | case3 frames token front t stepped =>
    rw [run_of_step stepped] at waits
    cases waits
  | case4 frames token front frames' stepped ih =>
    obtain ⟨rest, rfl⟩ := ahead
    rw [run_of_step stepped] at waits
    have explained := reached.step hr.bracketed (Steps.of_step hr stepped)
    obtain ⟨stack, mem, opened⟩ := ih explained (List.prefix_append front rest) waits
    rw [List.cons_append, visited_of_step (step_of_ok stepped (front ++ rest))]
    exact ⟨stack, .tail _ mem, by rwa [List.append_assoc] at opened⟩

theorem exceeds_iff_count (hr : Reads reader style) :
    (∃ stack ∈ visited reader [] tokens, most < stack.length)
      ↔ ∃ front, front <+: tokens
        ∧ (∃ expected, document reader none front = .error (.endOfText expected))
        ∧ most + front.count closeBracket < front.count openBracket := by
  constructor
  · rintro ⟨stack, mem, exceeds⟩
    obtain ⟨front, ahead, opened, waits⟩ := exists_front hr .start mem
    have count := opened.count_openBracket
    rw [List.nil_append] at count
    exact ⟨front, ahead, ⟨_, endOfText_document_iff.mpr waits⟩, by omega⟩
  · rintro ⟨front, ahead, ⟨expected, waits⟩, exceeds⟩
    obtain ⟨stack, mem, opened⟩ :=
      exists_stack hr .start ahead (endOfText_document_iff.mp waits)
    have count := opened.count_openBracket
    rw [List.nil_append] at count
    exact ⟨stack, mem, by omega⟩

end Reading

open Reading

/-- In the bracketed styles, a limit on the open brackets refuses a text exactly where the reader
without a limit would have more of them open, before it is done or finds a fault. Any other outcome
is that of the reader without a limit, and that of every larger limit. How many brackets are open
can be counted in the text, after any front of it that the reader wants more tokens after. -/
theorem nesting_limit_only_cuts (style : Style) (bracketed : style ≠ .bare) (text : String)
    (most : Nat) :
    let outcome := fun limit => ofTokens style limit (tokenize text)
    let exceeds := ∃ stack ∈ visitedIn style (tokenize text), most < stack.length
    (TooDeep (outcome (some most)) ↔ exceeds)
      ∧ (¬ exceeds → outcome (some most) = outcome none)
      ∧ (∀ more, most ≤ more → ¬ TooDeep (outcome (some most)) →
        outcome (some more) = outcome (some most))
      ∧ (exceeds ↔ ∃ front, front <+: tokenize text
        ∧ (∃ expected, ofTokens style none front = .error (.endOfText expected))
        ∧ most + front.count closeBracket < front.count openBracket) := by
  obtain ⟨reader, hr⟩ := exists_reads bracketed
  simp only [ofTokens_eq hr, visitedIn_eq hr]
  refine ⟨tooDeep_iff_exceeds, ?_, ?_, exceeds_iff_count hr⟩
  · intro none_
    exact document_of_not_tooDeep (mt tooDeep_iff_exceeds.mp none_)
  · intro more larger ordinary
    have shallow : ¬ TooDeep (document reader (some more) (tokenize text)) := by
      rw [tooDeep_iff_exceeds] at ordinary ⊢
      rintro ⟨stack, mem, beyond⟩
      exact ordinary ⟨stack, mem, Nat.lt_of_le_of_lt larger beyond⟩
    rw [document_of_not_tooDeep shallow, document_of_not_tooDeep ordinary]

theorem nesting_limit_only_cuts_fault :
    let tokens := tokenize "(negate (negate w)) (((("
    let fault := Except.error (.unexpected "w" [")", ")", "(", "(", "(", "("])
    ofTokens .operatorFirst (some 2) tokens = fault
      ∧ ofTokens .operatorFirst none tokens = fault
      ∧ TooDeep (ofTokens .operatorFirst (some 1) tokens) := by
  intro tokens fault
  have cuts := nesting_limit_only_cuts .operatorFirst (by decide) "(negate (negate w)) (((("
  have free : ofTokens .operatorFirst none tokens = fault := by decide +kernel
  exact ⟨((cuts 2).2.1 (by decide +kernel)).trans free, free, (cuts 1).1.mpr (by decide +kernel)⟩

end Formulae
