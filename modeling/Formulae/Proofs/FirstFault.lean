import Formulae.Proofs.Acceptance
/-!
Where a bracketed text goes wrong. The tokens taken before an error can always be completed to a
term: the open brackets are closed one after the other. The token that the error is about cannot be
taken by any reading, so nothing that starts with it and the tokens before it is a term.
-/
namespace Formulae

open Token

/-- Tokens that some term starts with. -/
def Viable (style : Style) (tokens : List String) : Prop :=
  ∃ rest t, Derives style (tokens ++ rest) t

theorem Viable.of_derives {style : Style} {tokens : List String} {t : Term}
    (h : Derives style tokens t) : Viable style tokens :=
  ⟨[], t, by rwa [List.append_nil]⟩

theorem Viable.left {style : Style} {u v : List String} (h : Viable style (u ++ v)) :
    Viable style u := by
  obtain ⟨rest, t, derived⟩ := h
  exact ⟨v ++ rest, t, by rwa [← List.append_assoc]⟩

namespace ParseError

/-- How many tokens stand before the fault that an error reports. -/
def faultIndex (tokens : List String) : ParseError → Nat
  | endOfText _ => tokens.length
  | unexpected _ rest => tokens.length - rest.length - 1
  | otherToken _ _ rest | wrongCount _ _ rest | refused _ rest => tokens.length - rest.length

def culprit? : ParseError → Option String
  | unexpected token _ => some token
  | otherToken _ actual _ => some actual
  | _ => none

inductive Reports : ParseError → String → List String → Prop
  | unexpected (token : String) (rest : List String) : Reports (.unexpected token rest) token rest
  | otherToken (expected token : String) (rest : List String) :
      Reports (.otherToken expected token (token :: rest)) token rest
  | wrongCount (expected actual : Int) (token : String) (rest : List String) :
      Reports (.wrongCount expected actual (token :: rest)) token rest
  | unwrapped (token : String) (rest : List String) :
      Reports (.refused .unwrapped (token :: rest)) token rest

/-- An error at the first token after which no term can be completed, or at the end of tokens that
can be completed. -/
structure AtFirstFault (style : Style) (tokens : List String) (e : ParseError) : Prop where
  remaining : e.remaining <:+ tokens
  culprit : ∀ token ∈ e.culprit?, tokens[e.faultIndex tokens]? = some token
  /-- A text that nests within its bounds is refused for what follows its term, and for nothing
  else. -/
  reason : ∀ why rest, e = .refused why rest → why = .unwrapped
  before : Viable style (tokens.take (e.faultIndex tokens))
  after : (∀ expected, e ≠ .endOfText expected) →
    ¬ Viable style (tokens.take (e.faultIndex tokens + 1))

variable {style : Style} {e : ParseError} {token : String} {front rest tokens : List String}

theorem Reports.faultIndex_eq (h : Reports e token rest) :
    e.faultIndex (front ++ token :: rest) = front.length := by
  cases h <;> simp only [faultIndex, List.length_append, List.length_cons] <;> omega

theorem Reports.remaining_suffix (h : Reports e token rest) :
    e.remaining <:+ front ++ token :: rest := by
  cases h with
  | unexpected => exact ⟨front ++ [token], by simp [remaining]⟩
  | otherToken | wrongCount | unwrapped => exact List.suffix_append front (token :: rest)

theorem Reports.eq_of_culprit (h : Reports e token rest) {named : String}
    (culprit : named ∈ e.culprit?) : named = token := by
  cases h with
  | unexpected | otherToken => exact (Option.some.inj culprit).symm
  | wrongCount | unwrapped => cases culprit

theorem Reports.unwrapped_of_refused (h : Reports e token rest) {why : Reason}
    {unread : List String} (refused : e = .refused why unread) : why = .unwrapped := by
  subst refused
  cases h
  rfl

theorem AtFirstFault.of_reports (h : Reports e token rest) (before : Viable style front)
    (after : ¬ Viable style (front ++ [token])) : AtFirstFault style (front ++ token :: rest) e where
  remaining := h.remaining_suffix
  culprit named culprit := by
    rw [h.faultIndex_eq, h.eq_of_culprit culprit, List.getElem?_append_right (Nat.le_refl _),
      Nat.sub_self, List.getElem?_cons_zero]
  reason _ _ refused := h.unwrapped_of_refused refused
  before := by rwa [h.faultIndex_eq, List.take_left]
  after _ := by
    rw [h.faultIndex_eq, List.append_cons, List.take_left' (by simp)]
    exact after

theorem AtFirstFault.of_endOfText (expected : String) (before : Viable style tokens) :
    AtFirstFault style tokens (.endOfText expected) where
  remaining := List.nil_suffix
  culprit := nofun
  reason := nofun
  before := by rwa [faultIndex, List.take_length]
  after other := absurd rfl (other expected)

end ParseError

namespace Reading

variable {reader : Reader} {style : Style} {limit : Limit} {frames : List Frame} {f : Frame}
  {op : Op} {operands : List Term} {t : Term} {token : String}
  {inner rest taken tokens : List String} {o : Outcome} {e : ParseError}

/-! ## Completion -/

theorem Opened.fill (h : Opened .operatorFirst ⟨some op, operands⟩ inner) :
    ∃ more full, Opened .operatorFirst ⟨some op, full⟩ (inner ++ more)
      ∧ ∀ n, op.arity = some n → n ≤ full.length := by
  cases arity : op.arity with
  | none => exact ⟨[], operands, by rwa [List.append_nil], nofun⟩
  | some n =>
    -- the induction is on the count of operands that are missing
    induction missing : n - operands.length generalizing operands inner with
    | zero =>
      refine ⟨[], operands, by rwa [List.append_nil], ?_⟩
      rintro _ ⟨⟩
      omega
    | succ k ih =>
      have takes : Frame.Takes 1 .operatorFirst ⟨some op, operands⟩ := by
        intro m hm
        rw [arity] at hm
        cases hm
        omega
      have added := h.add takes (Derives.var .x)
      obtain ⟨more, full, opened, count⟩ := ih added (by simp only [List.length_cons]; omega)
      exact ⟨_, full, by rwa [List.append_assoc] at opened, count⟩

theorem Opened.completes (h : Opened style f inner) :
    ∃ rest t, Derives style (openBracket :: (inner ++ rest)) t := by
  cases h with
  | start =>
    have chosen : Opened .operatorFirst ⟨some .lse, []⟩ _ := Opened.start.choose nofun
    exact ⟨_, _, by simpa using chosen.close fun _ _ => nofun⟩
  | first room derived =>
    obtain ⟨more, full, opened, count⟩ := (Opened.first room derived).fill
    have closed := opened.close fun _ => count
    rw [List.append_assoc] at closed
    exact ⟨_, _, closed⟩
  | collecting derived =>
    have chosen : Opened .operatorLast ⟨some .lse, _⟩ _ :=
      (Opened.collecting derived).choose fun _ => rfl
    have closed := chosen.close nofun
    rw [List.append_assoc] at closed
    exact ⟨_, _, closed⟩
  | last count derived => exact ⟨_, _, (Opened.last count derived).close nofun⟩

/-- Where an operand may come next, any operand leaves tokens that can be completed. -/
theorem Reached.completes {u : List String} (reached : Reached style frames taken)
    (ready : Ready style frames) (d : Derives style u t) : Viable style (taken ++ u) := by
  induction reached generalizing u t with
  | start => exact .of_derives d
  | inside _ earlier opened ih =>
    obtain ⟨rest, whole, closed⟩ := (opened.add (ready_cons.mp ready) d).completes
    have completed := ih earlier closed
    rw [← List.cons_append, ← List.append_assoc] at completed
    rw [List.append_assoc, List.cons_append]
    exact completed.left

theorem Reached.viable (reached : Reached style frames taken) : Viable style taken := by
  cases reached with
  | start => exact ⟨_, _, Derives.var .x⟩
  | inside below ready opened =>
    obtain ⟨rest, t, closed⟩ := opened.completes
    have completed := below.completes ready closed
    rw [← List.cons_append, ← List.append_assoc] at completed
    exact completed.left

/-! ## Nesting of what was taken -/

theorem balanced_operands {parts : List (List String)}
    (derived : List.Forall₂ (Derives style) parts operands) : Balanced parts.flatten :=
  Balanced.flatten (derived.imp fun _ _ d => d.balanced)

theorem Opened.balanced (h : Opened style f inner) : Balanced inner := by
  cases h with
  | start => rfl
  | first _ derived =>
    exact (flat_symbol _).balanced.append (balanced_operands derived)
  | collecting derived => exact balanced_operands derived
  | last _ derived =>
    exact (balanced_operands derived).append (flat_symbol _).balanced

theorem Reached.count_openBracket (reached : Reached style frames taken) :
    taken.count openBracket = taken.count closeBracket + frames.length := by
  induction reached with
  | start => rfl
  | @inside frames f outer inner _ _ opened ih =>
    have inside : inner.count openBracket = inner.count closeBracket := opened.balanced
    have opening : (openBracket :: inner).count openBracket = inner.count openBracket + 1 :=
      List.count_cons_self
    have other : (openBracket :: inner).count closeBracket = inner.count closeBracket :=
      List.count_cons_of_ne (by decide)
    rw [List.count_append, List.count_append, opening, other, ih, inside, List.length_cons]
    omega

/-! ## One token -/

theorem length_of_deliver {frames' : List Frame} (h : deliver t frames = .more frames') :
    frames'.length = frames.length := by
  cases frames with
  | nil => cases h
  | cons f fs =>
    cases h
    rfl

/-- What a token does, whatever tokens follow it. Only a bracket that is opened asks how many may be
open. -/
inductive Effect (reader : Reader) (frames : List Frame) (token : String) : Prop
  | enters (act : reader.act frames.head? token = .enter)
      (same : ∀ limit rest, step reader limit frames token rest
        = if limit.admits (frames.length + 1) then .ok (.more (.empty :: frames))
          else .error (.refused .tooDeep rest))
  | takes {o : Outcome} (same : ∀ limit rest, step reader limit frames token rest = .ok o)
      (lower : ∀ frames', o = .more frames' → frames'.length ≤ frames.length)
  | fails {fault : List String → ParseError} (reports : ∀ rest, (fault rest).Reports token rest)
      (same : ∀ limit rest, step reader limit frames token rest = .error (fault rest))

theorem effect (reader : Reader) (frames : List Frame) (token : String) :
    Effect reader frames token := by
  cases act : reader.act frames.head? token with
  | enter => exact .enters act fun limit rest => by simp only [step, act]
  | supply t =>
    have same (limit rest) : step reader limit frames token rest = .ok (deliver t frames) := by
      simp only [step, act]
    exact .takes same fun _ more => Nat.le_of_eq (length_of_deliver more)
  | choose op =>
    cases frames with
    | nil =>
      have same (limit rest) : step reader limit [] token rest = .error (.unexpected token rest) :=
        by simp only [step, act]
      exact .fails (.unexpected token) same
    | cons f fs =>
      have same (limit rest) : step reader limit (f :: fs) token rest
          = .ok (.more (⟨some op, f.operands⟩ :: fs)) := by simp only [step, act]
      refine .takes same ?_
      rintro _ ⟨⟩
      exact Nat.le_refl _
  | close op =>
    cases frames with
    | nil =>
      have same (limit rest) : step reader limit [] token rest = .error (.unexpected token rest) :=
        by simp only [step, act]
      exact .fails (.unexpected token) same
    | cons f fs =>
      have same (limit rest) : step reader limit (f :: fs) token rest
          = .ok (deliver (.app op f.operands.reverse) fs) := by simp only [step, act]
      refine .takes same fun _ more => ?_
      exact Nat.le_trans (Nat.le_of_eq (length_of_deliver more)) (Nat.le_succ fs.length)
  | refuse =>
    have same (limit rest) : step reader limit frames token rest
        = .error (.unexpected token rest) := by simp only [step, act]
    exact .fails (.unexpected token) same
  | demandClose =>
    have same (limit rest) : step reader limit frames token rest
        = .error (.otherToken closeBracket token (token :: rest)) := by simp only [step, act]
    exact .fails (.otherToken closeBracket token) same
  | miscount n =>
    have same (limit rest) : step reader limit frames token rest
        = .error (.wrongCount n (frames.head?.elim 0 (·.operands.length)) (token :: rest)) := by
      simp only [step, act]
    exact .fails (.wrongCount _ _ token) same

theorem step_mono {limit' : Limit} (h : step reader limit frames token rest = .ok o)
    (looser : ∀ count, limit.admits count = true → limit'.admits count = true)
    (rest' : List String) : step reader limit' frames token rest' = .ok o := by
  cases effect reader frames token with
  | enters _ same =>
    rw [same] at h ⊢
    split at h
    · rwa [if_pos (looser _ ‹_›)]
    · cases h
  | takes same =>
    rw [same] at h ⊢
    exact h
  | fails _ same =>
    rw [same] at h
    cases h

theorem step_of_ok (h : step reader limit frames token rest = .ok o) (rest' : List String) :
    step reader limit frames token rest' = .ok o :=
  step_mono h (fun _ admits => admits) rest'

theorem step_none_of_ok (h : step reader limit frames token rest = .ok o) (rest' : List String) :
    step reader none frames token rest' = .ok o :=
  step_mono h (fun _ _ => rfl) rest'

theorem reports_of_step (h : step reader limit frames token rest = .error e)
    (fits : reader.act frames.head? token = .enter → limit.admits (frames.length + 1) = true) :
    e.Reports token rest ∧ ∀ rest', ∃ e', step reader none frames token rest' = .error e' := by
  cases effect reader frames token with
  | enters act same =>
    rw [same, if_pos (fits act)] at h
    cases h
  | takes same =>
    rw [same] at h
    cases h
  | fails reports same =>
    rw [same] at h
    cases h
    exact ⟨reports rest, fun rest' => ⟨_, same none rest'⟩⟩

theorem admits_of_enter (hr : Reads reader style) {most : Nat}
    (reached : Reached style frames taken) (within : NestsWithin most (taken ++ token :: rest))
    (act : reader.act frames.head? token = .enter) : frames.length + 1 ≤ most := by
  have opened : step reader none frames token [] = .ok (.more (.empty :: frames)) := by
    simp only [step, act]
    rfl
  have deeper : Reached style (.empty :: frames) (taken ++ [token]) :=
    reached.step hr.bracketed (Steps.of_step hr opened)
  have front : taken ++ [token] ∈ (taken ++ token :: rest).inits :=
    (List.mem_inits _ _).mpr ⟨rest, by simp⟩
  have bound := within _ front
  rw [deeper.count_openBracket, List.length_cons] at bound
  omega

/-! ## Runs -/

/-- Tokens that bring a reader without limits from the start to some open brackets. -/
def Leads (reader : Reader) (taken : List String) (frames : List Frame) : Prop :=
  ∀ rest, run reader none [] (taken ++ rest) = run reader none frames rest

theorem Leads.after_step {frames' : List Frame} (leads : Leads reader taken frames)
    (h : step reader limit frames token rest = .ok (.more frames')) :
    Leads reader (taken ++ [token]) frames' := by
  intro rest'
  rw [List.append_assoc, List.singleton_append, leads, run_of_step (step_none_of_ok h rest')]
  rfl

theorem Leads.not_viable (hr : Reads reader style) (leads : Leads reader taken frames)
    (fails : ∀ rest', ∃ e', step reader none frames token rest' = .error e') :
    ¬ Viable style (taken ++ [token]) := by
  rintro ⟨rest, t, derived⟩
  have read := element_of_derives hr none derived rfl []
  obtain ⟨e', failed⟩ := fails rest
  rw [List.append_nil, List.append_assoc, List.singleton_append, element, leads, run, failed]
    at read
  cases read

/-- A run fails at the first token after which no term can be completed. -/
theorem atFirstFault_of_run (hr : Reads reader style) {most : Nat}
    (fits : ∀ count ≤ most, limit.admits count = true) (reached : Reached style frames taken)
    (leads : Leads reader taken frames) (within : NestsWithin most (taken ++ tokens))
    (h : run reader limit frames tokens = .error e) : e.AtFirstFault style (taken ++ tokens) := by
  -- By `reached` the front can be completed. By `leads` every text that starts with it comes to these
  -- frames, so that a token which fails on them ends the front in every text.
  induction tokens generalizing frames taken with
  | nil =>
    cases h
    rw [List.append_nil]
    exact .of_endOfText _ reached.viable
  | cons token tokens ih =>
    cases stepped : step reader limit frames token tokens with
    | error e' =>
      rw [run, stepped] at h
      cases h
      obtain ⟨reports, fails⟩ := reports_of_step stepped fun act =>
        fits _ (admits_of_enter hr reached within act)
      exact .of_reports reports reached.viable (leads.not_viable hr fails)
    | ok o =>
      have explained := reached.step hr.bracketed (Steps.of_step hr stepped)
      rw [run_of_step stepped] at h
      cases o with
      | done t => cases h
      | more frames' =>
        rw [List.append_cons] at within ⊢
        exact ih explained (leads.after_step stepped) within h

theorem not_viable_of_derives (hr : Reads reader style) (d : Derives style taken t) :
    ¬ Viable style (taken ++ [token]) := by
  rintro ⟨rest, t', derived⟩
  have same : taken ++ ([token] ++ rest) = taken ++ [token] ++ rest ++ [] := by simp
  have none_ := (prefix_unique hr d derived same).1
  simp at none_

theorem atFirstFault_of_document (hr : Reads reader style) {most : Nat}
    (fits : ∀ count ≤ most, limit.admits count = true) (within : NestsWithin most tokens)
    (h : document reader limit tokens = .error e) : e.AtFirstFault style tokens := by
  rw [document] at h
  cases read : element reader limit tokens with
  | error e' =>
    rw [read] at h
    cases h
    exact atFirstFault_of_run hr fits .start (fun _ => rfl) within read
  | ok result =>
    obtain ⟨t, rest⟩ := result
    obtain ⟨u, rfl, derived⟩ := run_sound hr .start read
    cases rest with
    | nil =>
      rw [read] at h
      cases h
    | cons token rest =>
      rw [read] at h
      cases h
      exact .of_reports (.unwrapped token rest) (.of_derives derived)
        (not_viable_of_derives hr derived)

theorem exists_reads (bracketed : style ≠ .bare) : ∃ reader, Reads reader style := by
  cases style with
  | operatorFirst => exact ⟨_, .first⟩
  | operatorLast => exact ⟨_, .last⟩
  | bare => exact absurd rfl bracketed

end Reading

open Reading

theorem parse_atFirstFault {style : Style} (bracketed : style ≠ .bare) {text : String}
    (within : NestsWithin supportedNesting (tokenize text)) {e : ParseError}
    (h : Term.parse style text = .error e) : e.AtFirstFault style (tokenize text) := by
  obtain ⟨reader, hr⟩ := exists_reads bracketed
  rw [Term.parse, ofTokens_eq hr] at h
  refine atFirstFault_of_document hr ?_ within h
  intro count bound
  exact decide_eq_true (Nat.le_trans bound (by decide))

theorem parse_iff_derives {style : Style} (bracketed : style ≠ .bare) {text : String}
    (within : NestsWithin supportedNesting (tokenize text)) (t : Term) :
    Term.parse style text = .ok t ↔ Derives style (tokenize text) t := by
  obtain ⟨reader, hr⟩ := exists_reads bracketed
  exact (readByGrammar hr within t).accepts

/-- In the bracketed styles, a text that is not read is refused at the first token that makes it
hopeless. It is refused for its end exactly where it is no term but more tokens make it one. -/
theorem parse_error_first_fault (style : Style) (bracketed : style ≠ .bare) (text : String)
    (within : NestsWithin supportedNesting (tokenize text)) :
    (∀ e, Term.parse style text = .error e → e.AtFirstFault style (tokenize text))
      ∧ ((∃ expected, Term.parse style text = .error (.endOfText expected)) ↔
        (¬ ∃ t, Derives style (tokenize text) t)
          ∧ ∃ more t, more ≠ [] ∧ Derives style (tokenize text ++ more) t) := by
  have accepts := fun t => parse_iff_derives bracketed within t
  have fault := fun e => parse_atFirstFault bracketed within (e := e)
  refine ⟨fault, ?_, ?_⟩
  · rintro ⟨expected, failed⟩
    have none_ : ¬ ∃ t, Derives style (tokenize text) t := by
      rintro ⟨t, derived⟩
      rw [(accepts t).mpr derived] at failed
      cases failed
    have before := (fault _ failed).before
    rw [ParseError.faultIndex, List.take_length] at before
    obtain ⟨more, t, derived⟩ := before
    refine ⟨none_, more, t, ?_, derived⟩
    rintro rfl
    rw [List.append_nil] at derived
    exact none_ ⟨t, derived⟩
  · rintro ⟨none_, more, t, -, derived⟩
    cases failed : Term.parse style text with
    | ok t' => exact absurd ⟨t', (accepts t').mp failed⟩ none_
    | error e =>
      -- a fault at some token would leave no way to go on from the whole text
      by_contra other
      have stuck := (fault e failed).after fun expected e_eq => other ⟨expected, e_eq ▸ rfl⟩
      have whole : Viable style (tokenize text) := ⟨more, t, derived⟩
      rw [← List.take_append_drop (e.faultIndex (tokenize text) + 1) (tokenize text)] at whole
      exact stuck whole.left

theorem parse_error_first_fault_miscount :
    let text := "(x (1 lse) y +)"
    Term.parse .operatorLast text = .error (.wrongCount 2 3 ["+", ")"])
      ∧ Viable .operatorLast ["(", "x", "(", "1", "lse", ")", "y"]
      ∧ ¬ Viable .operatorLast ["(", "x", "(", "1", "lse", ")", "y", "+"] := by
  intro text
  have failed : Term.parse .operatorLast text = .error (.wrongCount 2 3 ["+", ")"]) := by
    decide +kernel
  have fault := (parse_error_first_fault .operatorLast (by decide) text (by decide +kernel)).1 _
    failed
  have tokens : tokenize text = ["(", "x", "(", "1", "lse", ")", "y", "+", ")"] := by
    decide +kernel
  rw [tokens] at fault
  exact ⟨failed, fault.before, fault.after nofun⟩

end Formulae
