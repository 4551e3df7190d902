import Formulae.Token.Cursor
/-!
Calls on a cursor, whatever their order and however many of them fail. The tokens that were taken
and those that remain are always all tokens, in order. A call fails just where the next token is not
one that it can take, and a call that fails leaves the cursor where it was.
-/
namespace Formulae.Cursor

inductive Call
  | command (cmd : Command)
  | exhausted
  | left

inductive Answer
  | reply (r : Reply)
  | exhausted (atEnd : Bool)
  | left (count : Nat)

def Call.perform : Call → Move Answer
  | command cmd => return .reply (← cmd.perform)
  | exhausted => return .exhausted (← get).exhausted
  | left => return .left (← get).left

def call (c : Cursor) (q : Call) : Except ParseError Answer × Cursor := q.perform.run.run c

def callAll (c : Cursor) : List Call → List (Except ParseError Answer) × Cursor
  | [] => ([], c)
  | q :: qs =>
    let one := c.call q
    let others := callAll one.2 qs
    (one.1 :: others.1, others.2)

def taken? : Except ParseError Answer → Option String
  | .ok (.reply (.taken t)) => some t
  | _ => none

def taken (answers : List (Except ParseError Answer)) : List String := answers.filterMap taken?

variable (c : Cursor)

theorem call_command (cmd : Command) :
    c.call (.command cmd) = ((c.run cmd).1.map .reply, (c.run cmd).2) :=
  run_return cmd.perform Answer.reply c

theorem call_advance (expected : String) :
    c.call (.command (.advance expected)) = match c.peek? with
      | none => (.error (.endOfText expected), c)
      | some t => (.ok (.reply (.taken t)), c.passed) := by
  rw [call_command, run, Command.perform, run_return, run_advance]
  cases c.peek? <;> rfl

theorem call_expect (token : String) :
    c.call (.command (.expect token)) = match c.peek? with
      | none => (.error (.endOfText token), c)
      | some t =>
        if t = token then (.ok (.reply (.taken t)), c.passed)
        else (.error (.otherToken token t c.remaining), c) := by
  rw [call_command, run, Command.perform, run_return, run_expect]
  cases c.peek? with
  | none => rfl
  | some t =>
    dsimp only
    split <;> rfl

theorem call_cases (q : Call) :
    (∃ t, c.peek? = some t ∧ c.call q = (.ok (.reply (.taken t)), c.passed))
      ∨ (c.call q).2 = c ∧ taken? (c.call q).1 = none := by
  cases q with
  | exhausted | left => exact .inr ⟨rfl, rfl⟩
  | command cmd =>
    cases cmd with
    | peek | remaining => exact .inr ⟨rfl, rfl⟩
    | advance expected =>
      rw [call_advance]
      cases c.peek? with
      | none => exact .inr ⟨rfl, rfl⟩
      | some t => exact .inl ⟨t, rfl, rfl⟩
    | expect token =>
      rw [call_expect]
      cases c.peek? with
      | none => exact .inr ⟨rfl, rfl⟩
      | some t =>
        by_cases same : t = token
        · exact .inl ⟨t, rfl, if_pos same⟩
        · simp [same, taken?]

/-- One call loses no token and repeats none, and the cursor counts those that were taken. -/
theorem account_call (q : Call) :
    (taken? (c.call q).1).toList ++ (c.call q).2.remaining = c.remaining
      ∧ (c.call q).2.position = c.position + (taken? (c.call q).1).toList.length := by
  obtain ⟨t, next, takes⟩ | ⟨stays, nothing⟩ := c.call_cases q
  · rw [takes, remaining_of_peek? next]
    exact ⟨rfl, rfl⟩
  · rw [stays, nothing]
    exact ⟨rfl, rfl⟩

theorem taken_cons (a : Except ParseError Answer) (as : List (Except ParseError Answer)) :
    taken (a :: as) = (taken? a).toList ++ taken as := by
  cases h : taken? a <;> simp [taken, h]

theorem account_callAll (qs : List Call) :
    taken (c.callAll qs).1 ++ (c.callAll qs).2.remaining = c.remaining
      ∧ (c.callAll qs).2.position = c.position + (taken (c.callAll qs).1).length := by
  induction qs generalizing c with
  | nil => exact ⟨rfl, rfl⟩
  | cons q qs ih =>
    obtain ⟨split, count⟩ := c.account_call q
    obtain ⟨rest, counts⟩ := ih (c.call q).2
    rw [callAll, taken_cons]
    constructor
    · rw [List.append_assoc, rest, split]
    · rw [counts, count, List.length_append, Nat.add_assoc]

theorem advance_error_iff {expected : String} {e : ParseError} :
    (c.call (.command (.advance expected))).1 = .error e
      ↔ c.remaining = [] ∧ e = .endOfText expected := by
  rw [call_advance, peek?_eq_head?]
  cases c.remaining <;> simp [eq_comm]

theorem expect_error_iff {token : String} {e : ParseError} :
    (c.call (.command (.expect token))).1 = .error e
      ↔ (c.remaining = [] ∧ e = .endOfText token)
        ∨ ∃ actual, c.remaining.head? = some actual ∧ actual ≠ token
          ∧ e = .otherToken token actual c.remaining := by
  rw [call_expect, peek?_eq_head?]
  cases c.remaining with
  | nil => simp [eq_comm]
  | cons t rest => by_cases same : t = token <;> simp [same, @eq_comm _ e]

theorem expect_ok_iff {token : String} :
    (∃ a, (c.call (.command (.expect token))).1 = .ok a) ↔ c.remaining.head? = some token := by
  rw [call_expect, peek?_eq_head?]
  cases c.remaining with
  | nil => simp
  | cons t rest => by_cases same : t = token <;> simp [same]

theorem call_of_error {q : Call} {e : ParseError} (fails : (c.call q).1 = .error e) :
    (c.call q).2 = c := by
  obtain ⟨t, -, takes⟩ | ⟨stays, -⟩ := c.call_cases q
  · rw [takes] at fails
    cases fails
  · exact stays

/-- After any calls on a cursor over some tokens, those taken and those that remain are all of them,
the cursor has passed just those taken, and the next call answers by what remains: the questions tell
its length, whether there is any and its first token, `advance` fails where there is none, `expect`
where it does not begin with the token expected, and a failure tells what remains and moves nothing. -/
theorem calls_account (tokens : List String) (qs : List Call) :
    let out := (Source.mk tokens).start.callAll qs
    let c := out.2
    taken out.1 ++ c.remaining = tokens ∧ c.position = (taken out.1).length
      ∧ (c.call .left).1 = .ok (.left c.remaining.length)
      ∧ (c.call .exhausted).1 = .ok (.exhausted c.remaining.isEmpty)
      ∧ (c.call (.command .remaining)).1 = .ok (.reply (.tokens c.remaining))
      ∧ (c.call (.command .peek)).1 = .ok (.reply (.next c.remaining.head?))
      ∧ (∀ expected e, (c.call (.command (.advance expected))).1 = .error e
        ↔ c.remaining = [] ∧ e = .endOfText expected)
      ∧ (∀ token, (∃ a, (c.call (.command (.expect token))).1 = .ok a)
        ↔ c.remaining.head? = some token)
      ∧ (∀ token e, (c.call (.command (.expect token))).1 = .error e
        ↔ (c.remaining = [] ∧ e = .endOfText token)
          ∨ ∃ actual, c.remaining.head? = some actual ∧ actual ≠ token
            ∧ e = .otherToken token actual c.remaining)
      ∧ ∀ q e, (c.call q).1 = .error e → (c.call q).2 = c := by
  intro out c
  obtain ⟨split, count⟩ := (Source.mk tokens).start.account_callAll qs
  refine ⟨split, count.trans (Nat.zero_add _), ?_, ?_, rfl, ?_,
    fun _ _ => c.advance_error_iff, fun _ => c.expect_ok_iff,
    fun _ _ => c.expect_error_iff, fun _ _ => c.call_of_error⟩
  · rw [← left_eq_length]
    rfl
  · have same : c.exhausted = c.remaining.isEmpty := by
      rw [Bool.eq_iff_iff, exhausted_iff, List.isEmpty_iff]
    rw [← same]
    rfl
  · rw [← peek?_eq_head?]
    rfl

theorem calls_account_mixed :
    let out := (Source.mk ["(", "x", ")"]).start.callAll
      [.command (.expect ")"), .command (.advance "operator"), .left, .command (.expect "x")]
    taken out.1 = ["(", "x"] ∧ out.2.remaining = [")"]
      ∧ (out.2.call (.command (.expect "y"))).1 = .error (.otherToken "y" ")" [")"])
      ∧ (out.2.call (.command (.expect "y"))).2 = out.2 := by
  intro out
  obtain ⟨split, -, -, -, -, -, -, -, fails, stays⟩ := calls_account ["(", "x", ")"]
    [.command (.expect ")"), .command (.advance "operator"), .left, .command (.expect "x")]
  have took : taken out.1 = ["(", "x"] := rfl
  have rest : out.2.remaining = [")"] := by
    rw [took] at split
    exact List.append_cancel_left split
  have other := (fails "y" (.otherToken "y" ")" [")"])).mpr
    (.inr ⟨")", by rw [rest]; rfl, by decide, by rw [rest]⟩)
  exact ⟨took, rest, other, stays _ _ other⟩

end Formulae.Cursor
