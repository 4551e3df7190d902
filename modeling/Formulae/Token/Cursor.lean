import Formulae.Reading.Error
/-!
A cursor over tokens: the tokens, and how many of them it has passed. Moves of a cursor may fail, and
a failure does not put the cursor back; that it never has to is a fact about `advance` and `expect`.
-/
namespace Formulae

structure Source where
  tokens : List String
deriving DecidableEq

structure Cursor extends Source where
  position : Nat
deriving DecidableEq

def Source.start (s : Source) : Cursor := ⟨s, 0⟩

namespace Cursor

abbrev Move (α : Type) := ExceptT ParseError (StateM Cursor) α

def left (c : Cursor) : Nat := c.tokens.length - c.position

def exhausted (c : Cursor) : Bool := c.tokens.length ≤ c.position

def remaining (c : Cursor) : List String := c.tokens.drop c.position

def peek? (c : Cursor) : Option String := c.tokens[c.position]?

def passed (c : Cursor) : Cursor := { c with position := c.position + 1 }

/-- Take the next token, which is called `expected` where there is none. -/
def advance (expected : String) : Move String := do
  match (← get).peek? with
  | none => throw (.endOfText expected)
  | some t =>
    modify passed
    return t

def expect (token : String) : Move String := do
  let c ← get
  match c.peek? with
  | none => throw (.endOfText token)
  | some t => if t = token then advance token else throw (.otherToken token t c.remaining)

inductive Command
  | peek
  | remaining
  | advance (expected : String)
  | expect (token : String)
deriving DecidableEq

inductive Reply
  | next (token? : Option String)
  | tokens (rest : List String)
  | taken (token : String)
deriving DecidableEq

def Command.perform : Command → Move Reply
  | peek => return .next (← get).peek?
  | remaining => return .tokens (← get).remaining
  | advance expected => return .taken (← Cursor.advance expected)
  | expect token => return .taken (← Cursor.expect token)

def run (c : Cursor) (cmd : Command) : Except ParseError Reply × Cursor := cmd.perform.run.run c

def runFrom (c : Cursor) : List Command → List (Except ParseError Reply × Cursor)
  | [] => []
  | cmd :: cmds =>
    let step := c.run cmd
    step :: runFrom step.2 cmds

def runAll (s : Source) (cmds : List Command) : List (Except ParseError Reply × Cursor) :=
  runFrom s.start cmds

variable {c : Cursor}

theorem peek?_eq_head? : c.peek? = c.remaining.head? := (List.head?_drop ..).symm

theorem left_eq_length : c.left = c.remaining.length := (List.length_drop ..).symm

theorem exhausted_iff : c.exhausted = true ↔ c.remaining = [] := by
  rw [exhausted, decide_eq_true_eq, remaining, List.drop_eq_nil_iff]

theorem remaining_of_peek? {t : String} (h : c.peek? = some t) :
    c.remaining = t :: c.passed.remaining := by
  obtain ⟨inside, rfl⟩ := List.getElem?_eq_some_iff.mp h
  exact List.drop_eq_getElem_cons inside

theorem remaining_of_none (h : c.peek? = none) : c.remaining = [] := by
  rw [peek?_eq_head?] at h
  exact List.head?_eq_none_iff.mp h

theorem left_of_peek? {t : String} (h : c.peek? = some t) : c.left = c.passed.left + 1 := by
  rw [left_eq_length, left_eq_length, remaining_of_peek? h, List.length_cons]

theorem run_get_bind {α : Type} (f : Cursor → Move α) (c : Cursor) :
    (get >>= f : Move α).run.run c = (f c).run.run c := rfl

/-- One move after another, which has no part in it where the first one fails. -/
theorem run_bind {α β : Type} (m : Move α) (f : α → Move β) (c : Cursor) :
    (m >>= f).run.run c = match m.run.run c with
      | (.ok a, c') => (f a).run.run c'
      | (.error e, c') => (.error e, c') := by
  rcases out : m.run.run c with ⟨result, c'⟩
  rw [ExceptT.run_bind, StateT.run_bind, out]
  cases result <;> rfl

theorem run_bind_of_ok {α β : Type} {m : Move α} {f : α → Move β} {c' : Cursor} {a : α}
    (h : m.run.run c = (.ok a, c')) : (m >>= f).run.run c = (f a).run.run c' := by
  rw [run_bind, h]

theorem run_bind_of_error {α β : Type} {m : Move α} {f : α → Move β} {c' : Cursor}
    {e : ParseError} (h : m.run.run c = (.error e, c')) :
    (m >>= f).run.run c = (.error e, c') := by
  rw [run_bind, h]

theorem run_return {α β : Type} (x : Move α) (f : α → β) (c : Cursor) :
    (do return f (← x) : Move β).run.run c = ((x.run.run c).1.map f, (x.run.run c).2) := by
  rw [run_bind]
  rcases x.run.run c with ⟨_ | a, c'⟩ <;> rfl

theorem run_advance (expected : String) (c : Cursor) :
    (advance expected).run.run c = match c.peek? with
      | none => (.error (.endOfText expected), c)
      | some t => (.ok t, c.passed) := by
  rw [advance, run_get_bind]
  cases c.peek? <;> rfl

theorem run_expect (token : String) (c : Cursor) :
    (expect token).run.run c = match c.peek? with
      | none => (.error (.endOfText token), c)
      | some t =>
        if t = token then (.ok t, c.passed) else (.error (.otherToken token t c.remaining), c) := by
  rw [expect, run_get_bind]
  cases next : c.peek? with
  | none => rfl
  | some t =>
    dsimp only
    split
    · rw [run_advance, next]
    · rfl

end Cursor

end Formulae
