import Formulae.Proofs.JournalHistory
/-!
Work that reports itself, mixed with changes of the level. What the work answers does not depend on
the journal, and the journal takes one record for each piece of work whose report the level in force
at that moment covers, in the order of the work, and no others.
-/
namespace Formulae.Log

namespace Event

def answer : Event → Answer
  | setup _ | task (.report _ _) => .done
  | task (.parse style text) => .read (Term.parse style text)
  | task (.differentiate t name) => .derivative (t.differentiate name)

/-- The same work, with the journal kept silent. -/
def silenced : Event → Event
  | setup _ => setup (.configure .silent false)
  | task t => task t

def levelAfter (level : Level) : Event → Level
  | setup s => s.level?.getD level
  | task _ => level

variable (e : Event) (j : Journal)

theorem run_answer : (e.run j).1 = e.answer := by
  cases e with
  | setup s => rfl
  | task t =>
    cases t with
    | report i message => rfl
    | parse style text =>
      simp only [run, Task.run, Log.parse, answer]
      cases Term.parse style text <;> rfl
    | differentiate t name =>
      simp only [run, Task.run, Log.differentiate, answer]
      cases t.differentiate name <;> rfl

theorem answer_silenced : e.silenced.answer = e.answer := by
  cases e <;> rfl

theorem run_level : (e.run j).2.level = e.levelAfter j.level := by
  cases e with
  | setup s => exact s.apply_level j
  | task t => exact t.run_level j

theorem run_records : (e.run j).2.records = j.records ++ (e.record? j.level).toList := by
  have kept : (j.prepare e.setup?).records = j.records := by
    rw [Journal.records, Journal.prepare_entries, Journal.records]
  rw [e.run_journal, Journal.note_records, kept]

end Event

def recordsFrom (level : Level) : List Event → List Record
  | [] => []
  | e :: es => (e.record? level).toList ++ recordsFrom (e.levelAfter level) es

theorem run_answers (es : List Event) (j : Journal) : (run es j).1 = es.map Event.answer := by
  induction es generalizing j with
  | nil => rfl
  | cons e es ih => rw [run, List.map_cons, e.run_answer, ih]

theorem records_after (es : List Event) (j : Journal) :
    (after es j).records = j.records ++ recordsFrom j.level es := by
  induction es generalizing j with
  | nil => simp [after, run, recordsFrom]
  | cons e es ih => rw [after_cons, ih, e.run_records, e.run_level, recordsFrom, List.append_assoc]

/-- However work and changes of the level follow one another, the work answers as it does without a
journal and as it does with a silent one, and the records are just those that each event leaves at
the level in force before it. That an interpreter may run out of stack on a deep term is left
aside. -/
theorem answers_and_records (es : List Event) :
    let silent := Journal.empty.configure .silent false
    (run es .empty).1 = es.map Event.answer
      ∧ (run es .empty).1 = (run (es.map Event.silenced) silent).1
      ∧ (run es .empty).2.records = recordsFrom .moderate es := by
  intro silent
  refine ⟨run_answers es .empty, ?_, records_after es .empty⟩
  rw [run_answers, run_answers, List.map_map]
  exact List.map_congr_left fun e _ => e.answer_silenced.symm

example : recordsFrom .moderate
    [.task (.parse .bare "("), .setup (.setLevel .detailed), .task (.parse .bare "("),
      .task (.parse .bare "x"), .task (.differentiate (.var .x) "w")]
    = [⟨.info, "Failed to parse rpn expression '(': Parsing error occurred: "
      ++ "unexpected token '('. In: -> (."⟩] := by
  decide +kernel

end Formulae.Log
