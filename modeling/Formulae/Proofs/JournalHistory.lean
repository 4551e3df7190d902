import Formulae.Log.Journal
/-!
Histories of a journal: calls that set it up, its first use among them, and work that is reported to
it. What a history leaves behind is told from its calls alone: the level is the last one that was
given, and the handlers attached are those of the last configuration.
-/
namespace Formulae.Log

inductive Setup
  | configure (level : Level) (file : Bool)
  | setLevel (level : Level)
  | use

def Setup.apply : Setup → Journal → Journal
  | configure level file => .configure level file
  | setLevel level => .setLevel level
  | use => .settle

inductive Task
  | report (i : Importance) (message : String)
  | parse (style : Style) (text : String)
  | differentiate (t : Term) (name : String)

inductive Event
  | setup (s : Setup)
  | task (t : Task)

inductive Answer
  | done
  | read (result : Except ParseError Term)
  | derivative (result : Except Refusal Term)

def Task.run : Task → Journal → Answer × Journal
  | report i message, j => (.done, j.report i fun _ => message)
  | parse style text, j => (Log.parse style text j).map .read id
  | differentiate t name, j => (Log.differentiate t name j).map .derivative id

def Event.run : Event → Journal → Answer × Journal
  | setup s, j => (.done, s.apply j)
  | task t, j => t.run j

def run : List Event → Journal → List Answer × Journal
  | [], j => ([], j)
  | e :: es, j =>
    let one := e.run j
    let others := run es one.2
    (one.1 :: others.1, others.2)

def after (es : List Event) (j : Journal) : Journal := (run es j).2

theorem after_append (es fs : List Event) (j : Journal) :
    after (es ++ fs) j = after fs (after es j) := by
  induction es generalizing j with
  | nil => rfl
  | cons e es ih => exact ih (e.run j).2

theorem after_cons (e : Event) (es : List Event) (j : Journal) :
    after (e :: es) j = after es (e.run j).2 := rfl

/-! ## What set-up leaves behind -/

structure Configuration where
  level : Level
  file : Bool
deriving DecidableEq

namespace Configuration

def opens (c : Configuration) : Destination → Bool
  | .console => c.level ≠ .silent
  | .file => c.file
  | .errors => false

def handlers (c : Configuration) (number : Nat) : List Handler :=
  (if c.level = .silent then [] else [Handler.mk .console number])
    ++ if c.file then [Handler.mk .file number] else []

theorem countP_handlers (c : Configuration) (number : Nat) (d : Destination) :
    (c.handlers number).countP (·.destination = d) = if c.opens d then 1 else 0 := by
  by_cases silent : c.level = .silent <;> cases file : c.file <;> cases d <;>
    simp [handlers, opens, silent, file]

end Configuration

namespace Setup

def configuration? : Setup → Option Configuration
  | configure level file => some ⟨level, file⟩
  | setLevel _ | use => none

/-- The configuration that a call makes where there was none before. -/
def initial : Setup → Configuration
  | configure level file => ⟨level, file⟩
  | setLevel level => ⟨level, false⟩
  | use => ⟨.moderate, false⟩

def level? : Setup → Option Level
  | configure level _ | setLevel level => some level
  | use => none

end Setup

/-- The first call configures, whatever it is; after it only a configuration does. -/
def configurations : List Setup → List Configuration
  | [] => []
  | s :: ss => s.initial :: ss.filterMap Setup.configuration?

def levelAfter (ss : List Setup) : Level := (ss.filterMap Setup.level?).getLast?.getD .moderate

def handlersAfter (ss : List Setup) : List Handler :=
  (configurations ss).getLast?.elim [] (·.handlers (configurations ss).length)

theorem configurations_concat (ss : List Setup) (s : Setup) :
    configurations (ss ++ [s])
      = configurations ss ++ if ss = [] then [s.initial] else s.configuration?.toList := by
  cases ss with
  | nil => rfl
  | cons first rest => cases h : s.configuration? <;> simp [configurations, h]

theorem configurations_later {ss : List Setup} {s : Setup} (later : ss ≠ [])
    (keeps : s.configuration? = none) : configurations (ss ++ [s]) = configurations ss := by
  simp [configurations_concat, later, keeps]

theorem exists_last_configuration {ss : List Setup} (later : ss ≠ []) :
    ∃ before c, configurations ss = before ++ [c] := by
  cases ss with
  | nil => contradiction
  | cons s ss =>
    exact ⟨_, _, (List.dropLast_concat_getLast (List.cons_ne_nil _ _)).symm⟩

theorem levelAfter_concat (ss : List Setup) (s : Setup) :
    levelAfter (ss ++ [s]) = s.level?.getD (levelAfter ss) := by
  cases h : s.level? <;> simp [levelAfter, List.filterMap_append, h]

theorem handlersAfter_of_configurations {ss : List Setup} {before : List Configuration}
    {c : Configuration} (h : configurations ss = before ++ [c]) :
    handlersAfter ss = c.handlers (before.length + 1) := by
  simp [handlersAfter, h]

/-- A journal as the set-up before it leaves it. -/
structure Follows (ss : List Setup) (j : Journal) : Prop where
  level? : j.level? = if ss = [] then none else some (levelAfter ss)
  count : j.configurations = (configurations ss).length
  attached : j.attached = handlersAfter ss

namespace Follows

variable {ss : List Setup} {j : Journal}

theorem start : Follows [] .empty := ⟨rfl, rfl, rfl⟩

theorem level (h : Follows ss j) : j.level = levelAfter ss := by
  by_cases first : ss = []
  · subst first
    rw [Journal.level, h.level?]
    rfl
  · rw [Journal.level, h.level?, if_neg first]
    rfl

theorem unset_iff (h : Follows ss j) : j.level? = none ↔ ss = [] := by
  simp [h.level?]

theorem configure (h : Follows ss j) {s : Setup} {level : Level} {file : Bool}
    (makes : configurations (ss ++ [s]) = configurations ss ++ [⟨level, file⟩])
    (gives : levelAfter (ss ++ [s]) = level) :
    Follows (ss ++ [s]) (j.configure level file) where
  level? := by simp [Journal.configure_eq, gives]
  count := by simp [Journal.configure_eq, makes, h.count]
  attached := by
    rw [handlersAfter_of_configurations makes, Journal.configure_eq, h.count]
    rfl

theorem adjust (h : Follows ss j) {s : Setup} {k : Journal} (later : ss ≠ [])
    (keeps : s.configuration? = none) (level? : k.level? = some (levelAfter (ss ++ [s])))
    (count : k.configurations = j.configurations) (attached : k.attached = j.attached) :
    Follows (ss ++ [s]) k := by
  have same := configurations_later later keeps
  refine ⟨by simp [level?], ?_, ?_⟩
  · rw [count, same, h.count]
  · rw [attached, handlersAfter, same]
    exact h.attached

theorem apply (h : Follows ss j) (s : Setup) : Follows (ss ++ [s]) (s.apply j) := by
  have gives := levelAfter_concat ss s
  cases set : j.level? with
  | none =>
    -- the first call
    obtain rfl := h.unset_iff.mp set
    cases s <;> simp only [Setup.apply, Journal.setLevel, Journal.settle, set]
      <;> exact h.configure rfl gives
  | some level =>
    have later : ss ≠ [] := fun first => by simp [h.unset_iff.mpr first] at set
    cases s with
    | configure =>
      refine h.configure ?_ gives
      rw [configurations_concat, if_neg later]
      rfl
    | setLevel =>
      simp only [Setup.apply, Journal.setLevel, set]
      exact h.adjust later rfl (congrArg some gives.symm) rfl rfl
    | use =>
      have before := h.level?
      rw [if_neg later] at before
      simp only [Setup.apply, Journal.settle, set]
      exact h.adjust later rfl (before.trans (congrArg some gives.symm)) rfl rfl

end Follows

/-! ## What work reports -/

def Importance.required : Importance → Level
  | info required => required
  | warning | critical => .minimal
  | debug => .verbose

theorem Importance.admitted_eq (level : Level) (i : Importance) :
    i.admitted level = level.covers i.required := by
  cases i <;> cases level <;> rfl

namespace Task

/-- What a task has to report, in full, with the level that this requires. -/
def line? : Task → Option (Level × Record)
  | report i message => some (i.required, i.record message)
  | parse style text =>
    match Term.parse style text with
    | .error e => some (.detailed, ⟨.info, "Failed to parse "
      ++ (style.name ++ " expression " ++ Text.quote text) ++ ": " ++ e.message⟩)
    | .ok t => some (.verbose, ⟨.debug, "DEBUG: " ++ ("Parsed "
      ++ (style.name ++ " expression " ++ Text.quote text) ++ " -> " ++ t.text .operatorFirst)⟩)
  | differentiate t name =>
    match t.differentiate name with
    | .error _ => none
    | .ok d => some (.verbose, ⟨.debug, "DEBUG: " ++ ("d/d" ++ name ++ " "
      ++ t.text .operatorFirst ++ " -> " ++ d.text .operatorFirst)⟩)

def record? (level : Level) (t : Task) : Option Record :=
  t.line?.bind fun (required, r) => if level.covers required then some r else none

end Task

namespace Event

/-- What an event is to the set-up. Work with nothing to report does not use the journal. -/
def setup? : Event → Option Setup
  | setup s => some s
  | task t => t.line?.map fun _ => .use

def record? (level : Level) : Event → Option Record
  | setup _ => none
  | task t => t.record? level

end Event

namespace Journal

def note (r? : Option Record) (j : Journal) : Journal := r?.elim j j.write

def prepare (s? : Option Setup) (j : Journal) : Journal := s?.elim j (·.apply j)

theorem report_eq (i : Importance) (text : Unit → String) (j : Journal) :
    j.report i text
      = j.settle.note (if j.level.covers i.required then some (i.record (text ())) else none) := by
  rw [report, Importance.admitted_eq]
  split <;> rfl

end Journal

namespace Event

/-- What an event leaves: its set-up and, where that is admitted, its record. -/
theorem run_journal (e : Event) (j : Journal) :
    (e.run j).2 = (j.prepare e.setup?).note (e.record? j.level) := by
  cases e with
  | setup s => rfl
  | task t =>
    simp only [run, setup?, record?, Task.record?]
    cases t with
    | report i message => exact j.report_eq i fun _ => message
    | parse style text =>
      simp only [Task.run, Log.parse, Task.line?]
      cases Term.parse style text with
      | error e => exact j.report_eq (.info .detailed) fun _ => readFailure style text e
      | ok t => exact j.report_eq .debug fun _ => readSuccess style text t
    | differentiate t name =>
      simp only [Task.run, Log.differentiate, Task.line?]
      cases t.differentiate name with
      | error e => rfl
      | ok d => exact j.report_eq .debug fun _ => derived name t d

end Event

/-! ## What histories leave behind -/

theorem Follows.note {ss : List Setup} {j : Journal} (h : Follows ss j) (r? : Option Record) :
    Follows ss (j.note r?) := by
  cases r? <;> exact ⟨h.level?, h.count, h.attached⟩

theorem Follows.event {ss : List Setup} {j : Journal} (h : Follows ss j) (e : Event) :
    Follows (ss ++ e.setup?.toList) (e.run j).2 := by
  rw [e.run_journal]
  refine Follows.note ?_ _
  cases e.setup? with
  | none => simpa [Journal.prepare] using h
  | some s => exact h.apply s

theorem Follows.after {ss : List Setup} {j : Journal} (h : Follows ss j) (es : List Event) :
    Follows (ss ++ es.filterMap Event.setup?) (after es j) := by
  induction es generalizing ss j with
  | nil => simpa [Log.after, run] using h
  | cons e es ih =>
    have rest := ih (h.event e)
    rw [after_cons]
    cases setup : e.setup? <;> simpa [setup] using rest

/-- Whatever happens, the journal is as the set-up among it leaves it. -/
theorem follows_after (es : List Event) :
    Follows (es.filterMap Event.setup?) (after es .empty) :=
  Follows.start.after es

theorem Setup.apply_entries (s : Setup) (j : Journal) : (s.apply j).entries = j.entries := by
  cases s <;> cases set : j.level? <;>
    simp [apply, Journal.setLevel, Journal.settle, Journal.configure_eq, set]

theorem Setup.apply_level (s : Setup) (j : Journal) :
    (s.apply j).level = s.level?.getD j.level := by
  cases s with
  | configure level file => exact j.level_configure level file
  | setLevel level => exact j.level_setLevel level
  | use => exact j.level_settle

/-! ## What work adds to a journal -/

namespace Journal

theorem note_level (r? : Option Record) (j : Journal) : (j.note r?).level = j.level := by
  cases r? <;> rfl

theorem note_attached (r? : Option Record) (j : Journal) : (j.note r?).attached = j.attached := by
  cases r? <;> rfl

theorem prepare_entries (s? : Option Setup) (j : Journal) : (j.prepare s?).entries = j.entries := by
  cases s? with
  | none => rfl
  | some s => exact s.apply_entries j

theorem note_records (r? : Option Record) (j : Journal) :
    (j.note r?).records = j.records ++ r?.toList := by
  cases r? <;> simp [note, write, records]

theorem note_receivedBy (r? : Option Record) (among : Handler → Bool) (j : Journal) :
    (j.note r?).receivedBy among = j.receivedBy among
      ++ r?.toList.flatMap fun r => List.replicate ((j.handlers r).countP among) r := by
  cases r? with
  | none => simp [note]
  | some r => simp [note, receivedBy_write]

theorem settle_note_settle (r? : Option Record) (j : Journal) :
    (j.settle.note r?).settle = j.settle.note r? := by
  have set : (j.settle.note r?).level? ≠ none := by
    cases r? <;> cases before : j.level? <;> simp [note, write, settle, configure_eq, before]
  generalize j.settle.note r? = k at set
  unfold settle
  split
  · contradiction
  · rfl

end Journal

namespace Task

variable (t : Task) (j : Journal)

theorem run_cases : ((Event.task t).run j).2 = j.settle.note (t.record? j.level)
    ∨ ((Event.task t).run j).2 = j ∧ t.record? j.level = none := by
  rw [Event.run_journal, Event.record?]
  cases line : t.line? with
  | none => exact .inr (by simp [Event.setup?, record?, line, Journal.prepare, Journal.note])
  | some => exact .inl (by simp [Event.setup?, line, Journal.prepare, Setup.apply])

theorem run_level : ((Event.task t).run j).2.level = j.level := by
  obtain used | ⟨unused, -⟩ := t.run_cases j
  · rw [used, Journal.note_level, Journal.level_settle]
  · rw [unused]

theorem run_settle_attached : ((Event.task t).run j).2.settle.attached = j.settle.attached := by
  obtain used | ⟨unused, -⟩ := t.run_cases j
  · rw [used, Journal.settle_note_settle, Journal.note_attached]
  · rw [unused]

theorem run_receivedBy (among : Handler → Bool) :
    ((Event.task t).run j).2.receivedBy among = j.receivedBy among
      ++ (t.record? j.level).toList.flatMap fun r =>
        List.replicate ((j.settle.handlers r).countP among) r := by
  obtain used | ⟨unused, nothing⟩ := t.run_cases j
  · have entries : j.settle.entries = j.entries := Setup.apply_entries .use j
    have same : j.settle.receivedBy among = j.receivedBy among := by
      rw [Journal.receivedBy, entries, Journal.receivedBy]
    rw [used, Journal.note_receivedBy, same]
  · simp [unused, nothing]

end Task

theorem Journal.countP_handlers (among : Handler → Bool) (others : among .lastResort = false)
    (r : Record) (j : Journal) : (j.handlers r).countP among = j.attached.countP among := by
  unfold handlers
  split
  · rename_i nowhere
    simp only [Bool.and_eq_true, List.isEmpty_iff] at nowhere
    simp [nowhere.1, others]
  · rfl

theorem Journal.handlers_congr {j k : Journal} (same : j.attached = k.attached) (r : Record) :
    j.handlers r = k.handlers r := by
  rw [Journal.handlers, same, Journal.handlers]

/-- Work sends what the level admits, in order, to the handlers of the journal in use. -/
theorem receivedBy_work (among : Handler → Bool) (work : List Task) (j : Journal) :
    (after (work.map .task) j).receivedBy among = j.receivedBy among
      ++ (work.filterMap (Task.record? j.level)).flatMap fun r =>
        List.replicate ((j.settle.handlers r).countP among) r := by
  induction work generalizing j with
  | nil => simp [after, run]
  | cons t work ih =>
    -- neither the level nor the handlers in use change while there is only work
    have handlers := Journal.handlers_congr (t.run_settle_attached j)
    rw [List.map_cons, after_cons, ih, t.run_level, t.run_receivedBy]
    simp only [handlers]
    cases record : t.record? j.level <;> simp [record]

end Formulae.Log
