import Formulae.Log.Message
import Formulae.Reading.Basic
import Formulae.Term.Derivative
/-!
A journal: the level in force, if one was set yet, the handlers attached, and every record so far
with the handlers that it went to. Configuration detaches all handlers and attaches its own; a later
change of level leaves them as they are. Reading and differentiation report what they did: a failure
to read from the detailed level on, a success only at the verbose one, a refused variable never.
-/
namespace Formulae.Log

inductive Destination
  | console
  | file
  | errors
deriving DecidableEq

/-- A destination as one configuration opened it; configurations are numbered from one. -/
structure Handler where
  destination : Destination
  configuration : Nat
deriving DecidableEq

/-- The error stream was there before any configuration. -/
def Handler.lastResort : Handler := ⟨.errors, 0⟩

structure Entry where
  record : Record
  handlers : List Handler
deriving DecidableEq

structure Journal where
  level? : Option Level
  configurations : Nat
  attached : List Handler
  entries : List Entry
deriving DecidableEq

namespace Journal

def empty : Journal := ⟨none, 0, [], []⟩

def detachAll (j : Journal) : Journal := { j with attached := [] }

def attach (d : Destination) (j : Journal) : Journal :=
  { j with attached := j.attached ++ [⟨d, j.configurations⟩] }

/-- Start anew at a level. A silent journal has no console. -/
def configure (level : Level) (file : Bool) (j : Journal) : Journal :=
  let fresh := { j.detachAll with level? := some level, configurations := j.configurations + 1 }
  let shown := if level = .silent then fresh else fresh.attach .console
  if file then shown.attach .file else shown

/-- The first use of a journal configures it. -/
def settle (j : Journal) : Journal :=
  match j.level? with
  | none => j.configure .moderate false
  | some _ => j

def level (j : Journal) : Level := j.level?.getD .moderate

def isVerbose (j : Journal) : Bool := j.level.covers .verbose

def setLevel (level : Level) (j : Journal) : Journal :=
  match j.level? with
  | none => j.configure level false
  | some _ => { j with level? := some level }

/-- A record goes to every handler attached. Without any, an urgent one goes to the error stream and
the others nowhere. -/
def handlers (r : Record) (j : Journal) : List Handler :=
  if j.attached.isEmpty && r.severity.isUrgent then [.lastResort] else j.attached

def write (r : Record) (j : Journal) : Journal :=
  { j with entries := j.entries ++ [⟨r, j.handlers r⟩] }

/-- The text is made only where it is admitted. -/
def report (i : Importance) (text : Unit → String) (j : Journal) : Journal :=
  if i.admitted j.level then j.settle.write (i.record (text ())) else j.settle

def records (j : Journal) : List Record := j.entries.map (·.record)

/-- What some handlers received, in order, a record once for each of them. -/
def receivedBy (among : Handler → Bool) (j : Journal) : List Record :=
  j.entries.flatMap fun e => List.replicate (e.handlers.countP among) e.record

def received (d : Destination) (j : Journal) : List Record := j.receivedBy (·.destination = d)

theorem configure_eq (level : Level) (file : Bool) (j : Journal) :
    j.configure level file =
      { j with
        level? := some level
        configurations := j.configurations + 1
        attached :=
          (if level = .silent then [] else [⟨.console, j.configurations + 1⟩])
            ++ if file then [⟨.file, j.configurations + 1⟩] else [] } := by
  unfold configure
  by_cases silent : level = .silent <;> cases file <;> simp [silent, attach, detachAll]

theorem level_configure (level : Level) (file : Bool) (j : Journal) :
    (j.configure level file).level = level := by
  rw [configure_eq]
  rfl

theorem level_setLevel (level : Level) (j : Journal) : (j.setLevel level).level = level := by
  unfold setLevel
  split
  · exact level_configure level false j
  · rfl

theorem level_settle (j : Journal) : j.settle.level = j.level := by
  unfold settle
  split
  · rename_i unset
    rw [level_configure, level, unset]
    rfl
  · rfl

theorem receivedBy_write (r : Record) (among : Handler → Bool) (j : Journal) :
    (j.write r).receivedBy among
      = j.receivedBy among ++ List.replicate ((j.handlers r).countP among) r := by
  simp [write, receivedBy]

end Journal

/-! ## Work that is reported -/

def source (style : Style) (text : String) : String :=
  style.name ++ " expression " ++ Text.quote text

def readFailure (style : Style) (text : String) (e : ParseError) : String :=
  "Failed to parse " ++ source style text ++ ": " ++ e.message

def readSuccess (style : Style) (text : String) (t : Term) : String :=
  "Parsed " ++ source style text ++ " -> " ++ t.text .operatorFirst

def derived (name : String) (t d : Term) : String :=
  "d/d" ++ name ++ " " ++ t.text .operatorFirst ++ " -> " ++ d.text .operatorFirst

def parse (style : Style) (text : String) (j : Journal) : Except ParseError Term × Journal :=
  match Term.parse style text with
  | .error e => (.error e, j.report (.info .detailed) fun _ => readFailure style text e)
  | .ok t => (.ok t, j.report .debug fun _ => readSuccess style text t)

def differentiate (t : Term) (name : String) (j : Journal) : Except Refusal Term × Journal :=
  match t.differentiate name with
  | .error e => (.error e, j)
  | .ok d => (.ok d, j.report .debug fun _ => derived name t d)

end Formulae.Log
