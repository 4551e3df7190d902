/-!
Levels of a log, the importance of what is reported to it, and the records that admitted reports
become. A report is admitted when the level in force is at least the one that it requires; a
critical one at every level but silence.
-/
namespace Formulae.Log

inductive Level
  | silent | minimal | moderate | detailed | verbose
deriving DecidableEq

namespace Level

def all : List Level := [silent, minimal, moderate, detailed, verbose]

def name : Level → String
  | silent => "SILENT"
  | minimal => "MINIMAL"
  | moderate => "MODERATE"
  | detailed => "DETAILED"
  | verbose => "VERBOSE"

def rank : Level → Nat
  | silent => 0
  | minimal => 1
  | moderate => 2
  | detailed => 3
  | verbose => 4

def ofName? (s : String) : Option Level := all.find? (·.name = s)

def covers (level required : Level) : Bool := required.rank ≤ level.rank

end Level

inductive Severity
  | debug | info | warning | error
deriving DecidableEq

namespace Severity

def name : Severity → String
  | debug => "DEBUG"
  | info => "INFO"
  | warning => "WARNING"
  | error => "ERROR"

/-- Warnings and errors are shown even where no destination is attached. -/
def isUrgent : Severity → Bool
  | debug | info => false
  | warning | error => true

end Severity

structure Record where
  severity : Severity
  text : String
deriving DecidableEq

namespace Record

def line (clock : String) (r : Record) : String :=
  clock ++ " - " ++ r.severity.name ++ " - " ++ r.text ++ "\n"

def bareLine (r : Record) : String := r.text ++ "\n"

end Record

inductive Importance
  | info (required : Level)
  | warning
  | debug
  | critical
deriving DecidableEq

namespace Importance

def admitted (level : Level) : Importance → Bool
  | info required => level.covers required
  | warning => level.covers .minimal
  | debug => level.covers .verbose
  | critical => level ≠ .silent

def record (text : String) : Importance → Record
  | info _ => ⟨.info, text⟩
  | warning => ⟨.warning, text⟩
  | debug => ⟨.debug, "DEBUG: " ++ text⟩
  | critical => ⟨.error, "CRITICAL: " ++ text⟩

end Importance

end Formulae.Log
