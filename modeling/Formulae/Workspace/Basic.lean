import Formulae.Log.Journal
import Formulae.Term.Build
/-!
A workspace: terms kept under names, and the journal of the work on them.
-/
namespace Formulae

inductive Failure
  | parse (e : ParseError)
  | refusal (e : Refusal)
  | noSuchName (name : String)

def Failure.message : Failure → String
  | parse e => e.message
  | refusal e => e.message
  | noSuchName name => Text.quote name

structure Workspace where
  journal : Log.Journal
  terms : List (String × Term)

/-- Work that may fail; what it wrote to the journal stays written. -/
abbrev Work (α : Type) := ExceptT Failure (StateM Workspace) α

namespace Workspace

def empty : Workspace := ⟨.empty, []⟩

def keep (name : String) (t : Term) : Work Unit :=
  modify fun w => { w with terms := (name, t) :: w.terms }

def lookup (name : String) : Work Term := do
  match (← get).terms.lookup name with
  | some t => return t
  | none => throw (.noSuchName name)

def orRefuse {α : Type} : Except Refusal α → Work α
  | .ok a => pure a
  | .error e => throw (.refusal e)

def journaled {α : Type} (act : Log.Journal → α × Log.Journal) : Work α := do
  let w ← get
  let (a, j) := act w.journal
  set { w with journal := j }
  return a

def parse (style : Style) (text : String) : Work Term := do
  match ← journaled (Log.parse style text) with
  | .ok t => return t
  | .error e => throw (.parse e)

def differentiate (t : Term) (name : String) : Work Term := do
  orRefuse (← journaled (Log.differentiate t name))

def differentiateAll (t : Term) : List String → Work (List Term)
  | [] => pure []
  | name :: names => do
    let d ← differentiate t name
    let ds ← differentiateAll d names
    return d :: ds

end Workspace

end Formulae
