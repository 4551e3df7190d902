import Formulae.Proofs.JournalHistory
/-!
What the console shows of some work, for every history of set-up before it. Where the last
configuration was silent there is no console, and a level that is raised afterwards brings none; in
all other histories a line is shown just where the level in force covers the one that it requires. So
histories with one level in force may show the same work differently, and just those do of which one
raised a silent journal.
-/
namespace Formulae.Log

def consoleLines (h : List Setup) (work : List Task) : List Record :=
  (after (h.map .setup ++ work.map .task) .empty).received .console

def builtSilent (h : List Setup) : Bool := (configurations h).getLast?.any (·.level = .silent)

/-- Reports that silence does not admit. -/
def Task.Graded (t : Task) : Prop := ∀ required r, t.line? = some (required, r) → required ≠ .silent

theorem setup_entries (h : List Setup) (j : Journal) :
    (after (h.map .setup) j).entries = j.entries := by
  induction h generalizing j with
  | nil => rfl
  | cons s h ih =>
    rw [List.map_cons, after_cons, ih]
    exact s.apply_entries j

theorem follows_setup (h : List Setup) : Follows h (after (h.map .setup) .empty) := by
  simpa [List.filterMap_map, Function.comp_def, Event.setup?] using follows_after (h.map .setup)

theorem Follows.countP_console {h : List Setup} {j : Journal} (follows : Follows h j) :
    j.settle.attached.countP (·.destination = .console) = if builtSilent h then 0 else 1 := by
  have used : Follows (h ++ [.use]) j.settle := follows.apply .use
  rw [used.attached]
  by_cases first : h = []
  · subst first
    rfl
  · obtain ⟨before, c, made⟩ := exists_last_configuration first
    have kept : configurations (h ++ [.use]) = before ++ [c] := by
      rw [configurations_later first rfl, made]
    rw [handlersAfter_of_configurations kept, c.countP_handlers]
    by_cases silent : c.level = .silent <;> simp [Configuration.opens, builtSilent, made, silent]

theorem consoleLines_eq (h : List Setup) (work : List Task) :
    consoleLines h work
      = if builtSilent h then [] else work.filterMap (Task.record? (levelAfter h)) := by
  have follows := follows_setup h
  have nothing (among : Handler → Bool) :
      (after (h.map .setup) .empty).receivedBy among = [] := by
    rw [Journal.receivedBy, setup_entries]
    rfl
  rw [consoleLines, after_append, Journal.received, receivedBy_work, follows.level, nothing]
  have console := Journal.countP_handlers (·.destination = .console) rfl
  simp only [console, follows.countP_console]
  cases builtSilent h <;> simp

theorem Level.covers_silent {required : Level} (loud : required ≠ .silent) :
    Level.silent.covers required = false := by
  cases required <;> simp_all [covers, rank]

theorem Level.covers_minimal {level : Level} (loud : level ≠ .silent) :
    level.covers .minimal = true := by
  cases level <;> simp_all [covers, rank]

theorem filterMap_record?_silent {work : List Task} (graded : ∀ t ∈ work, t.Graded) :
    work.filterMap (Task.record? .silent) = [] := by
  rw [List.filterMap_eq_nil_iff]
  intro t mem
  cases line : t.line? with
  | none => simp [Task.record?, line]
  | some offer => simp [Task.record?, line, Level.covers_silent (graded t mem _ _ line)]

theorem shown_alike_iff (level : Level) (one other : Bool) :
    (∀ work : List Task, (∀ t ∈ work, t.Graded) →
        (if one then [] else work.filterMap (Task.record? level))
          = if other then [] else work.filterMap (Task.record? level))
      ↔ level = .silent ∨ one = other := by
  constructor
  · intro alike
    by_cases silent : level = .silent
    · exact .inl silent
    · right
      have graded : ∀ t ∈ [Task.report .warning ""], t.Graded := by
        simp [Task.Graded, Task.line?, Importance.required]
      have shown := alike _ graded
      have covered := Level.covers_minimal silent
      cases one <;> cases other <;>
        simp_all [Task.record?, Task.line?, Importance.required]
  · rintro (silent | same) work graded
    · rw [silent, filterMap_record?_silent graded, ite_self, ite_self]
    · rw [same]

/-- The console shows just the lines that the level in force covers, or none if the last
configuration was silent. So it shows all work by that level exactly if the level is silence or the
last configuration was not silent, and two histories with one level in force show all work alike
exactly if that level is silence or both have a console or neither has one. -/
theorem consoleLines_exact (h k : List Setup) (level : levelAfter h = levelAfter k) :
    (∀ work : List Task, consoleLines h work
        = if builtSilent h then [] else work.filterMap (Task.record? (levelAfter h)))
      ∧ ((∀ work : List Task, (∀ t ∈ work, t.Graded) →
          consoleLines h work = work.filterMap (Task.record? (levelAfter h)))
        ↔ levelAfter h = .silent ∨ builtSilent h = false)
      ∧ ((∀ work : List Task, (∀ t ∈ work, t.Graded) → consoleLines h work = consoleLines k work)
        ↔ levelAfter h = .silent ∨ builtSilent h = builtSilent k) := by
  refine ⟨consoleLines_eq h, ?_, ?_⟩
  · simp only [consoleLines_eq]
    exact shown_alike_iff (levelAfter h) (builtSilent h) false
  · simp only [consoleLines_eq, ← level]
    exact shown_alike_iff (levelAfter h) (builtSilent h) (builtSilent k)

theorem consoleLines_exact_lowered :
    let lowered := [Setup.configure .minimal false, .setLevel .silent, .setLevel .detailed]
    levelAfter lowered = levelAfter [.setLevel .detailed]
      ∧ (∀ work : List Task, (∀ t ∈ work, t.Graded) →
        consoleLines lowered work = consoleLines [.setLevel .detailed] work)
      ∧ consoleLines lowered [.parse .operatorFirst "(", .parse .operatorLast "x"]
        = [⟨.info, "Failed to parse prefix expression '(': Parsing error occurred: "
          ++ "expected 'operator', got end of expression."⟩] := by
  intro lowered
  obtain ⟨lines, -, alike⟩ := consoleLines_exact lowered [.setLevel .detailed] rfl
  refine ⟨rfl, alike.mpr (.inr rfl), ?_⟩
  rw [lines]
  decide +kernel

/-- Silence and then the verbose level leave the level that a verbose configuration leaves, but an
admitted line reaches the console only after the latter. -/
theorem consoleLines_of_raised :
    let raised := [Setup.configure .silent false, .setLevel .verbose]
    let verbose := [Setup.configure .verbose false]
    let work := [Task.report (.info .minimal) "plain"]
    levelAfter raised = levelAfter verbose ∧ (∀ t ∈ work, t.Graded)
      ∧ consoleLines verbose work = [⟨.info, "plain"⟩] ∧ consoleLines raised work = [] := by
  refine ⟨rfl, ?_, ?_, ?_⟩
  · simp [Task.Graded, Task.line?, Importance.required]
  · decide
  · decide

end Formulae.Log
