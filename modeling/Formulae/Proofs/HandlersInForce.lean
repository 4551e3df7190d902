import Formulae.Proofs.JournalHistory
/-!
The handlers that records go to. Whatever was configured before, those attached are the ones that the
last configuration opened, one for each of its destinations, so what work reports arrives there once
and nowhere else.
-/
namespace Formulae.Log

theorem nodup_handlers (c : Configuration) (number : Nat) : (c.handlers number).Nodup := by
  by_cases silent : c.level = .silent <;> cases file : c.file <;>
    simp [Configuration.handlers, silent, file]

theorem configuration_of_mem_handlers {c : Configuration} {number : Nat} {h : Handler}
    (mem : h ∈ c.handlers number) : h.configuration = number := by
  obtain console | file := List.mem_append.mp mem
  · split at console
    · cases console
    · rw [List.mem_singleton.mp console]
  · split at file
    · rw [List.mem_singleton.mp file]
    · cases file

theorem handlersAfter_cases (ss : List Setup) : handlersAfter ss = []
    ∨ ∃ c : Configuration, handlersAfter ss = c.handlers (configurations ss).length := by
  unfold handlersAfter
  cases (configurations ss).getLast? with
  | none => exact .inl rfl
  | some c => exact .inr ⟨c, rfl⟩

theorem nodup_handlersAfter (ss : List Setup) : (handlersAfter ss).Nodup := by
  obtain none_ | ⟨c, last⟩ := handlersAfter_cases ss
  · simp [none_]
  · rw [last]
    exact nodup_handlers c _

theorem count_handlers {j : Journal} (distinct : j.attached.Nodup) {h : Handler}
    (opened : h ≠ .lastResort) (r : Record) :
    (j.handlers r).countP (· == h) = if h ∈ j.attached then 1 else 0 := by
  have other : (Handler.lastResort == h) = false := beq_false_of_ne opened.symm
  rw [Journal.countP_handlers _ other]
  exact distinct.count

theorem work_cases (work : List Task) (j : Journal) :
    (after (work.map .task) j).attached = j.settle.attached
      ∨ after (work.map .task) j = j ∧ work.filterMap (Task.record? j.level) = [] := by
  induction work generalizing j with
  | nil => exact .inr ⟨rfl, rfl⟩
  | cons t work ih =>
    rw [List.map_cons, after_cons]
    obtain used | ⟨unused, nothing⟩ := t.run_cases j
    · left
      -- from here on the journal is in use, and other work may leave all as it is
      obtain same | ⟨same, -⟩ := ih ((Event.task t).run j).2
      · rw [same, t.run_settle_attached]
      · rw [same, used, Journal.note_attached]
    · rw [unused, List.filterMap_cons, nothing]
      exact ih j

/-- After any history the handlers attached are those of the last configuration, at most one for a
destination. Of the work that follows each of them receives every record that the level in force
covers, once, and no other handler that was ever opened receives any. -/
theorem handlers_of_last_configuration (es : List Event) :
    let j := after es .empty
    let setups := es.filterMap Event.setup?
    let made := configurations setups
    (j.attached = made.getLast?.elim [] (·.handlers made.length))
      ∧ (∀ d, j.attached.countP (·.destination = d) ≤ 1)
      ∧ (∀ h ∈ j.attached, h.configuration = made.length)
      ∧ ∀ (work : List Task) (h : Handler), h ≠ .lastResort →
        let k := after (work.map .task) j
        k.receivedBy (· == h) = j.receivedBy (· == h)
          ++ if h ∈ k.attached then work.filterMap (Task.record? (levelAfter setups)) else [] := by
  intro j setups made
  have follows : Follows setups j := follows_after es
  refine ⟨follows.attached, fun d => ?_, fun h mem => ?_, fun work h opened => ?_⟩
  · obtain none_ | ⟨c, last⟩ := handlersAfter_cases setups
    · simp [follows.attached, none_]
    · rw [follows.attached, last, c.countP_handlers]
      split <;> decide
  · obtain none_ | ⟨c, last⟩ := handlersAfter_cases setups
    · simp [follows.attached, none_] at mem
    · rw [follows.attached, last] at mem
      exact configuration_of_mem_handlers mem
  -- The first task may still attach what the last configuration asks for, which one use does too;
  -- from then on the handlers stay, and the records are counted over that journal.
  · intro k
    have used : Follows (setups ++ [.use]) j.settle := follows.apply .use
    have distinct : j.settle.attached.Nodup := used.attached ▸ nodup_handlersAfter _
    rw [receivedBy_work, follows.level]
    simp only [count_handlers distinct opened]
    obtain same | ⟨-, nothing⟩ := work_cases work j
    · rw [← same]
      split <;> simp
    · rw [follows.level] at nothing
      simp [nothing]

theorem handlers_of_last_configuration_console :
    let es := [Event.setup (.configure .verbose true), .task (.report .debug "before"),
      .setup (.setLevel .silent), .setup (.configure .minimal false)]
    let k := after (([.report .warning "now", .report .debug "never"] : List Task).map .task)
      (after es .empty)
    (after es .empty).attached = [⟨.console, 2⟩]
      ∧ k.receivedBy (· == ⟨.console, 2⟩) = [⟨.warning, "now"⟩]
      ∧ k.receivedBy (· == ⟨.file, 1⟩) = [⟨.debug, "DEBUG: before"⟩] := by
  intro es k
  obtain ⟨attached, -, -, sent⟩ := handlers_of_last_configuration es
  have console := sent [.report .warning "now", .report .debug "never"] ⟨.console, 2⟩ (by decide)
  have file := sent [.report .warning "now", .report .debug "never"] ⟨.file, 1⟩ (by decide)
  exact ⟨attached.trans (by decide), console.trans (by decide), file.trans (by decide)⟩

end Formulae.Log
