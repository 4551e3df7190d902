import Formulae.Proofs.Descent
/-!
Elements are read apart from what follows them. An element takes the tokens that it consists of and
no others, whatever comes next, so that no element starts with a whole other one. It takes at least
one of them, and for that reason every loop over operands ends.
-/
namespace Formulae.Reading

open Token

variable {reader : Reader} {style : Style} {limit : Limit} {frames : List Frame} {item : Item}
  {more : More} {t s : Term} {tokens rest u v : List String}

theorem exists_taken_of_run (h : run reader limit frames tokens = .ok (t, rest)) :
    ∃ taken, taken ≠ [] ∧ tokens = taken ++ rest
      ∧ ∀ rest', run reader limit frames (taken ++ rest') = .ok (t, rest') := by
  induction frames, tokens using run.induct reader limit with
  | case1 frames => cases h
  | case2 frames token tokens e stepped =>
    rw [run, stepped] at h
    cases h
  | case3 frames token tokens t' stepped =>
    rw [run_of_step stepped] at h
    cases h
    exact ⟨[token], List.cons_ne_nil _ _, rfl, fun rest' =>
      run_of_step (step_of_ok stepped rest')⟩
  | case4 frames token tokens frames' stepped ih =>
    rw [run_of_step stepped] at h
    obtain ⟨taken, -, rfl, alike⟩ := ih h
    refine ⟨token :: taken, List.cons_ne_nil _ _, rfl, fun rest' => ?_⟩
    exact (run_of_step (step_of_ok stepped (taken ++ rest'))).trans (alike rest')

/-- No tokens of an element go on to be the tokens of another one. -/
theorem eq_of_element (hu : element reader limit u = .ok (t, []))
    (hv : element reader limit v = .ok (s, [])) (front : u <+: v) : u = v ∧ t = s := by
  obtain ⟨w, rfl⟩ := front
  obtain ⟨taken, -, whole, alike⟩ := exists_taken_of_run hu
  rw [List.append_nil] at whole
  have read : element reader limit (u ++ w) = .ok (t, w) := whole ▸ alike w
  rw [read] at hv
  obtain ⟨rfl, rfl⟩ := Prod.mk.inj (Except.ok.inj hv)
  exact ⟨(List.append_nil u).symm, rfl⟩

/-! ## Loops -/

/-- A loop over operands by its rounds. Each of them finds that one more is wanted and reads an item,
until none is wanted or an item cannot be read. -/
inductive Rounds (item : Item) (more : More) :
    Nat → List Term → Cursor → Except ParseError (List Term) × Cursor → Prop
  | enough {taken : List Term} {c : Cursor} (h : more taken.length c.peek? = false) :
      Rounds item more 0 taken c (.ok taken.reverse, c)
  | fails {taken : List Term} {c c' : Cursor} {e : ParseError}
      (wanted : more taken.length c.peek? = true) (read : item.run c = (.error e, c')) :
      Rounds item more 1 taken c (.error e, c')
  | again {taken : List Term} {c c' : Cursor} {t : Term} {rounds : Nat}
      {out : Except ParseError (List Term) × Cursor} (wanted : more taken.length c.peek? = true)
      (read : item.run c = (.ok t, c')) (later : Rounds item more rounds (t :: taken) c' out) :
      Rounds item more (rounds + 1) taken c out

/-- A loop ends, since each round but the last leaves fewer tokens. -/
theorem exists_rounds (item : Item) (more : More) (taken : List Term) (c : Cursor) :
    ∃ rounds ≤ c.left + 1, Rounds item more rounds taken c (operandsFrom item more taken c) := by
  induction taken, c using operandsFrom.induct item more with
  | case1 taken c wanted e d out =>
    rw [operandsFrom_of_more wanted, out]
    exact ⟨1, Nat.le_add_left 1 c.left, .fails wanted out⟩
  | case2 taken c wanted t d out ih =>
    obtain ⟨rounds, few, later⟩ := ih
    rw [operandsFrom_of_more wanted, out]
    have shorter := item.progress out
    exact ⟨rounds + 1, by omega, .again wanted out later⟩
  | case3 taken c enough =>
    rw [Bool.not_eq_true] at enough
    rw [operandsFrom_of_enough enough]
    exact ⟨0, Nat.zero_le _, .enough enough⟩

/-! ## Elements -/

/-- An item reads the elements of a reader, in at most so many brackets, each by its own tokens. -/
structure ReadsApart (reader : Reader) (most : Nat) (item : Item) : Prop where
  /-- The reader that keeps a stack of open brackets reads the same. -/
  same : ∀ c, element reader (some most) c.remaining = match item.run c with
    | (.error e, _) => .error e
    | (.ok t, c') => .ok (t, c'.remaining)
  /-- An element takes some tokens, and takes them just so before any others. -/
  apart : ∀ {c c' t}, item.run c = (.ok t, c') → ∃ taken, taken ≠ []
    ∧ c.remaining = taken ++ c'.remaining
    ∧ ∀ {d : Cursor} {rest}, d.remaining = taken ++ rest →
      ∃ d', item.run d = (.ok t, d') ∧ d'.remaining = rest
  /-- No element is the start of another one. -/
  no_start : ∀ {c c' d d' t s}, item.run c = (.ok t, c') → c'.remaining = [] →
    item.run d = (.ok s, d') → d'.remaining = [] → c.remaining <+: d.remaining →
    c.remaining = d.remaining ∧ t = s
  /-- A loop over such elements ends after no more rounds than there are tokens, or in the next. -/
  ends : ∀ (more : More) (taken : List Term) (c : Cursor), ∃ rounds ≤ c.left + 1,
    Rounds item more rounds taken c (operandsFrom item more taken c)

theorem element_eq_descent (hr : Reads reader style) (most : Nat) (c : Cursor) :
    element reader (some most) c.remaining = match (descent style most).run c with
      | (.error e, _) => .error e
      | (.ok t, c') => .ok (t, c'.remaining) := by
  have awaits : Awaits reader none c.peek? := by
    cases hr <;> cases c.peek? <;> rfl
  have same := mirrors_descent hr most [] c awaits
  rw [List.length_nil, Nat.zero_add] at same
  rw [element, same]
  rcases (descent style most).run c with ⟨_ | t, c'⟩ <;> rfl

theorem run_descent_iff (hr : Reads reader style) {most : Nat} {c : Cursor} :
    element reader (some most) c.remaining = .ok (t, rest)
      ↔ ∃ c', (descent style most).run c = (.ok t, c') ∧ c'.remaining = rest := by
  rw [element_eq_descent hr]
  rcases (descent style most).run c with ⟨_ | t', c'⟩ <;> simp

/-- In the bracketed styles, elements are read apart from what follows them. -/
theorem elements_read_apart (hr : Reads reader style) (most : Nat) :
    ReadsApart reader most (descent style most) where
  same := element_eq_descent hr most
  apart {c c' t} h := by
    obtain ⟨taken, nonempty, split, alike⟩ :=
      exists_taken_of_run ((run_descent_iff hr).mpr ⟨c', h, rfl⟩)
    refine ⟨taken, nonempty, split, fun {d rest} before => ?_⟩
    rw [← run_descent_iff hr, before]
    exact alike rest
  no_start {c c' d d' t s} h ends h' ends' front := by
    have read := (run_descent_iff hr).mpr ⟨c', h, ends⟩
    have read' := (run_descent_iff hr).mpr ⟨d', h', ends'⟩
    exact eq_of_element read read' front
  ends := exists_rounds (descent style most)

theorem elements_read_apart_sum :
    let sum := ["(", "x", "(", "1", "lse", ")", "+", ")"]
    let t := Term.app .add [.var .x, .app .lse [.const .one]]
    let read := fun rest => (descent .operatorLast 2).run (Source.start ⟨sum ++ rest⟩)
    read ["y"] = (.ok t, ⟨⟨sum ++ ["y"]⟩, 8⟩)
      ∧ ∃ c, read [")", "w", "("] = (.ok t, c) ∧ c.remaining = [")", "w", "("] := by
  intro sum t read
  have first : read ["y"] = (.ok t, ⟨⟨sum ++ ["y"]⟩, 8⟩) := by decide +kernel
  obtain ⟨taken, -, split, alike⟩ := (elements_read_apart .last 2).apart first
  have same : sum = taken := List.append_cancel_right (split : sum ++ ["y"] = taken ++ ["y"])
  exact ⟨first, alike (congrArg (· ++ _) same)⟩

end Formulae.Reading
