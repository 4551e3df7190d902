import Formulae.Proofs.Completeness
/-!
What the readers of the bracketed styles accept, the grammar derives. The invariant of a run is that
the tokens taken so far are explained by the open brackets: each of them opened where an operand may
come, and since then it took an operator and derivable operands.
-/
namespace Formulae.Reading

open Token

/-- The tokens of an open bracket, up to now. -/
inductive Opened : Style → Frame → List String → Prop
  | start : Opened .operatorFirst .empty []
  | first {op : Op} {operands : List Term} {parts : List (List String)}
      (room : ∀ n, op.arity = some n → operands.length ≤ n)
      (derived : List.Forall₂ (Derives .operatorFirst) parts operands.reverse) :
      Opened .operatorFirst ⟨some op, operands⟩ (op.symbol :: parts.flatten)
  | collecting {operands : List Term} {parts : List (List String)}
      (derived : List.Forall₂ (Derives .operatorLast) parts operands.reverse) :
      Opened .operatorLast ⟨none, operands⟩ parts.flatten
  | last {op : Op} {operands : List Term} {parts : List (List String)}
      (count : op.accepts operands.length = true)
      (derived : List.Forall₂ (Derives .operatorLast) parts operands.reverse) :
      Opened .operatorLast ⟨some op, operands⟩ (parts.flatten ++ [op.symbol])

/-- The tokens taken so far, by the brackets that are still open. -/
inductive Reached (style : Style) : List Frame → List String → Prop
  | start : Reached style [] []
  | inside {frames : List Frame} {f : Frame} {outer inner : List String}
      (below : Reached style frames outer) (ready : Ready style frames)
      (opened : Opened style f inner) :
      Reached style (f :: frames) (outer ++ openBracket :: inner)

def Outcome.Explains (style : Style) : Outcome → List String → Prop
  | .done t, tokens => Derives style tokens t
  | .more frames, tokens => Reached style frames tokens

variable {reader : Reader} {style : Style} {limit : Limit} {frames fs : List Frame} {f : Frame}
  {op : Op} {operands : List Term} {t : Term} {token : String} {inner rest tokens : List String}
  {o : Outcome}

theorem derived_reverse {parts : List (List String)} {u : List String}
    (derived : List.Forall₂ (Derives style) parts operands.reverse) (d : Derives style u t) :
    List.Forall₂ (Derives style) (parts ++ [u]) (t :: operands).reverse := by
  rw [List.reverse_cons]
  exact List.rel_append derived (.cons d .nil)

theorem opened_empty (bracketed : style ≠ .bare) : Opened style .empty [] := by
  cases style with
  | bare => exact absurd rfl bracketed
  | operatorFirst => exact .start
  | operatorLast =>
    have nothing : List.Forall₂ (Derives .operatorLast) [] (List.reverse []) := .nil
    exact .collecting nothing

theorem derives_leaf (leaf : Term.ofToken? token = some t) : Derives style [token] t := by
  rw [Term.ofToken?] at leaf
  cases name : Variable.ofName? token with
  | some v =>
    rw [name] at leaf
    cases leaf
    rw [← Variable.name_of_ofName? name]
    exact .var v
  | none =>
    rw [name] at leaf
    obtain ⟨c, number, rfl⟩ := Option.map_eq_some_iff.mp leaf
    exact .const number

theorem Opened.add {u : List String} (h : Opened style f inner) (takes : f.Takes 1 style)
    (d : Derives style u t) : Opened style (f.add t) (inner ++ u) := by
  cases h with
  | start => exact absurd takes id
  | @first op operands parts room derived =>
    have flat : parts.flatten ++ u = (parts ++ [u]).flatten := by simp
    rw [List.cons_append, flat]
    exact .first takes (derived_reverse derived d)
  | @collecting operands parts derived =>
    have flat : parts.flatten ++ u = (parts ++ [u]).flatten := by simp
    rw [flat]
    exact .collecting (derived_reverse derived d)
  | last => exact absurd takes id

theorem Reached.deliver {u : List String} (h : Reached style frames tokens)
    (ready : Ready style frames) (d : Derives style u t) :
    (deliver t frames).Explains style (tokens ++ u) := by
  cases h with
  | start => exact d
  | inside below earlier opened =>
    rw [List.append_assoc, List.cons_append]
    exact .inside below earlier (opened.add (ready_cons.mp ready) d)

/-! ## One token -/

/-- What a style may do at a token, by the open brackets. An operand comes only where there is room
for it. The operands of an operator that comes first are enough at the closing bracket, and one that
comes last may find too few or too many of them. -/
inductive Acts (style : Style) : List Frame → String → Action → Prop
  | enter {frames : List Frame} (ready : Ready style frames) :
      Acts style frames openBracket .enter
  | supply {frames : List Frame} {token : String} {t : Term} (ready : Ready style frames)
      (leaf : Term.ofToken? token = some t) : Acts style frames token (.supply t)
  | choose {fs : List Frame} {op : Op} {operands : List Term}
      (count : style = .operatorLast → op.accepts operands.length = true) :
      Acts style (⟨none, operands⟩ :: fs) op.symbol (.choose op)
  | close {fs : List Frame} {op : Op} {operands : List Term}
      (count : style = .operatorFirst → ∀ n, op.arity = some n → n ≤ operands.length) :
      Acts style (⟨some op, operands⟩ :: fs) closeBracket (.close op)
  | refuse (frames : List Frame) (token : String) : Acts style frames token .refuse
  | demandClose (f : Frame) (fs : List Frame) (token : String) :
      Acts style (f :: fs) token .demandClose
  | miscount {f : Frame} {fs : List Frame} {op : Op} {n : Nat} (late : style ≠ .operatorFirst)
      (arity : op.arity = some n) (differs : f.operands.length ≠ n) :
      Acts style (f :: fs) op.symbol (.miscount n)

theorem Acts.of_operand (ready : Ready style frames) (token : String) :
    Acts style frames token (operand token) := by
  unfold operand
  by_cases opening : token = openBracket
  · subst opening
    rw [if_pos rfl]
    exact .enter ready
  · rw [if_neg opening]
    cases leaf : Term.ofToken? token with
    | none => exact .refuse frames token
    | some t => exact .supply ready leaf

theorem Acts.of_closeOnly
    (count : style = .operatorFirst → ∀ n, op.arity = some n → n ≤ operands.length)
    (token : String) : Acts style (⟨some op, operands⟩ :: fs) token (closeOnly op token) := by
  unfold closeOnly
  by_cases closing : token = closeBracket
  · subst closing
    rw [if_pos rfl]
    exact .close count
  · rw [if_neg closing]
    exact .demandClose _ fs token

theorem Acts.first (frames : List Frame) (token : String) :
    Acts .operatorFirst frames token (actFirst frames.head? token) := by
  rcases frames with _ | ⟨⟨_ | op, operands⟩, fs⟩
  · exact .of_operand (by simp [Ready]) token
  · cases symbol : Op.ofSymbol? token with
    | none =>
      simp only [List.head?_cons, actFirst, symbol]
      exact .refuse _ token
    | some op =>
      simp only [List.head?_cons, actFirst, symbol]
      obtain rfl := Op.symbol_of_ofSymbol? symbol
      exact .choose fun other => absurd other (by decide)
  · cases arity : op.arity with
    | none =>
      have ready : Ready .operatorFirst (⟨some op, operands⟩ :: fs) :=
        ready_cons.mpr (by simp [Frame.Takes, arity])
      by_cases closing : token = closeBracket
      · subst closing
        simp only [List.head?_cons, actFirst, arity, if_true]
        exact .close (by simp [arity])
      · simp only [List.head?_cons, actFirst, arity, if_neg closing]
        exact .of_operand ready token
    | some n =>
      by_cases room : operands.length < n
      · have ready : Ready .operatorFirst (⟨some op, operands⟩ :: fs) :=
          ready_cons.mpr fun m some_m => Option.some.inj (arity.symm.trans some_m) ▸ room
        simp only [List.head?_cons, actFirst, arity, if_pos room]
        exact .of_operand ready token
      · simp only [List.head?_cons, actFirst, arity, if_neg room]
        exact .of_closeOnly (by simpa [arity] using room) token

theorem Acts.last (frames : List Frame) (token : String) :
    Acts .operatorLast frames token (actLast frames.head? token) := by
  rcases frames with _ | ⟨⟨_ | op, operands⟩, fs⟩
  · exact .of_operand (by simp [Ready]) token
  · cases symbol : Op.ofSymbol? token with
    | none =>
      have ready : Ready .operatorLast (⟨none, operands⟩ :: fs) := ready_cons.mpr trivial
      simp only [List.head?_cons, actLast, symbol]
      exact .of_operand ready token
    | some op =>
      obtain rfl := Op.symbol_of_ofSymbol? symbol
      cases arity : op.arity with
      | none =>
        have count : op.accepts operands.length = true := by simp [Op.accepts, arity]
        simp only [List.head?_cons, actLast, symbol, arity]
        exact .choose fun _ => count
      | some n =>
        by_cases same : operands.length = n
        · have count : op.accepts operands.length = true := by simp [Op.accepts, arity, same]
          simp only [List.head?_cons, actLast, symbol, arity, if_pos same]
          exact .choose fun _ => count
        · simp only [List.head?_cons, actLast, symbol, arity, if_neg same]
          exact .miscount (by decide) arity same
  · exact .of_closeOnly (fun other => absurd other (by decide)) token

theorem Reads.acts (hr : Reads reader style) (frames : List Frame) (token : String) :
    Acts style frames token (reader.act frames.head? token) := by
  cases hr with
  | first => exact .first frames token
  | last => exact .last frames token

inductive Steps (style : Style) : List Frame → String → Outcome → Prop
  | enter {frames : List Frame} (ready : Ready style frames) :
      Steps style frames openBracket (.more (.empty :: frames))
  | supply {frames : List Frame} {token : String} {t : Term} (ready : Ready style frames)
      (leaf : Term.ofToken? token = some t) : Steps style frames token (deliver t frames)
  | choose {fs : List Frame} {op : Op} {operands : List Term}
      (count : style = .operatorLast → op.accepts operands.length = true) :
      Steps style (⟨none, operands⟩ :: fs) op.symbol (.more (⟨some op, operands⟩ :: fs))
  | close {fs : List Frame} {op : Op} {operands : List Term}
      (count : style = .operatorFirst → ∀ n, op.arity = some n → n ≤ operands.length) :
      Steps style (⟨some op, operands⟩ :: fs) closeBracket
        (deliver (.app op operands.reverse) fs)

theorem Steps.of_step (hr : Reads reader style)
    (h : step reader limit frames token rest = .ok o) : Steps style frames token o := by
  have acted := hr.acts frames token
  generalize act : reader.act frames.head? token = action at acted
  unfold Reading.step at h
  rw [act] at h
  cases acted with
  | enter ready =>
    by_cases fits : limit.admits (frames.length + 1) = true
    · simp only [fits, if_true] at h
      cases h
      exact .enter ready
    · simp [fits] at h
  | supply ready leaf =>
    cases h
    exact .supply ready leaf
  | choose count =>
    cases h
    exact .choose count
  | close count =>
    cases h
    exact .close count
  | refuse | demandClose | miscount => cases h

theorem Opened.choose (h : Opened style ⟨none, operands⟩ inner)
    (count : style = .operatorLast → op.accepts operands.length = true) :
    Opened style ⟨some op, operands⟩ (inner ++ [op.symbol]) := by
  cases h with
  | start =>
    have nothing : List.Forall₂ (Derives .operatorFirst) [] (List.reverse []) := .nil
    exact .first (fun _ _ => Nat.zero_le _) nothing
  | collecting derived => exact .last (count rfl) derived

theorem Opened.close (h : Opened style ⟨some op, operands⟩ inner)
    (count : style = .operatorFirst → ∀ n, op.arity = some n → n ≤ operands.length) :
    Derives style (openBracket :: (inner ++ [closeBracket])) (.app op operands.reverse) := by
  cases h with
  | @first op operands parts room derived =>
    have full : op.accepts operands.reverse.length = true := by
      rw [List.length_reverse, Op.accepts]
      cases arity : op.arity with
      | none => rfl
      | some n => exact decide_eq_true (Nat.le_antisymm (room n arity) (count rfl n arity))
    exact .app full derived
  | @last op operands parts accepted derived =>
    have full : op.accepts operands.reverse.length = true := by
      rw [List.length_reverse, accepted]
    rw [List.append_assoc]
    exact .app full derived

theorem Reached.step (bracketed : style ≠ .bare) (reached : Reached style frames tokens)
    (h : Steps style frames token o) : o.Explains style (tokens ++ [token]) := by
  cases h with
  | enter ready => exact .inside reached ready (opened_empty bracketed)
  | supply ready leaf => exact reached.deliver ready (derives_leaf leaf)
  | choose count =>
    cases reached with
    | inside below ready opened =>
      rw [List.append_assoc, List.cons_append]
      exact .inside below ready (opened.choose count)
  | close count =>
    cases reached with
    | inside below ready opened =>
      rw [List.append_assoc, List.cons_append]
      exact below.deliver ready (opened.close count)

/-- A run that ends with a term has taken tokens that derive it. -/
theorem run_sound (hr : Reads reader style) {taken : List String}
    (reached : Reached style frames taken)
    (h : run reader limit frames tokens = .ok (t, rest)) :
    ∃ v, tokens = v ++ rest ∧ Derives style (taken ++ v) t := by
  induction tokens generalizing frames taken with
  | nil => cases h
  | cons token tokens ih =>
    rw [run] at h
    cases stepped : Reading.step reader limit frames token tokens with
    | error e =>
      rw [stepped] at h
      cases h
    | ok o =>
      have explained := reached.step hr.bracketed (Steps.of_step hr stepped)
      rw [stepped] at h
      cases o with
      | done t =>
        cases h
        exact ⟨[token], rfl, explained⟩
      | more frames =>
        obtain ⟨v, rfl, derived⟩ := ih explained h
        refine ⟨token :: v, rfl, ?_⟩
        simpa using derived

theorem derives_of_document (hr : Reads reader style) (h : document reader limit tokens = .ok t) :
    Derives style tokens t := by
  rw [document, element] at h
  cases read : run reader limit [] tokens with
  | error e =>
    rw [read] at h
    cases h
  | ok result =>
    obtain ⟨t', rest⟩ := result
    obtain ⟨v, rfl, derived⟩ := run_sound hr .start read
    cases rest with
    | nil =>
      rw [read] at h
      cases h
      rw [List.append_nil]
      exact derived
    | cons token rest =>
      rw [read] at h
      cases h

/-- A document is the term that its tokens derive, as long as the brackets in it are admitted. -/
theorem document_iff (hr : Reads reader style)
    (within : ∀ most, limit = some most → NestsWithin most tokens) :
    document reader limit tokens = .ok t ↔ Derives style tokens t := by
  constructor
  · exact derives_of_document hr
  · intro h
    refine document_of_derives hr limit h ?_
    cases limit with
    | none => rfl
    | some most => exact decide_eq_true (h.nesting_le hr.bracketed most (within most rfl))

end Formulae.Reading
