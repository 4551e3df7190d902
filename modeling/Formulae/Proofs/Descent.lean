import Formulae.Proofs.FirstFault
import Formulae.Token.Cursor
/-!
Reading by descent. An element is a leaf or a bracket, and the operands of a bracket are elements in
their turn, read in a loop that looks at the next token before each of them. A reader that goes over
a cursor in this way does what the stack of open brackets does, so an element can be read apart from
the bracket around it.
-/
namespace Formulae.Reading

open Token Cursor

/-- A move that reads a term and gets on by doing so. -/
structure Item where
  move : Move Term
  progress : ∀ {c c' : Cursor} {t : Term}, move.run.run c = (.ok t, c') → c'.left < c.left

def Item.run (item : Item) (c : Cursor) : Except ParseError Term × Cursor := item.move.run.run c

/-- Whether one more operand is read, after some of them and before the next token. -/
abbrev More := Nat → Option String → Bool

/-- An operator that comes first tells how many operands it takes, or takes all before the closing
bracket. -/
def moreFirst (op : Op) : More := fun count next? =>
  match op.arity with
  | none => next?.any (· ≠ closeBracket)
  | some n => count < n

/-- An operator that comes last has all operands before it. -/
def moreLast : More := fun _ next? => next?.any fun token => (Op.ofSymbol? token).isNone

/-- The loop over the operands of a bracket. It ends because every item gets on. -/
def operandsFrom (item : Item) (more : More) (taken : List Term) (c : Cursor) :
    Except ParseError (List Term) × Cursor :=
  if more taken.length c.peek? then
    match _read : item.run c with
    | (.error e, c') => (.error e, c')
    | (.ok t, c') => operandsFrom item more (t :: taken) c'
  else (.ok taken.reverse, c)
termination_by c.left
decreasing_by exact item.progress _read

def operands (item : Item) (more : More) : Move (List Term) := operandsFrom item more []

def checkCount (op : Op) (count : Nat) : Move Unit := do
  match op.arity with
  | none => return
  | some n => if count = n then return else throw (.wrongCount n count (← get).remaining)

def bracket (style : Style) (item : Item) : Move Term := do
  match style with
  | .operatorFirst =>
    let token ← advance expectedOperator
    match Op.ofSymbol? token with
    | none => throw (.unexpected token (← get).remaining)
    | some op =>
      let args ← operands item (moreFirst op)
      let _ ← expect closeBracket
      return .app op args
  | .operatorLast =>
    let args ← operands item moreLast
    match (← get).peek?.bind Op.ofSymbol? with
    | none => throw (.endOfText expectedOperator)
    | some op =>
      checkCount op args.length
      let _ ← advance "token"
      let _ ← expect closeBracket
      return .app op args
  | .bare => throw (.unexpected openBracket (← get).remaining)

def leaf (token : String) : Move Term := do
  match Term.ofToken? token with
  | some t => return t
  | none => throw (.unexpected token (← get).remaining)

def leafOr (inside : Move Term) : Move Term := do
  let token ← advance expectedOperand
  if token = openBracket then inside else leaf token

def tooDeep : Move Term := do throw (.refused .tooDeep (← get).remaining)

/-! ## Moves that never go back -/

/-- A move that does not go back when it succeeds. -/
def Onward {α : Type} (m : Move α) : Prop :=
  ∀ (c c' : Cursor) (a : α), m.run.run c = (.ok a, c') → c'.left ≤ c.left

theorem Onward.bind {α β : Type} {m : Move α} {f : α → Move β} (hm : Onward m)
    (hf : ∀ a, Onward (f a)) : Onward (m >>= f) := by
  intro c c' b h
  rw [run_bind] at h
  rcases out : m.run.run c with ⟨_ | a, d⟩
  · rw [out] at h
    cases h
  · rw [out] at h
    exact Nat.le_trans (hf a d c' b h) (hm c d a out)

theorem onward_get_bind {α : Type} {f : Cursor → Move α} (hf : ∀ c, Onward (f c)) :
    Onward (get >>= f) := fun c => hf c c

theorem onward_return {α : Type} (a : α) : Onward (return a : Move α) := by
  rintro c c' _ ⟨⟩
  exact Nat.le_refl _

theorem onward_throw {α : Type} (e : ParseError) : Onward (throw e : Move α) := by
  rintro c c' _ ⟨⟩

theorem left_of_advance {expected token : String} {c c' : Cursor}
    (h : (advance expected).run.run c = (.ok token, c')) : c'.left < c.left := by
  rw [run_advance] at h
  cases next : c.peek? with
  | none =>
    rw [next] at h
    cases h
  | some t =>
    rw [next] at h
    cases h
    exact Nat.lt_of_succ_le (Nat.le_of_eq (left_of_peek? next).symm)

theorem onward_advance (expected : String) : Onward (advance expected) :=
  fun _ _ _ h => Nat.le_of_lt (left_of_advance h)

theorem onward_expect (token : String) : Onward (expect token) := by
  unfold expect
  refine onward_get_bind fun c => ?_
  cases c.peek? with
  | none => exact onward_throw _
  | some t =>
    dsimp only
    split
    · exact onward_advance token
    · exact onward_throw _

theorem operandsFrom_of_more {item : Item} {more : More} {taken : List Term} {c : Cursor}
    (wanted : more taken.length c.peek? = true) :
    operandsFrom item more taken c = match item.run c with
      | (.error e, c') => (.error e, c')
      | (.ok t, c') => operandsFrom item more (t :: taken) c' := by
  rw [operandsFrom, if_pos wanted]
  split <;> rename_i out <;> rw [out]

theorem operandsFrom_of_enough {item : Item} {more : More} {taken : List Term} {c : Cursor}
    (enough : more taken.length c.peek? = false) :
    operandsFrom item more taken c = (.ok taken.reverse, c) := by
  rw [operandsFrom, if_neg (by rw [enough]; decide)]

theorem onward_operandsFrom {item : Item} {more : More} {taken args : List Term} {c c' : Cursor}
    (h : operandsFrom item more taken c = (.ok args, c')) :
    c'.left ≤ c.left ∧ more args.length c'.peek? = false := by
  induction taken, c using operandsFrom.induct item more with
  | case1 taken c wanted e d out =>
    rw [operandsFrom_of_more wanted, out] at h
    cases h
  | case2 taken c wanted t d out ih =>
    rw [operandsFrom_of_more wanted, out] at h
    obtain ⟨onward, enough⟩ := ih h
    exact ⟨Nat.le_trans onward (Nat.le_of_lt (item.progress out)), enough⟩
  | case3 taken c enough =>
    rw [Bool.not_eq_true] at enough
    rw [operandsFrom_of_enough enough] at h
    cases h
    exact ⟨Nat.le_refl _, by rwa [List.length_reverse]⟩

theorem operands_run {more : More} {item : Item} {c c' : Cursor}
    {result : Except ParseError (List Term)} (h : operandsFrom item more [] c = (result, c')) :
    (operands item more).run.run c = (result, c') := h

theorem onward_operands (item : Item) (more : More) : Onward (operands item more) :=
  fun _ _ _ h => (onward_operandsFrom h).1

theorem onward_checkCount (op : Op) (count : Nat) : Onward (checkCount op count) := by
  unfold checkCount
  cases op.arity with
  | none => exact onward_return ()
  | some n =>
    dsimp only
    split
    · exact onward_return ()
    · exact onward_get_bind fun c => onward_throw _

theorem onward_bracket (style : Style) (item : Item) : Onward (bracket style item) := by
  unfold bracket
  cases style with
  | operatorFirst =>
    refine (onward_advance expectedOperator).bind fun token => ?_
    cases Op.ofSymbol? token with
    | none => exact onward_get_bind fun c => onward_throw _
    | some op =>
      refine (onward_operands item (moreFirst op)).bind fun args => ?_
      exact (onward_expect closeBracket).bind fun _ => onward_return _
  | operatorLast =>
    refine (onward_operands item moreLast).bind fun args => onward_get_bind fun c => ?_
    cases c.peek?.bind Op.ofSymbol? with
    | none => exact onward_throw _
    | some op =>
      refine (onward_checkCount op args.length).bind fun _ => ?_
      refine (onward_advance "token").bind fun _ => ?_
      exact (onward_expect closeBracket).bind fun _ => onward_return _
  | bare => exact onward_get_bind fun c => onward_throw _

theorem onward_leaf (token : String) : Onward (leaf token) := by
  unfold leaf
  cases Term.ofToken? token with
  | some t => exact onward_return t
  | none => exact onward_get_bind fun c => onward_throw _

theorem left_of_leafOr {inside : Move Term} (onward : Onward inside) {c c' : Cursor} {t : Term}
    (h : (leafOr inside).run.run c = (.ok t, c')) : c'.left < c.left := by
  have rest (token : String) : Onward (if token = openBracket then inside else leaf token) := by
    split
    · exact onward
    · exact onward_leaf token
  rw [leafOr, run_bind] at h
  rcases out : (advance expectedOperand).run.run c with ⟨_ | token, d⟩
  · rw [out] at h
    cases h
  · rw [out] at h
    exact Nat.lt_of_le_of_lt (rest token d c' t h) (left_of_advance out)

/-- The reader of elements, in so many brackets at most. -/
def descent (style : Style) : Nat → Item
  | 0 => ⟨leafOr tooDeep, left_of_leafOr (onward_get_bind fun _ => onward_throw _)⟩
  | most + 1 => ⟨leafOr (bracket style (descent style most)), left_of_leafOr (onward_bracket _ _)⟩

/-! ## The same outcome -/

variable {reader : Reader} {style : Style} {limit : Limit} {frames fs : List Frame} {item : Item}
  {most : Nat} {c : Cursor}

/-- An element is wanted: the next token is taken for the start of one, and so is the end. -/
def Awaits (reader : Reader) (frame? : Option Frame) : Option String → Prop
  | none => reader.missing frame? = expectedOperand
  | some token => reader.act frame? token = operand token

def follow (reader : Reader) (limit : Limit) (frames : List Frame) :
    Except ParseError Term × Cursor → Except ParseError (Term × List String)
  | (.error e, _) => .error e
  | (.ok t, c) => resume reader limit (deliver t frames) c.remaining

/-- Wherever a stack wants an element, it reads what an item reads. -/
def Mirrors (reader : Reader) (most : Nat) (item : Item) : Prop :=
  ∀ (frames : List Frame) (c : Cursor), Awaits reader frames.head? c.peek? →
    run reader (some (frames.length + most)) frames c.remaining
      = follow reader (some (frames.length + most)) frames (item.run c)

theorem run_of_none (h : c.peek? = none) :
    run reader limit frames c.remaining = .error (.endOfText (reader.missing frames.head?)) := by
  rw [remaining_of_none h, run]

theorem run_operandsFrom (mirrors : Mirrors reader most item) {more : More} (fs : List Frame)
    (op? : Option Op)
    (awaits : ∀ taken next?, more taken.length next? = true →
      Awaits reader (some ⟨op?, taken⟩) next?) (taken : List Term) (c : Cursor) :
    run reader (some (fs.length + 1 + most)) (⟨op?, taken⟩ :: fs) c.remaining
      = match operandsFrom item more taken c with
        | (.error e, _) => .error e
        | (.ok args, c') =>
          run reader (some (fs.length + 1 + most)) (⟨op?, args.reverse⟩ :: fs) c'.remaining := by
  induction taken, c using operandsFrom.induct item more with
  | case1 taken c wanted e d out =>
    have same := mirrors (⟨op?, taken⟩ :: fs) c (awaits taken c.peek? wanted)
    rw [out] at same
    rw [operandsFrom_of_more wanted, out]
    exact same
  | case2 taken c wanted t d out ih =>
    have same := mirrors (⟨op?, taken⟩ :: fs) c (awaits taken c.peek? wanted)
    rw [out] at same
    rw [operandsFrom_of_more wanted, out]
    exact same.trans ih
  | case3 taken c enough =>
    rw [Bool.not_eq_true] at enough
    rw [operandsFrom_of_enough enough]
    simp only [List.reverse_reverse]

theorem run_close (limit : Limit) (fs : List Frame) {op : Op} {operands : List Term}
    (missing : c.peek? = none → reader.missing (some ⟨some op, operands⟩) = closeBracket)
    (act : ∀ token, c.peek? = some token →
      reader.act (some ⟨some op, operands⟩) token = closeOnly op token) :
    run reader limit (⟨some op, operands⟩ :: fs) c.remaining
      = follow reader limit fs
        ((do let _ ← expect closeBracket; return .app op operands.reverse : Move Term).run.run c) := by
  rw [run_bind, run_expect]
  cases next : c.peek? with
  | none =>
    rw [run_of_none next, List.head?_cons, missing next]
    rfl
  | some token =>
    rw [remaining_of_peek? next]
    by_cases closing : token = closeBracket
    · have closes : reader.act (some ⟨some op, operands⟩) token = .close op := by
        rw [act token next, closeOnly, if_pos closing]
      have stepped : step reader limit (⟨some op, operands⟩ :: fs) token c.passed.remaining
          = .ok (deliver (.app op operands.reverse) fs) := by
        rw [step, List.head?_cons, closes]
      rw [run_of_step stepped]
      simp only [if_pos closing]
      rfl
    · have refuses : reader.act (some ⟨some op, operands⟩) token = .demandClose := by
        rw [act token next, closeOnly, if_neg closing]
      simp only [if_neg closing]
      rw [run, step, List.head?_cons, refuses]
      rfl

theorem awaits_moreFirst {op : Op} {taken : List Term} {next? : Option String}
    (wanted : moreFirst op taken.length next? = true) :
    Awaits operatorFirst (some ⟨some op, taken⟩) next? := by
  unfold moreFirst at wanted
  cases arity : op.arity with
  | none =>
    rw [arity] at wanted
    cases next? with
    | none => cases wanted
    | some token =>
      have other : token ≠ closeBracket := of_decide_eq_true wanted
      simp only [Awaits, operatorFirst, actFirst, arity, if_neg other]
  | some n =>
    rw [arity] at wanted
    have room : taken.length < n := of_decide_eq_true wanted
    cases next? with
    | none => simp only [Awaits, operatorFirst, missingFirst, arity, if_pos room]
    | some token => simp only [Awaits, operatorFirst, actFirst, arity, if_pos room]

theorem closes_moreFirst {op : Op} {taken : List Term}
    (enough : moreFirst op taken.length c.peek? = false) :
    (c.peek? = none → missingFirst (some ⟨some op, taken⟩) = closeBracket)
      ∧ ∀ token, c.peek? = some token → actFirst (some ⟨some op, taken⟩) token = closeOnly op token
    := by
  unfold moreFirst at enough
  cases arity : op.arity with
  | none =>
    rw [arity] at enough
    refine ⟨fun _ => by simp only [missingFirst, arity], ?_⟩
    intro token next
    rw [next] at enough
    have closing : token = closeBracket := not_not.mp (of_decide_eq_false enough)
    simp only [actFirst, arity, closeOnly, if_pos closing]
  | some n =>
    rw [arity] at enough
    have full : ¬ taken.length < n := of_decide_eq_false enough
    refine ⟨fun _ => by simp only [missingFirst, arity, if_neg full], ?_⟩
    intro token _
    simp only [actFirst, arity, if_neg full]

theorem run_bracket_first (mirrors : Mirrors operatorFirst most item) (c : Cursor) :
    run operatorFirst (some (fs.length + 1 + most)) (.empty :: fs) c.remaining
      = follow operatorFirst (some (fs.length + 1 + most)) fs
        ((bracket .operatorFirst item).run.run c) := by
  simp only [bracket]
  rw [run_bind, run_advance]
  cases next : c.peek? with
  | none => exact run_of_none next
  | some token =>
    rw [remaining_of_peek? next]
    dsimp only
    cases symbol : Op.ofSymbol? token with
    | none =>
      have refuses : operatorFirst.act (some .empty) token = .refuse := by
        simp only [operatorFirst, Frame.empty, actFirst, symbol]
      rw [run, step, List.head?_cons, refuses]
      rfl
    | some op =>
      obtain rfl := Op.symbol_of_ofSymbol? symbol
      have read := run_operandsFrom mirrors fs (some op) (fun _ _ => awaits_moreFirst) [] c.passed
      dsimp only
      rw [run_symbol_first, read]
      rcases out : operandsFrom item (moreFirst op) [] c.passed with ⟨e | args, c'⟩
      · rw [run_bind_of_error (operands_run out)]
        rfl
      · rw [run_bind_of_ok (operands_run out)]
        have enough := (onward_operandsFrom out).2
        rw [← List.length_reverse] at enough
        obtain ⟨missing, act⟩ := closes_moreFirst enough
        have closed := @run_close operatorFirst c' (some (fs.length + 1 + most)) fs op args.reverse
          missing act
        rwa [List.reverse_reverse] at closed

theorem run_checkCount_of_accepts {op : Op} {count : Nat} (h : op.accepts count = true) :
    (checkCount op count).run.run c = (.ok (), c) := by
  unfold checkCount
  unfold Op.accepts at h
  cases arity : op.arity with
  | none => rfl
  | some n =>
    rw [arity] at h
    dsimp only
    rw [if_pos (of_decide_eq_true h)]
    rfl

theorem run_checkCount_of_differs {op : Op} {count n : Nat} (arity : op.arity = some n)
    (differs : count ≠ n) :
    (checkCount op count).run.run c = (.error (.wrongCount n count c.remaining), c) := by
  unfold checkCount
  rw [arity]
  dsimp only
  rw [if_neg differs]
  rfl

theorem exists_arity_of_not_accepts {op : Op} {count : Nat} (h : op.accepts count = false) :
    ∃ n, op.arity = some n ∧ count ≠ n := by
  unfold Op.accepts at h
  cases arity : op.arity with
  | none =>
    rw [arity] at h
    cases h
  | some n =>
    rw [arity] at h
    exact ⟨n, rfl, of_decide_eq_false h⟩

theorem awaits_moreLast {taken : List Term} {next? : Option String}
    (wanted : moreLast taken.length next? = true) :
    Awaits operatorLast (some ⟨none, taken⟩) next? := by
  cases next? with
  | none => cases wanted
  | some token =>
    have plain : Op.ofSymbol? token = none := Option.isNone_iff_eq_none.mp wanted
    simp only [Awaits, operatorLast, actLast, plain]

theorem run_bracket_last (mirrors : Mirrors operatorLast most item) (c : Cursor) :
    run operatorLast (some (fs.length + 1 + most)) (.empty :: fs) c.remaining
      = follow operatorLast (some (fs.length + 1 + most)) fs
        ((bracket .operatorLast item).run.run c) := by
  have read := run_operandsFrom mirrors fs none (fun _ _ => awaits_moreLast) [] c
  simp only [bracket]
  rw [Frame.empty, read]
  rcases out : operandsFrom item moreLast [] c with ⟨e | args, c'⟩
  · rw [run_bind_of_error (operands_run out)]
    rfl
  rw [run_bind_of_ok (operands_run out)]
  -- The operands end at the end of the text or at a registered operator; `enough` rules out a word.
  have enough := (onward_operandsFrom out).2
  dsimp only
  rw [run_get_bind]
  cases next : c'.peek? with
  | none => exact run_of_none next
  | some token =>
    rw [next] at enough
    rw [remaining_of_peek? next]
    cases symbol : Op.ofSymbol? token with
    | none => simp [moreLast, symbol] at enough
    | some op =>
      obtain rfl := Op.symbol_of_ofSymbol? symbol
      have closed := @run_close operatorLast c'.passed (some (fs.length + 1 + most)) fs op
        args.reverse (fun _ => rfl) fun _ _ => rfl
      rw [List.reverse_reverse] at closed
      cases count : op.accepts args.length with
      | true =>
        have full : op.accepts args.reverse.length = true := by rw [List.length_reverse, count]
        rw [run_symbol_last full]
        refine closed.trans (congrArg (follow _ _ fs) ?_)
        simp only [Option.bind_some, symbol]
        have taken : (advance "token").run.run c' = (.ok op.symbol, c'.passed) := by
          rw [run_advance, next]
        rw [run_bind_of_ok (run_checkCount_of_accepts count), run_bind_of_ok taken]
      | false =>
        obtain ⟨n, arity, differs⟩ := exists_arity_of_not_accepts count
        have refuses : operatorLast.act (some ⟨none, args.reverse⟩) op.symbol = .miscount n := by
          have other : args.reverse.length ≠ n := by rwa [List.length_reverse]
          simp only [operatorLast, actLast, symbol, arity, if_neg other]
        rw [run, step, List.head?_cons, refuses]
        simp only [Option.bind_some, symbol]
        rw [run_bind_of_error (run_checkCount_of_differs arity differs), remaining_of_peek? next]
        simp only [follow, Option.elim_some, List.length_reverse]

theorem run_bracket (hr : Reads reader style) (mirrors : Mirrors reader most item) (c : Cursor) :
    run reader (some (fs.length + 1 + most)) (.empty :: fs) c.remaining
      = follow reader (some (fs.length + 1 + most)) fs ((bracket style item).run.run c) := by
  cases hr with
  | first => exact run_bracket_first mirrors c
  | last => exact run_bracket_last mirrors c

theorem run_leafOr {inside : Move Term} (awaits : Awaits reader frames.head? c.peek?)
    (opening : c.peek? = some openBracket → reader.act frames.head? openBracket = .enter →
      run reader limit frames (openBracket :: c.passed.remaining)
        = follow reader limit frames (inside.run.run c.passed)) :
    run reader limit frames c.remaining
      = follow reader limit frames ((leafOr inside).run.run c) := by
  rw [leafOr, run_bind, run_advance]
  cases next : c.peek? with
  | none =>
    rw [next] at awaits
    rw [run_of_none next, awaits]
    rfl
  | some token =>
    rw [next] at awaits
    rw [remaining_of_peek? next]
    by_cases bracket : token = openBracket
    · subst bracket
      dsimp only
      rw [if_pos rfl]
      refine opening next ?_
      rw [awaits, operand, if_pos rfl]
    · simp only [if_neg bracket]
      cases known : Term.ofToken? token with
      | none =>
        have act : reader.act frames.head? token = .refuse := by
          rw [awaits, operand, if_neg bracket, known]
        rw [run, step, act, leaf, known]
        rfl
      | some t =>
        have act : reader.act frames.head? token = .supply t := by
          rw [awaits, operand, if_neg bracket, known]
        have stepped : step reader limit frames token c.passed.remaining
            = .ok (deliver t frames) := by
          rw [step, act]
        rw [run_of_step stepped, leaf, known]
        rfl

/-- Wherever a stack wants an element, it reads what the descent reads. -/
theorem mirrors_descent (hr : Reads reader style) (most : Nat) :
    Mirrors reader most (descent style most) := by
  -- By the depth that is left: a bracket costs one level here and one open frame there.
  induction most with
  | zero =>
    intro frames c awaits
    refine run_leafOr awaits fun _ enters => ?_
    have full : ¬ Limit.admits (some (frames.length + 0)) (frames.length + 1) = true := by
      simp [Limit.admits]
    rw [run, step, enters]
    simp only [if_neg full]
    rfl
  | succ most ih =>
    intro frames c awaits
    refine run_leafOr awaits fun _ enters => ?_
    have room : Limit.admits (some (frames.length + (most + 1))) (frames.length + 1) = true := by
      simp [Limit.admits]
    have stepped : step reader (some (frames.length + (most + 1))) frames openBracket
        c.passed.remaining = .ok (.more (.empty :: frames)) := by
      rw [step, enters]
      simp only [if_pos room]
    have same : frames.length + (most + 1) = frames.length + 1 + most := by omega
    rw [run_of_step stepped, same]
    exact run_bracket hr ih c.passed

end Formulae.Reading
