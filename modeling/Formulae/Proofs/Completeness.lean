import Formulae.Proofs.Grammar
/-!
The readers of the bracketed styles accept what the grammar derives. Where a bracket has room for an
operand, the tokens of a term are taken one by one and nothing is left of them but that operand,
whatever tokens follow.
-/
namespace Formulae.Reading

open Token

inductive Reads : Reader → Style → Prop
  | first : Reads operatorFirst .operatorFirst
  | last : Reads operatorLast .operatorLast

variable {reader : Reader} {style : Style} {limit : Limit}

theorem Reads.bracketed (h : Reads reader style) : style ≠ .bare := by
  cases h <;> exact nofun

/-- An open bracket that takes that many more operands. -/
def Frame.Takes (count : Nat) : Style → Frame → Prop
  | .operatorFirst, ⟨some op, operands⟩ => ∀ n, op.arity = some n → operands.length + count ≤ n
  | .operatorLast, ⟨none, _⟩ => True
  | _, _ => False

theorem Frame.Takes.first {count : Nat} {f : Frame} (h : f.Takes (count + 1) style) :
    f.Takes 1 style := by
  obtain ⟨op?, operands⟩ := f
  cases style with
  | bare => exact h
  | operatorFirst =>
    cases op? with
    | none => exact h
    | some op => exact fun n hn => Nat.le_trans (by omega) (h n hn)
  | operatorLast => cases op? <;> exact h

theorem Frame.Takes.add {count : Nat} {f : Frame} (t : Term) (h : f.Takes (count + 1) style) :
    (f.add t).Takes count style := by
  obtain ⟨op?, operands⟩ := f
  cases style with
  | bare => exact h
  | operatorFirst =>
    cases op? with
    | none => exact h
    | some op =>
      intro n hn
      have room := h n hn
      simp only [List.length_cons]
      omega
  | operatorLast => cases op? <;> exact h

def Ready (style : Style) (frames : List Frame) : Prop := ∀ f ∈ frames.head?, f.Takes 1 style

theorem ready_cons {f : Frame} {fs : List Frame} : Ready style (f :: fs) ↔ f.Takes 1 style := by
  simp [Ready]

theorem ofToken?_symbol (op : Op) : Term.ofToken? op.symbol = none := by
  have listed : ∀ op ∈ Op.all, Term.ofToken? op.symbol = none := by decide +kernel
  exact listed op (Op.mem_all op)

theorem ofToken?_closeBracket : Term.ofToken? closeBracket = none := by decide +kernel

theorem ofToken?_number {token : String} {c : Double} (h : Decimal.read? token = some c) :
    Term.ofToken? token = some (.const c) := by
  cases hv : Variable.ofName? token with
  | none => rw [Term.ofToken?, hv, h]; rfl
  | some v =>
    rw [← Variable.name_of_ofName? hv, read?_name v] at h
    cases h

def Starts (token : String) : Prop := token = openBracket ∨ ∃ t, Term.ofToken? token = some t

theorem Starts.ne_closeBracket {token : String} (h : Starts token) : token ≠ closeBracket := by
  rintro rfl
  rcases h with h | ⟨t, ht⟩
  · exact absurd h (by decide)
  · exact nomatch ofToken?_closeBracket.symm.trans ht

theorem Starts.ofSymbol? {token : String} (h : Starts token) : Op.ofSymbol? token = none := by
  cases hs : Op.ofSymbol? token with
  | none => rfl
  | some op =>
    have symbol := Op.symbol_of_ofSymbol? hs
    rcases h with rfl | ⟨t, ht⟩
    · exact absurd symbol (flat_symbol op).1
    · rw [← symbol, ofToken?_symbol] at ht
      cases ht

theorem act_eq_operand (hr : Reads reader style) {frames : List Frame}
    (ready : Ready style frames) {token : String} (hs : Starts token) :
    reader.act frames.head? token = operand token := by
  cases frames with
  | nil => cases hr <;> rfl
  | cons f fs =>
    have room := ready_cons.mp ready
    obtain ⟨op?, operands⟩ := f
    cases hr with
    | first =>
      cases op? with
      | none => exact absurd room id
      | some op =>
        simp only [operatorFirst, List.head?_cons, actFirst]
        split
        · rw [if_neg hs.ne_closeBracket]
        · rename_i n arity
          exact if_pos (room n arity)
    | last =>
      cases op? with
      | none => simp only [operatorLast, List.head?_cons, actLast, hs.ofSymbol?]
      | some op => exact absurd room id

def resume (reader : Reader) (limit : Limit) :
    Outcome → List String → Except ParseError (Term × List String)
  | .done t, rest => .ok (t, rest)
  | .more frames, rest => run reader limit frames rest

theorem run_of_step {frames : List Frame} {token : String} {rest : List String} {o : Outcome}
    (h : step reader limit frames token rest = .ok o) :
    run reader limit frames (token :: rest) = resume reader limit o rest := by
  rw [run, h]
  cases o <;> rfl

theorem Limit.admits_of_le {m n : Nat} (h : limit.admits n = true) (hm : m ≤ n) :
    limit.admits m = true := by
  cases limit with
  | none => rfl
  | some most => exact decide_eq_true (Nat.le_trans hm (of_decide_eq_true h))

/-- Tokens that a reader takes for an operand wherever one may come next. -/
def Consumed (reader : Reader) (limit : Limit) (style : Style) (tokens : List String)
    (t : Term) : Prop :=
  ∀ frames rest, Ready style frames → limit.admits (frames.length + t.nesting) = true →
    run reader limit frames (tokens ++ rest) = resume reader limit (deliver t frames) rest

theorem consumed_leaf (hr : Reads reader style) {token : String} {t : Term}
    (flat : token ≠ openBracket) (leaf : Term.ofToken? token = some t) :
    Consumed reader limit style [token] t := by
  intro frames rest ready _
  have act : reader.act frames.head? token = .supply t := by
    rw [act_eq_operand hr ready (Or.inr ⟨t, leaf⟩), operand, if_neg flat, leaf]
  exact run_of_step (by rw [step, act])

theorem run_operands {fs : List Frame} {parts : List (List String)} {args : List Term}
    (h : List.Forall₂ (Consumed reader limit style) parts args)
    (fits : ∀ a ∈ args, limit.admits (fs.length + 1 + a.nesting) = true) (op? : Option Op)
    (operands : List Term) (room : Frame.Takes args.length style ⟨op?, operands⟩)
    (rest : List String) :
    run reader limit (⟨op?, operands⟩ :: fs) (parts.flatten ++ rest)
      = run reader limit (⟨op?, args.reverse ++ operands⟩ :: fs) rest := by
  induction h generalizing operands with
  | nil => rfl
  | @cons u a parts args first _ ih =>
    have taken := first (⟨op?, operands⟩ :: fs) (parts.flatten ++ rest)
      (ready_cons.mpr room.first) (fits a List.mem_cons_self)
    rw [List.flatten_cons, List.append_assoc, taken]
    have others := ih (fun b hb => fits b (List.mem_cons_of_mem a hb)) (a :: operands) (room.add a)
    rw [List.reverse_cons, List.append_assoc]
    exact others

theorem run_openBracket (hr : Reads reader style) {frames : List Frame}
    (ready : Ready style frames) (fits : limit.admits (frames.length + 1) = true)
    (rest : List String) :
    run reader limit frames (openBracket :: rest) = run reader limit (.empty :: frames) rest := by
  have act : reader.act frames.head? openBracket = .enter := by
    rw [act_eq_operand hr ready (Or.inl rfl), operand, if_pos rfl]
  exact run_of_step (o := .more (.empty :: frames)) (by rw [step, act]; exact if_pos fits)

theorem run_symbol_first {fs : List Frame} (op : Op) (rest : List String) :
    run operatorFirst limit (.empty :: fs) (op.symbol :: rest)
      = run operatorFirst limit (⟨some op, []⟩ :: fs) rest := by
  have act : operatorFirst.act (List.head? (.empty :: fs)) op.symbol = .choose op := by
    simp only [operatorFirst, List.head?_cons, Frame.empty, actFirst, Op.ofSymbol?_symbol]
  exact run_of_step (o := .more (⟨some op, []⟩ :: fs)) (by rw [step, act]; rfl)

theorem run_symbol_last {fs : List Frame} {op : Op} {operands : List Term}
    (count : op.accepts operands.length = true) (rest : List String) :
    run operatorLast limit (⟨none, operands⟩ :: fs) (op.symbol :: rest)
      = run operatorLast limit (⟨some op, operands⟩ :: fs) rest := by
  have act : operatorLast.act (List.head? (⟨none, operands⟩ :: fs)) op.symbol = .choose op := by
    simp only [operatorLast, List.head?_cons, actLast, Op.ofSymbol?_symbol]
    split
    · rfl
    · rename_i n arity
      simp only [Op.accepts, arity, decide_eq_true_eq] at count
      exact if_pos count
  exact run_of_step (o := .more (⟨some op, operands⟩ :: fs)) (by rw [step, act])

theorem run_closeBracket (hr : Reads reader style) {fs : List Frame} {op : Op}
    {operands : List Term} (count : op.accepts operands.length = true) (rest : List String) :
    run reader limit (⟨some op, operands⟩ :: fs) (closeBracket :: rest)
      = resume reader limit (deliver (.app op operands.reverse) fs) rest := by
  have act : reader.act (List.head? (⟨some op, operands⟩ :: fs)) closeBracket = .close op := by
    cases hr with
    | last => simp only [operatorLast, List.head?_cons, actLast, closeOnly, if_pos]
    | first =>
      simp only [operatorFirst, List.head?_cons, actFirst]
      split
      · exact if_pos trivial
      · rename_i n arity
        simp only [Op.accepts, arity, decide_eq_true_eq] at count
        rw [if_neg (by omega), closeOnly, if_pos rfl]
  exact run_of_step (by rw [step, act])

theorem consumed_app (hr : Reads reader style) {op : Op} {parts : List (List String)}
    {args : List Term} (count : op.accepts args.length = true)
    (h : List.Forall₂ (Consumed reader limit style) parts args) :
    Consumed reader limit style (style.arrange op.symbol parts.flatten) (.app op args) := by
  intro frames rest ready fits
  have inner : ∀ a ∈ args, limit.admits (frames.length + 1 + a.nesting) = true := by
    intro a ha
    have deeper := Term.nesting_lt_of_mem op ha
    exact Limit.admits_of_le fits (by omega)
  have full : op.accepts args.reverse.length = true := by rw [List.length_reverse, count]
  have opened : limit.admits (frames.length + 1) = true :=
    Limit.admits_of_le fits (by rw [Term.nesting_app]; omega)
  -- With the operator first the frame knows the arity and has to leave room for each operand; with
  -- the operator last it takes any number of them, and the count is looked at with the symbol.
  cases hr with
  | first =>
    have room : Frame.Takes args.length .operatorFirst ⟨some op, []⟩ := by
      intro n arity
      simp only [Op.accepts, arity, decide_eq_true_eq] at count
      simp [count]
    rw [Style.arrange, List.cons_append, run_openBracket .first ready opened, List.cons_append,
      run_symbol_first, List.append_assoc, run_operands h inner (some op) [] room,
      List.append_nil, List.singleton_append, run_closeBracket .first full, List.reverse_reverse]
  | last =>
    rw [Style.arrange, List.cons_append, run_openBracket .last ready opened, List.append_assoc,
      Frame.empty, run_operands h inner none [] trivial, List.append_nil, List.cons_append,
      run_symbol_last full, List.singleton_append, run_closeBracket .last full,
      List.reverse_reverse]

/-- Whatever derives a term is taken for that term. -/
theorem consumed_of_derives (hr : Reads reader style) (limit : Limit) {tokens : List String}
    {t : Term} (h : Derives style tokens t) : Consumed reader limit style tokens t :=
  h.ind (motive := Consumed reader limit style)
    (fun v => consumed_leaf hr (flat_name v).1 (Term.ofToken?_name v))
    (fun number => consumed_leaf hr (flat_of_number number).1 (ofToken?_number number))
    (fun count _ operands => consumed_app hr count operands)

theorem element_of_derives (hr : Reads reader style) (limit : Limit) {tokens : List String}
    {t : Term} (h : Derives style tokens t) (fits : limit.admits t.nesting = true)
    (rest : List String) :
    element reader limit (tokens ++ rest) = .ok (t, rest) :=
  consumed_of_derives hr limit h [] rest nofun (by simpa using fits)

theorem document_of_derives (hr : Reads reader style) (limit : Limit) {tokens : List String}
    {t : Term} (h : Derives style tokens t) (fits : limit.admits t.nesting = true) :
    document reader limit tokens = .ok t := by
  have read := element_of_derives hr limit h fits []
  rw [List.append_nil] at read
  rw [document, read]

/-! ## One reading only -/

/-- No tokens of a term go on to be the tokens of another one. -/
theorem prefix_unique (hr : Reads reader style) {u u' r r' : List String} {t t' : Term}
    (h : Derives style u t) (h' : Derives style u' t') (same : u ++ r = u' ++ r') :
    u = u' ∧ t = t' := by
  have read := element_of_derives hr none h rfl r
  rw [same, element_of_derives hr none h' rfl r'] at read
  obtain ⟨rfl, rfl⟩ := Prod.mk.inj (Except.ok.inj read)
  exact ⟨List.append_cancel_right same, rfl⟩

theorem operands_unique (hr : Reads reader style) {parts parts' : List (List String)}
    {args args' : List Term} (h : List.Forall₂ (Derives style) parts args)
    (h' : List.Forall₂ (Derives style) parts' args')
    (same : parts.flatten = parts'.flatten) : parts = parts' ∧ args = args' := by
  induction h generalizing parts' args' with
  | nil =>
    cases h' with
    | nil => exact ⟨rfl, rfl⟩
    | cons d' _ => exact absurd (List.append_eq_nil_iff.mp same.symm).1 d'.ne_nil
  | cons d _ ih =>
    cases h' with
    | nil => exact absurd (List.append_eq_nil_iff.mp same).1 d.ne_nil
    | cons d' ds' =>
      rw [List.flatten_cons, List.flatten_cons] at same
      obtain ⟨rfl, rfl⟩ := prefix_unique hr d d' same
      obtain ⟨rfl, rfl⟩ := ih ds' (List.append_cancel_left same)
      exact ⟨rfl, rfl⟩

end Formulae.Reading
