import Formulae.Term.Build
/-!
Construction of a node from an operator and its operands. It succeeds just for the code of an
operator, over terms alone, in a count that the operator accepts; else it reports the first of the
three that fails.
-/
namespace Formulae

/-! ## Values that name operators -/

theorem Foreign.same_integer (v : Foreign) (n : Int) :
    v.same (.integer n) = true ↔ v.integer? = some n := by
  have whole : v.same (.integer n) = (v.integer?.isSome && v.integer? = some n) := by
    cases v <;> rfl
  rw [whole, Bool.and_eq_true, decide_eq_true_iff]
  exact and_iff_right_of_imp fun h => h ▸ rfl

/-- An operator is named by every value that equals its code, such as a boolean. -/
def Operand.Names (a : Operand) (op : Op) : Prop :=
  ∃ v, a = .foreign v ∧ v.same (.integer op.code) = true

theorem Operand.op?_eq_some_iff {a : Operand} {op : Op} : a.op? = some op ↔ a.Names op := by
  cases a with
  | term t => simp [op?, Names]
  | foreign v =>
    simp [op?, Names, Option.bind_eq_some_iff, Op.ofCode?_eq_some_iff, Foreign.same_integer]

theorem Operand.names_code (op : Op) : Names (.foreign (.integer op.code)) op :=
  ⟨_, rfl, (Foreign.same_integer _ _).mpr rfl⟩

/-! ## Faults -/

inductive TypeNamed : Foreign → String → Prop
  | null : TypeNamed .null "NoneType"
  | bool (b : Bool) : TypeNamed (.bool b) "bool"
  | integer (n : Int) : TypeNamed (.integer n) "int"
  | real (v : Double) : TypeNamed (.real v) "float"
  | text (s : String) : TypeNamed (.text s) "str"
  | list (items : List Foreign) : TypeNamed (.list items) "list"
  | record (fields : List (String × Foreign)) : TypeNamed (.record fields) "dict"

theorem typeNamed_iff {v : Foreign} {name : String} : TypeNamed v name ↔ v.typeName = name := by
  constructor
  · rintro (_ | _) <;> rfl
  · rintro rfl
    cases v <;> constructor

/-- The first of three faults in an operator and its operands, with what is said of it. -/
inductive Fails (a : Operand) (operands : List Operand) : Refusal → String → Prop
  | noOperator (unknown : ∀ op, ¬ a.Names op) :
      Fails a operands (.noSuchOperator a.construction) (a.construction ++ " is not a valid OpType")
  | noTerm {op : Op} {before : List Term} {v : Foreign} {after : List Operand} {name : String}
      (known : a.Names op) (first : operands = before.map .term ++ .foreign v :: after)
      (named : TypeNamed v name) :
      Fails a operands (.operandNotTerm name) ("Operands must be nodes, got " ++ name)
  | wrongCount {op : Op} {args : List Term} {n : Nat} (known : a.Names op)
      (terms : operands = args.map .term) (arity : op.arity = some n) (differs : args.length ≠ n) :
      Fails a operands (.operandCount op args.length)
        ("'" ++ op.symbol ++ s!"' takes {n} operands, got {args.length}")

theorem Op.accepts_eq_false_iff {op : Op} {count : Nat} :
    op.accepts count = false ↔ ∃ n, op.arity = some n ∧ count ≠ n := by
  cases arity : op.arity <;> simp [accepts, arity]

theorem Fails.message_eq {a : Operand} {operands : List Operand} {e : Refusal} {text : String}
    (fails : Fails a operands e text) : e.message = text := by
  cases fails with
  | noOperator | noTerm => rfl
  | @wrongCount op args n known terms arity differs =>
    have shown : toString op.arityCode = toString n := by
      rw [Op.arityCode, arity]
      rfl
    dsimp only [Refusal.message]
    rw [shown]

namespace Term

variable {a : Operand} {op : Op} {args : List Term} {operands : List Operand}

theorem termsOf_terms (args : List Term) : termsOf (args.map .term) = .ok args := by
  induction args with
  | nil => rfl
  | cons t args ih => rw [List.map_cons, termsOf, ih]

theorem termsOf_foreign (before : List Term) (v : Foreign) (after : List Operand) :
    termsOf (before.map .term ++ .foreign v :: after) = .error (.operandNotTerm v.typeName) := by
  induction before with
  | nil => rfl
  | cons t before ih => rw [List.map_cons, List.cons_append, termsOf, ih]

theorem operands_cases (operands : List Operand) :
    (∃ args : List Term, operands = args.map .term)
      ∨ ∃ (before : List Term) (v : Foreign) (after : List Operand),
        operands = before.map .term ++ .foreign v :: after := by
  induction operands with
  | nil => exact Or.inl ⟨[], rfl⟩
  | cons a operands ih =>
    cases a with
    | foreign v => exact Or.inr ⟨[], v, operands, rfl⟩
    | term t =>
      rcases ih with ⟨args, rfl⟩ | ⟨before, v, after, rfl⟩
      · exact Or.inl ⟨t :: args, rfl⟩
      · exact Or.inr ⟨t :: before, v, after, rfl⟩

theorem apply_unknown (unknown : ∀ op, ¬ a.Names op) (operands : List Operand) :
    apply a operands = .error (.noSuchOperator a.construction) := by
  have none_ : a.op? = none :=
    Option.eq_none_iff_forall_ne_some.mpr fun op h => unknown op (Operand.op?_eq_some_iff.mp h)
  simp only [apply, Operand.resolve, none_]

theorem apply_terms (known : a.Names op) (args : List Term) :
    apply a (args.map .term)
      = if op.accepts args.length then .ok (app op args)
        else .error (.operandCount op args.length) := by
  have known := Operand.op?_eq_some_iff.mpr known
  simp only [apply, Operand.resolve, known, termsOf_terms]

theorem apply_foreign (known : a.Names op) (before : List Term) (v : Foreign)
    (after : List Operand) :
    apply a (before.map .term ++ .foreign v :: after) = .error (.operandNotTerm v.typeName) := by
  have known := Operand.op?_eq_some_iff.mpr known
  simp only [apply, Operand.resolve, known, termsOf_foreign]

/-- An operator and its operands make a node, or have a first fault. -/
theorem apply_cases (a : Operand) (operands : List Operand) :
    (∃ op args, a.Names op ∧ operands = List.map .term args ∧ op.accepts args.length = true
        ∧ apply a operands = .ok (app op args))
      ∨ ∃ e text, Fails a operands e text ∧ apply a operands = .error e := by
  by_cases known : ∃ op, a.Names op
  · obtain ⟨op, known⟩ := known
    rcases operands_cases operands with ⟨args, rfl⟩ | ⟨before, v, after, rfl⟩
    · cases count : op.accepts args.length with
      | true =>
        exact Or.inl ⟨op, args, known, rfl, count, by rw [apply_terms known, if_pos count]⟩
      | false =>
        obtain ⟨n, arity, differs⟩ := Op.accepts_eq_false_iff.mp count
        refine Or.inr ⟨_, _, .wrongCount known rfl arity differs, ?_⟩
        rw [apply_terms known, count, if_neg nofun]
    · exact Or.inr ⟨_, _, .noTerm known rfl (typeNamed_iff.mpr rfl), apply_foreign known ..⟩
  · have unknown := not_exists.mp known
    exact Or.inr ⟨_, _, .noOperator unknown, apply_unknown unknown operands⟩

theorem apply_of_fails {e : Refusal} {text : String} (fails : Fails a operands e text) :
    apply a operands = .error e := by
  cases fails with
  | noOperator unknown => exact apply_unknown unknown operands
  | noTerm known first named => rw [first, apply_foreign known, typeNamed_iff.mp named]
  | wrongCount known terms arity differs =>
    have count := Op.accepts_eq_false_iff.mpr ⟨_, arity, differs⟩
    rw [terms, apply_terms known, count, if_neg nofun]

theorem apply_ok_iff {t : Term} :
    apply a operands = .ok t ↔ ∃ op args, a.Names op ∧ operands = List.map .term args
      ∧ op.accepts args.length = true ∧ t = app op args := by
  constructor
  · intro made
    obtain ⟨op, args, known, terms, count, same⟩ | ⟨e, -, -, failed⟩ := apply_cases a operands
    · exact ⟨op, args, known, terms, count, Except.ok.inj (made.symm.trans same)⟩
    · exact nomatch made.symm.trans failed
  · rintro ⟨op, args, known, rfl, count, rfl⟩
    rw [apply_terms known, if_pos count]

theorem apply_error_iff {e : Refusal} :
    apply a operands = .error e ↔ Fails a operands e e.message := by
  constructor
  · intro failed
    obtain ⟨op, args, -, -, -, made⟩ | ⟨e', text, fails, same⟩ := apply_cases a operands
    · exact nomatch failed.symm.trans made
    · obtain rfl : e = e' := Except.error.inj (failed.symm.trans same)
      exact fails.message_eq ▸ fails
  · exact apply_of_fails

-- a boolean equals a code, the token of an operator does not
example : apply (.foreign (.bool true)) [.term (.var .x), .term (.var .y)]
    = .ok (.app .sub [.var .x, .var .y]) := by rfl

example (operands : List Operand) :
    ∃ shown, apply (.foreign (.text "+")) operands = .error (.noSuchOperator shown) := ⟨_, rfl⟩

def construct (op : Op) (args : List Term) : Except Refusal Term :=
  apply (.foreign (.integer op.code)) (args.map .term)

theorem construct_eq (count : op.accepts args.length = true) :
    construct op args = .ok (app op args) :=
  apply_ok_iff.mpr ⟨op, args, Operand.names_code op, rfl, count, rfl⟩

end Term

end Formulae
