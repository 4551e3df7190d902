import Formulae.Double
import Formulae.Operator
import Formulae.Variable
/-!
Terms: variables, constants, and operators over any list of operands. `fold` combines the results
of the operands from the leaves up, and `fold?` does so where a combination may fail. A term is
well formed when every operator in it has a count of operands that it accepts.
-/
namespace Formulae

universe u

inductive Term
  | var (v : Variable)
  | const (c : Double)
  | app (op : Op) (args : List Term)

namespace Term

variable {α : Type u}

mutual

def fold (onVar : Variable → α) (onConst : Double → α) (onApp : Op → List α → α) : Term → α
  | var v => onVar v
  | const c => onConst c
  | app op args => onApp op (foldAll onVar onConst onApp args)

def foldAll (onVar : Variable → α) (onConst : Double → α) (onApp : Op → List α → α) :
    List Term → List α
  | [] => []
  | t :: ts => fold onVar onConst onApp t :: foldAll onVar onConst onApp ts

end

mutual

def fold? (onVar : Variable → α) (onConst : Double → α) (onApp : Op → List α → Option α) :
    Term → Option α
  | var v => some (onVar v)
  | const c => some (onConst c)
  | app op args => (foldAll? onVar onConst onApp args).bind (onApp op)

def foldAll? (onVar : Variable → α) (onConst : Double → α) (onApp : Op → List α → Option α) :
    List Term → Option (List α)
  | [] => some []
  | t :: ts =>
    (fold? onVar onConst onApp t).bind fun a =>
      (foldAll? onVar onConst onApp ts).map (a :: ·)

end

theorem foldAll_eq_map (onVar : Variable → α) (onConst : Double → α) (onApp : Op → List α → α)
    (ts : List Term) : foldAll onVar onConst onApp ts = ts.map (fold onVar onConst onApp) := by
  induction ts with
  | nil => rfl
  | cons t ts ih => simp [foldAll, ih]

theorem fold_app (onVar : Variable → α) (onConst : Double → α) (onApp : Op → List α → α)
    (op : Op) (args : List Term) :
    fold onVar onConst onApp (app op args) = onApp op (args.map (fold onVar onConst onApp)) := by
  rw [fold, foldAll_eq_map]

theorem foldAll?_eq_mapM (onVar : Variable → α) (onConst : Double → α)
    (onApp : Op → List α → Option α) (ts : List Term) :
    foldAll? onVar onConst onApp ts = ts.mapM (fold? onVar onConst onApp) := by
  induction ts with
  | nil => rfl
  | cons t ts ih =>
    simp only [foldAll?, ih, List.mapM_cons]
    cases fold? onVar onConst onApp t with
    | none => rfl
    | some a => cases ts.mapM (fold? onVar onConst onApp) <;> rfl

theorem fold?_app (onVar : Variable → α) (onConst : Double → α) (onApp : Op → List α → Option α)
    (op : Op) (args : List Term) :
    fold? onVar onConst onApp (app op args)
      = (args.mapM (fold? onVar onConst onApp)).bind (onApp op) := by
  rw [fold?, foldAll?_eq_mapM]

mutual

theorem ind {motive : Term → Prop} (var : ∀ v, motive (var v)) (const : ∀ c, motive (const c))
    (app : ∀ op args, (∀ a ∈ args, motive a) → motive (app op args)) : ∀ t, motive t
  | .var v => var v
  | .const c => const c
  | .app op args => app op args (indAll var const app args)

theorem indAll {motive : Term → Prop} (var : ∀ v, motive (.var v)) (const : ∀ c, motive (.const c))
    (app : ∀ op args, (∀ a ∈ args, motive a) → motive (.app op args)) :
    ∀ ts : List Term, ∀ t ∈ ts, motive t
  | [], _, h => nomatch h
  | t :: ts, s, h =>
    (List.mem_cons.mp h).elim (fun e => e ▸ ind var const app t)
      (fun h => indAll var const app ts s h)

end

mutual

def decEq : (a b : Term) → Decidable (a = b)
  | var v, var w =>
    if h : v = w then isTrue (h ▸ rfl) else isFalse fun e => h (Term.var.inj e)
  | const c, const d =>
    if h : c = d then isTrue (h ▸ rfl) else isFalse fun e => h (Term.const.inj e)
  | app op as, app oq bs =>
    if h : op = oq then
      match decEqAll as bs with
      | isTrue g => isTrue (h ▸ g ▸ rfl)
      | isFalse g => isFalse fun e => g (Term.app.inj e).2
    else isFalse fun e => h (Term.app.inj e).1
  | var _, const _ => isFalse nofun
  | var _, app _ _ => isFalse nofun
  | const _, var _ => isFalse nofun
  | const _, app _ _ => isFalse nofun
  | app _ _, var _ => isFalse nofun
  | app _ _, const _ => isFalse nofun

def decEqAll : (as bs : List Term) → Decidable (as = bs)
  | [], [] => isTrue rfl
  | a :: as, b :: bs =>
    match decEq a b, decEqAll as bs with
    | isTrue g, isTrue h => isTrue (g ▸ h ▸ rfl)
    | isFalse g, _ => isFalse fun e => g (List.cons.inj e).1
    | _, isFalse h => isFalse fun e => h (List.cons.inj e).2
  | [], _ :: _ => isFalse nofun
  | _ :: _, [] => isFalse nofun

end

instance : DecidableEq Term := decEq

inductive Kind
  | variableNode | constantNode | operatorNode
deriving DecidableEq

namespace Kind

def all : List Kind := [variableNode, constantNode, operatorNode]

def name : Kind → String
  | variableNode => "VARIABLE"
  | constantNode => "CONSTANT"
  | operatorNode => "OPERATOR"

def nodeName : Kind → String
  | variableNode => "VariableNode"
  | constantNode => "ConstantNode"
  | operatorNode => "OperatorNode"

def code : Kind → Nat
  | variableNode => 0
  | constantNode => 1
  | operatorNode => 2

end Kind

def kind : Term → Kind
  | var _ => .variableNode
  | const _ => .constantNode
  | app _ _ => .operatorNode

def children : Term → List Term
  | app _ args => args
  | _ => []

inductive WellFormed : Term → Prop
  | var (v : Variable) : WellFormed (var v)
  | const (c : Double) : WellFormed (const c)
  | app {op : Op} {args : List Term} (count : op.accepts args.length = true)
      (operands : ∀ a ∈ args, WellFormed a) : WellFormed (app op args)

theorem wellFormed_app {op : Op} {args : List Term} :
    WellFormed (app op args) ↔ op.accepts args.length = true ∧ ∀ a ∈ args, WellFormed a :=
  ⟨fun | .app count operands => ⟨count, operands⟩, fun h => .app h.1 h.2⟩

def isWellFormed : Term → Bool :=
  fold (fun _ => true) (fun _ => true) fun op oks => op.accepts oks.length && oks.all id

theorem isWellFormed_iff {t : Term} : t.isWellFormed = true ↔ t.WellFormed := by
  induction t using ind with
  | var v => exact ⟨fun _ => .var v, fun _ => rfl⟩
  | const c => exact ⟨fun _ => .const c, fun _ => rfl⟩
  | app op args ih =>
    rw [isWellFormed, fold_app, wellFormed_app]
    simp only [Bool.and_eq_true, List.length_map, List.all_map, List.all_eq_true,
      Function.comp_apply, id_eq]
    exact and_congr_right' (forall₂_congr ih)

instance : DecidablePred WellFormed := fun _ => decidable_of_iff _ isWellFormed_iff

end Term

end Formulae
