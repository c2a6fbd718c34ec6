import WideRow.Proofs.Java.Syntax
import WideRow.Row

/-!
# Running statements

What the statements of an adapter do. Components answer to the accessors of their properties and to
`getClass`, rows to `getValue`. Whatever has no meaning here gives no result: a name out of scope,
an operand of another kind, a position outside the row.

Main definitions:
* `Expression.eval`, `Statement.exec`;
* `runBody`: the statements of a text, in a scope.
-/

namespace WideRow.Java

open Json

/-! ## Data -/

/-- An object with accessors: its class and what they return. -/
structure Component where
  className : String
  properties : List (String × Value)

/-- What an expression gives. A cell of a row keeps the position that it was read at. -/
inductive Datum where
  | null
  | truth (b : Bool)
  | number (n : Nat)
  | text (content : String)
  | type (className : String)
  | value (v : Value)
  | cell (position : Nat) (v : Value)
  | component (c : Component)
  | row (r : Row)
  | made (className : String) (arguments : List Datum)

/-- What an accessor returns. -/
def Datum.ofValue (v : Value) : Datum := if v.isNull then .null else .value v

/-- What a row returns at a position. -/
def Datum.ofCell (position : Nat) (v : Value) : Datum :=
  if v.isNull then .null else .cell position v

/-- The datum is the null reference. -/
def Datum.isNull : Datum → Bool
  | .null => true
  | _ => false

/-- The names in scope. -/
abbrev Scope := List (String × Datum)

/-- A method call on a datum. -/
def Datum.invoke (method : String) : Datum → List Datum → Option Datum
  | .component c, [] =>
    match c.properties.lookup method with
    | some v => some (.ofValue v)
    | none => if method = "getClass" then some (.type c.className) else none
  | .type className, [] => if method = "getName" then some (.text className) else none
  | .row r, [.number k, .type _] =>
    if method = "getValue" then r.cells[k]?.map (Datum.ofCell k) else none
  | _, _ => none

/-! ## Expressions -/

mutual

/-- The value of an expression in a scope. A pattern variable must not be in scope yet. -/
def Expression.eval (scope : Scope) : Expression → Option Datum
  | .null => some .null
  | .truth b => some (.truth b)
  | .number n => some (.number n)
  | .text content => some (.text content)
  | .name x => scope.lookup x
  | .classLiteral className => some (.type className)
  | .call receiver method arguments => do
    let r ← receiver.eval scope
    let ds ← evalAll scope arguments
    r.invoke method ds
  | .create className arguments => do
    let ds ← evalAll scope arguments
    return .made className ds
  | .join left right => do
    match ← left.eval scope, ← right.eval scope with
    | .text s, .text t => some (.text (s ++ t))
    | _, _ => none
  | .differs left right => do
    match ← left.eval scope, ← right.eval scope with
    | d, .null => some (.truth !d.isNull)
    | _, _ => none
  | .both left right => do
    match ← left.eval scope with
    | .truth true =>
      match ← right.eval scope with
      | .truth b => some (.truth b)
      | _ => none
    | .truth false => some (.truth false)
    | _ => none
  | .isInstance subject className binding => do
    if (scope.lookup binding).isSome then none
    else
      match ← subject.eval scope with
      | .component c => some (.truth (c.className = className))
      | .null => some (.truth false)
      | _ => none
  | .choose subject cases otherwise => do
    match ← subject.eval scope with
    | .number k =>
      match evalCase scope k cases with
      | some d => d
      | none => otherwise.eval scope
    | _ => none

/-- The values of several expressions, one after the other. -/
def evalAll (scope : Scope) : List Expression → Option (List Datum)
  | [] => some []
  | e :: es => do
    let d ← e.eval scope
    let ds ← evalAll scope es
    return d :: ds

/-- The value of the case with a label, if there is one. -/
def evalCase (scope : Scope) (k : Nat) : List (Nat × Expression) → Option (Option Datum)
  | [] => none
  | (label, e) :: cases => if label = k then some (e.eval scope) else evalCase scope k cases

end

/-! ## Statements -/

/-- How a statement ends. -/
inductive Completion where
  | normal
  | returned (d : Datum)
  | thrown (className : String) (arguments : List Datum)

/-- The pattern variable that a test brings into scope where it holds. -/
def Expression.binding (scope : Scope) : Expression → Scope
  | .isInstance subject _ binding =>
    match subject.eval scope with
    | some d => [(binding, d)]
    | none => []
  | _ => []

mutual

/-- How a statement ends that is run in a scope. -/
def Statement.exec : Statement → Scope → Option Completion
  | .give e, scope => (e.eval scope).map .returned
  | .throw e, scope =>
    match e.eval scope with
    | some (.made className arguments) => some (.thrown className arguments)
    | _ => none
  | .conditional test body otherwise, scope =>
    match test.eval scope with
    | some (.truth true) => execAll body (test.binding scope ++ scope)
    | some (.truth false) => execAll otherwise scope
    | _ => none

/-- How statements end that are run one after the other. -/
def execAll : List Statement → Scope → Option Completion
  | [], _ => some .normal
  | s :: rest, scope =>
    match s.exec scope with
    | some .normal => execAll rest scope
    | completion => completion

end

/-- How the text of a body ends that is run in a scope. -/
def runBody (text : String) (scope : Scope) : Option Completion := do
  let body ← read text
  execAll body scope

/-- A switch takes the first case with the label. -/
theorem evalCase_map {β : Type} (scope : Scope) (k : Nat) (label : β → Nat) (e : β → Expression)
    (items : List β) :
    evalCase scope k (items.map fun b => (label b, e b)) =
      (items.find? fun b => label b == k).map fun b => (e b).eval scope := by
  induction items with
  | nil => rfl
  | cons b items ih =>
    rw [List.map_cons, evalCase, List.find?_cons]
    by_cases hlabel : label b = k
    · simp [hlabel]
    · rw [if_neg hlabel, ih, beq_eq_false_iff_ne.2 hlabel]

theorem execAll_singleton (s : Statement) (scope : Scope) : execAll [s] scope = s.exec scope := by
  rw [execAll]
  cases hs : s.exec scope with
  | none => rfl
  | some completion => cases completion <;> rfl

end WideRow.Java
