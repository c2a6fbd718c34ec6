import WideRow.Filter.Datum
import WideRow.Filter.Token

/-!
# Terms of the filter language

The structure of filters. Operators bind, from the loosest to the tightest: `|` and `as`, `,`,
assignments, `//`, `or`, `and`, `==` and `!=`, the other comparisons, `+` and `-`, `*` and `/`, `%`.

Main definitions:
* `Term`: filters;
* `Term.combine`: the term of a chain of operators.
-/

namespace WideRow.Filter

/-! ## Structure -/

/-- A comparison of two data. -/
inductive Comparison where
  | eq
  | ne
  | lt
  | le
  | gt
  | ge
  deriving DecidableEq, Inhabited

/-- How the places that a filter points to are given new values. -/
inductive Assignment where
  /-- by the outputs of another filter on the same input -/
  | plain
  /-- by a filter on the old value -/
  | update
  /-- by an operation on the old value and an output of another filter -/
  | calculate (op : Datum.Operation)
  /-- by the outputs of another filter where the old value does not count as true -/
  | default
  deriving DecidableEq, Inhabited

/-- A step into a value. Its indices and bounds are terms where it is spelt and data where it is
taken. -/
inductive PathStep (α : Type) where
  | index (i : α)
  | slice (start stop : Option α)
  | elements
  deriving Inhabited

/-- A parameter of a definition. -/
inductive Parameter where
  /-- bound to the filter that is given -/
  | filter (name : String)
  /-- bound to each output of the filter that is given -/
  | var (name : String)
  deriving DecidableEq, Inhabited

mutual

/-- A filter. -/
inductive Term where
  | input
  | descend
  | number (text : String)
  | text (format : Option String) (parts : List TextPart)
  | array (body : Option Term)
  | object (entries : List (Term × Option Term))
  | negate (t : Term)
  | pipe (l r : Term)
  | bindTo (source : Term) (pattern : Pattern) (body : Term)
  | comma (l r : Term)
  | calculate (op : Datum.Operation) (l r : Term)
  | compare (c : Comparison) (l r : Term)
  | conjunction (l r : Term)
  | disjunction (l r : Term)
  | otherwise (l r : Term)
  | assign (a : Assignment) (l r : Term)
  | reduce (source : Term) (pattern : Pattern) (start step : Term)
  | foreach (source : Term) (pattern : Pattern) (start step : Term) (view : Option Term)
  | attempt (t : Term) (handler : Option Term)
  | choose (branches : List (Term × Term)) (last : Option Term)
  | define (name : String) (parameters : List Parameter) (body rest : Term)
  | call (name : String) (arguments : List Term)
  /-- a filter of the grammar with a number of arguments that it does not have -/
  | unknown (name : String) (arity : Nat)
  | var (name : String)
  | path (t : Term) (steps : List (PathStep Term × Bool))
  | label (name : String) (body : Term)
  | leave (name : String)

/-- A piece of a text with terms in it. -/
inductive TextPart where
  | piece (text : String)
  | term (t : Term)

/-- What a variable, or several, are bound to. -/
inductive Pattern where
  | var (name : String)
  | array (items : List Pattern)
  | object (entries : List (Term × Pattern))

end

instance : Inhabited Term := ⟨.input⟩

namespace Term

/-- A constant text. -/
def ofString (s : String) : Term := .text none [.piece s]

/-! ## Operators -/

/-- An operator between two terms. -/
inductive Operator where
  | pipe
  | bindTo (pattern : Pattern)
  | comma
  | assign (a : Assignment)
  | otherwise
  | disjunction
  | conjunction
  | compare (c : Comparison)
  | calculate (op : Datum.Operation)

/-- How tightly an operator binds. -/
def Operator.precedence : Operator → Nat
  | .pipe => 0
  | .bindTo _ => 0
  | .comma => 1
  | .assign _ => 2
  | .otherwise => 3
  | .disjunction => 4
  | .conjunction => 5
  | .compare .eq => 6
  | .compare .ne => 6
  | .compare _ => 7
  | .calculate .add => 8
  | .calculate .sub => 8
  | .calculate .mul => 9
  | .calculate .div => 9
  | .calculate .rem => 10

/-- Of several operators that bind alike, the last is the outermost one on the left. -/
def Operator.bindsRight : Operator → Bool
  | .pipe => true
  | .bindTo _ => true
  | .assign _ => true
  | .otherwise => true
  | _ => false

/-- The term of an operator and its two sides. -/
def Operator.term : Operator → Term → Term → Term
  | .pipe, l, r => .pipe l r
  | .bindTo p, l, r => .bindTo l p r
  | .comma, l, r => .comma l r
  | .assign a, l, r => .assign a l r
  | .otherwise, l, r => .otherwise l r
  | .disjunction, l, r => .disjunction l r
  | .conjunction, l, r => .conjunction l r
  | .compare c, l, r => .compare c l r
  | .calculate op, l, r => .calculate op l r

/-- The operator of a token, apart from those that bind variables. -/
def operator? : Token → Option Operator
  | .sign "|" => some .pipe
  | .sign "," => some .comma
  | .sign "=" => some (.assign .plain)
  | .sign "|=" => some (.assign .update)
  | .sign "+=" => some (.assign (.calculate .add))
  | .sign "-=" => some (.assign (.calculate .sub))
  | .sign "*=" => some (.assign (.calculate .mul))
  | .sign "/=" => some (.assign (.calculate .div))
  | .sign "%=" => some (.assign (.calculate .rem))
  | .sign "//=" => some (.assign .default)
  | .sign "//" => some .otherwise
  | .word "or" => some .disjunction
  | .word "and" => some .conjunction
  | .sign "==" => some (.compare .eq)
  | .sign "!=" => some (.compare .ne)
  | .sign "<" => some (.compare .lt)
  | .sign "<=" => some (.compare .le)
  | .sign ">" => some (.compare .gt)
  | .sign ">=" => some (.compare .ge)
  | .sign "+" => some (.calculate .add)
  | .sign "-" => some (.calculate .sub)
  | .sign "*" => some (.calculate .mul)
  | .sign "/" => some (.calculate .div)
  | .sign "%" => some (.calculate .rem)
  | _ => none

mutual

/-- A term grown by the operators that follow it and bind at least as tightly as a bound, with the
operators that are left. -/
def climb (fuel least : Nat) (l : Term) (rest : List (Operator × Term)) :
    Term × List (Operator × Term) :=
  match fuel, rest with
  | fuel + 1, (op, r) :: rest =>
    if op.precedence < least then (l, (op, r) :: rest)
    else
      let (r, rest) := grow fuel op r rest
      climb fuel least (op.term l r) rest
  | _, rest => (l, rest)

/-- The right side of an operator: the term after it, grown by the operators that bind more
tightly, or as tightly if the operator binds to the right. -/
def grow (fuel : Nat) (op : Operator) (r : Term) (rest : List (Operator × Term)) :
    Term × List (Operator × Term) :=
  match fuel, rest with
  | fuel + 1, (next, _) :: _ =>
    if op.precedence < next.precedence then
      let (r, rest) := climb fuel next.precedence r rest
      grow fuel op r rest
    else if next.precedence = op.precedence ∧ next.bindsRight then
      climb fuel op.precedence r rest
    else (r, rest)
  | _, rest => (r, rest)

end

/-- The term of a first term and the operators that follow it. -/
def combine (head : Term) (tail : List (Operator × Term)) : Term :=
  (climb (2 * tail.length + 2) 0 head tail).1

end Term

end WideRow.Filter
