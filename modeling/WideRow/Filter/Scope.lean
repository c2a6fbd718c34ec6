import WideRow.Filter.Form
import WideRow.Filter.Language
import WideRow.Filter.Native

/-!
# Scope

Before a filter runs, every name in it must stand for something. A filter is known by its name and
its number of arguments, a variable and a label by their names. A definition knows itself.

Main definitions:
* `Term.unbound`: the names that stand for nothing, in their order.
-/

namespace WideRow.Filter

/-- What names stand for something. -/
structure Scope where
  filters : List (String × Nat)
  vars : List String
  labels : List String

namespace Scope

/-- A scope with a filter. -/
def withFilter (s : Scope) (name : String) (arity : Nat) : Scope :=
  { s with filters := (name, arity) :: s.filters }

/-- A scope with a parameter. -/
def withParameter (s : Scope) : Parameter → Scope
  | .filter name => s.withFilter name 0
  | .var name => { s with vars := name :: s.vars }

/-- The module that a name says it is from. -/
def moduleOf? (name : String) : Option String :=
  match name.splitOn "::" with
  | first :: _ :: _ => some first
  | _ => none

/-- A call stands for something. -/
def knows (s : Scope) (name : String) (arguments : List Term) : Bool :=
  s.filters.contains (name, arguments.length) || (Form.of? name arguments).isSome ||
    (Native.of? name arguments.length).isSome

/-- A call by itself, if it stands for nothing. -/
def unboundCall (s : Scope) (name : String) (arguments : List Term) : List Unbound :=
  match moduleOf? name with
  | some m => [.home m]
  | none => if s.knows name arguments then [] else [.filter name arguments.length]

/-- A variable, if it stands for nothing. -/
def unboundVar (s : Scope) (name : String) : List Unbound :=
  match moduleOf? name with
  | some m => [.home m]
  | none => if s.vars.contains name then [] else [.var name]

end Scope

mutual

/-- The variables that a pattern binds. -/
def Pattern.names : Pattern → List String
  | .var name => [name]
  | .array items => Pattern.namesOfItems items
  | .object entries => Pattern.namesOfEntries entries

/-- The variables that the patterns of an array bind. -/
def Pattern.namesOfItems : List Pattern → List String
  | [] => []
  | p :: rest => p.names ++ Pattern.namesOfItems rest

/-- The variables that the patterns of an object bind. -/
def Pattern.namesOfEntries : List (Term × Pattern) → List String
  | [] => []
  | (_, p) :: rest => p.names ++ Pattern.namesOfEntries rest

end

/-- A scope with the variables of a pattern. -/
def Scope.withPattern (s : Scope) (p : Pattern) : Scope :=
  { s with vars := p.names ++ s.vars }

mutual

/-- The names of a filter that stand for nothing. Most come as they are spelt. But the arguments of
a call come before the call, what a definition or a pattern is for before the definition or the
pattern, and the branches of a choice from the last to the first. A key without a value is looked at
twice: as the key and as the path to its value. -/
def Term.unbound (s : Scope) : Term → List Unbound
  | .input => []
  | .descend => []
  | .number _ => []
  | .text format parts =>
    (match format with
      | none => []
      | some name => s.unboundCall ("@" ++ name) []) ++ unboundOfParts s parts
  | .array body => unboundOfOption s body
  | .object entries => unboundOfEntries s entries
  | .negate t => t.unbound s
  | .pipe l r => l.unbound s ++ r.unbound s
  | .bindTo source p body => body.unbound (s.withPattern p) ++ source.unbound s ++ p.unbound s
  | .comma l r => l.unbound s ++ r.unbound s
  | .calculate _ l r => l.unbound s ++ r.unbound s
  | .compare _ l r => l.unbound s ++ r.unbound s
  | .conjunction l r => l.unbound s ++ r.unbound s
  | .disjunction l r => l.unbound s ++ r.unbound s
  | .otherwise l r => l.unbound s ++ r.unbound s
  | .assign _ l r => l.unbound s ++ r.unbound s
  | .reduce source p start step =>
    source.unbound s ++ start.unbound s ++ p.unbound s ++ step.unbound (s.withPattern p)
  | .foreach source p start step view =>
    source.unbound s ++ start.unbound s ++ p.unbound s ++ step.unbound (s.withPattern p) ++
      unboundOfOption (s.withPattern p) view
  | .attempt t handler => t.unbound s ++ unboundOfOption s handler
  | .choose branches last => unboundOfOption s last ++ unboundOfBranches s branches
  | .define name parameters body rest =>
    let s := s.withFilter name parameters.length
    rest.unbound s ++ body.unbound (parameters.foldl Scope.withParameter s)
  | .call name arguments => unboundOfArguments s arguments ++ s.unboundCall name arguments
  | .unknown name arity => [.filter name arity]
  | .var name => s.unboundVar name
  | .path t steps => t.unbound s ++ unboundOfSteps s steps
  | .label name body => body.unbound { s with labels := name :: s.labels }
  | .leave name => if s.labels.contains name then [] else [.label name]

/-- The names of the keys of a pattern that stand for nothing. -/
def Pattern.unbound (s : Scope) : Pattern → List Unbound
  | .var _ => []
  | .array items => unboundOfItems s items
  | .object entries => unboundOfKeys s entries

/-- The unbound names of the patterns of an array. -/
def unboundOfItems (s : Scope) : List Pattern → List Unbound
  | [] => []
  | p :: rest => p.unbound s ++ unboundOfItems s rest

/-- The unbound names of the keys and patterns of an object. -/
def unboundOfKeys (s : Scope) : List (Term × Pattern) → List Unbound
  | [] => []
  | (t, p) :: rest => t.unbound s ++ p.unbound s ++ unboundOfKeys s rest

/-- The unbound names of a term that may be missing. -/
def unboundOfOption (s : Scope) : Option Term → List Unbound
  | none => []
  | some t => t.unbound s

/-- The unbound names of the terms in a text. -/
def unboundOfParts (s : Scope) : List TextPart → List Unbound
  | [] => []
  | .piece _ :: rest => unboundOfParts s rest
  | .term t :: rest => t.unbound s ++ unboundOfParts s rest

/-- The unbound names of the entries of an object. -/
def unboundOfEntries (s : Scope) : List (Term × Option Term) → List Unbound
  | [] => []
  | (.var name, none) :: rest => s.unboundVar name ++ unboundOfEntries s rest
  | (key, none) :: rest => key.unbound s ++ key.unbound s ++ unboundOfEntries s rest
  | (key, some value) :: rest => key.unbound s ++ value.unbound s ++ unboundOfEntries s rest

/-- The unbound names of the branches of a choice, the last branch first. -/
def unboundOfBranches (s : Scope) : List (Term × Term) → List Unbound
  | [] => []
  | (condition, body) :: rest =>
    unboundOfBranches s rest ++ condition.unbound s ++ body.unbound s

/-- The unbound names of arguments. -/
def unboundOfArguments (s : Scope) : List Term → List Unbound
  | [] => []
  | t :: rest => t.unbound s ++ unboundOfArguments s rest

/-- The unbound names of steps. -/
def unboundOfSteps (s : Scope) : List (PathStep Term × Bool) → List Unbound
  | [] => []
  | (step, _) :: rest => step.unbound s ++ unboundOfSteps s rest

/-- The unbound names of a step. -/
def PathStep.unbound (s : Scope) : PathStep Term → List Unbound
  | .index t => t.unbound s
  | .slice start stop => unboundOfOption s start ++ unboundOfOption s stop
  | .elements => []

end

end WideRow.Filter
