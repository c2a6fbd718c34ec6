import WideRow.Filter.Outputs
import WideRow.Json.Decoding

/-!
# Languages of filters

A filter takes a JSON value and gives JSON values. How it is spelt, which names it may use and what
it gives is up to a language, which is not fixed here. Its outputs come one after the other, each as
a text that is read again as JSON, and the first one that is an error or no JSON ends the run.

Main definitions:
* `Language`: a language of filters;
* `Language.run`: all values that a filter gives, or why there are none.
-/

namespace WideRow.Filter

/-! ## Faults -/

/-- A name that stands for nothing. -/
inductive Unbound where
  | filter (name : String) (arity : Nat)
  | var (name : String)
  | label (name : String)
  /-- the module that a name is from -/
  | home (name : String)
  deriving DecidableEq, Inhabited

/-- The line about an unbound name in a filter. -/
def Unbound.message (filter : String) : Unbound → String
  | .filter name arity =>
    "undefined `" ++ name ++ "`: Filter(" ++ toString arity ++ ") in `" ++ filter ++ "`\n"
  | .var name => "undefined `$" ++ name ++ "`: Var in `" ++ filter ++ "`\n"
  | .label name => "undefined `$" ++ name ++ "`: Label in `" ++ filter ++ "`\n"
  | .home name => "undefined `" ++ name ++ "`: Mod in `" ++ filter ++ "`\n"

/-- Why a filter gives no values. -/
inductive Fault where
  /-- the text spells no filter -/
  | malformed
  /-- names that stand for nothing -/
  | unbound (names : List Unbound)
  /-- an error that is not caught -/
  | failed
  /-- an output whose text is no JSON value -/
  | unwritable (text : String) (f : Json.Fault)
  deriving Inhabited

/-- The wording of a fault of a filter. There is a line for every name that stands for nothing. -/
def Fault.message (filter : String) : Fault → String
  | .malformed => "parse error in `" ++ filter ++ "`\n"
  | .unbound names => String.join (names.map (Unbound.message filter))
  | .failed => "jq runtime error"
  | .unwritable text f => "jq produced non-JSON output `" ++ text ++ "`: " ++ f.bareMessage

/-! ## Languages -/

/-- A language of filters. -/
structure Language where
  /-- what texts spell -/
  Source : Type
  /-- filters in which every name stands for something -/
  Program : Type
  load : String → Option Source
  compile : Source → Except (List Unbound) Program
  /-- the outputs for a value, as texts, with nothing in the place of an error -/
  outputs : Program → Json.Value → Outputs (Option String)

/-- The value of an output. -/
def valueOf : Option String → Except Fault Json.Value
  | none => .error .failed
  | some text => (Json.Value.read text).mapError (.unwritable text)

/-- The values of outputs, after others in reverse order. What comes after the first output without a
value is not asked for. -/
def valuesOf (reversed : List Json.Value) : Outputs (Option String) → Except Fault (List Json.Value)
  | .done => .ok reversed.reverse
  | .one output => do return ((← valueOf output) :: reversed).reverse
  | .more output rest =>
    match valueOf output with
    | .ok v => valuesOf (v :: reversed) (rest ())
    | .error f => .error f
  | .later o => valuesOf reversed (o ())

/-- All outputs of a filter for a value, or why there are none. -/
def Language.run (l : Language) (filter : String) (input : Json.Value) :
    Except Fault (List Json.Value) :=
  match l.load filter with
  | none => .error .malformed
  | some source =>
    match l.compile source with
    | .error names => .error (.unbound names)
    | .ok program => valuesOf [] (l.outputs program input)

end WideRow.Filter
