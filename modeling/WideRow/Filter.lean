import WideRow.Filter.Prelude

/-!
# Filters

The filters of descriptions are spelt in a small language of paths, pipes and calls.

Main definitions:
* `jq`: this language;
* `Filter.run`: all outputs of a filter, or why there are none.
-/

namespace WideRow.Filter

/-- The steps that can lead to a part of an evaluation. No evaluation comes near it. -/
def fuel : Nat := Nat.pow 10 9

/-- The filters that can wait for the outputs of a part at the same time. -/
def room : Nat := 10000

/-- The filter of a term, if every name in it stands for something. -/
def compile (t : Term) : Except (List Unbound) Term :=
  match t.unbound (Scope.ofEnv prelude) with
  | [] => .ok t
  | names => .error names

/-- The text of an output. -/
def textOf? : Except Datum.Failure Place → Option String
  | .error _ => none
  | .ok p => some p.value.text

/-- The language of paths, pipes and calls. It has no regular expressions, so `splits` cuts at a plain
text, and no dates, only common functions of numbers, and it knows nothing of the world around. -/
def jq : Language where
  Source := Term
  Program := Term
  load := Term.parse
  compile := compile
  outputs t v := (eval fuel room t prelude (.made (Datum.ofValue v))).map textOf?

/-- All outputs of a filter for a value, or why there are none. -/
def run (filter : String) (input : Json.Value) : Except Fault (List Json.Value) :=
  jq.run filter input

end WideRow.Filter
