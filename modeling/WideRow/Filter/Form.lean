import WideRow.Filter.Term

/-!
# Forms

The filters that take filters, not data, as arguments and are not defined in the language itself.

Main definitions:
* `Form.of?`: the form that a call stands for;
* `Arrangement.apply`: sorting, grouping and choosing by keys.
-/

namespace WideRow.Filter

/-! ## Arrangements -/

/-- What is done with the elements of an array by the keys that a filter gives them. -/
inductive Arrangement where
  | sort
  | group
  | least
  | greatest
  deriving DecidableEq, Inhabited

/-- A datum with its keys. -/
abbrev Keyed := List Datum × Datum

namespace Arrangement

/-- One list of keys is at most another. -/
def atMost (a b : Keyed) : Bool := (Datum.array a.1).atMost (.array b.1)

/-- The elements next to each other that have the same keys, together. -/
def groups : List Keyed → List (List Keyed)
  | [] => []
  | a :: rest =>
    match groups rest with
    | (b :: run) :: others =>
      if (Datum.array a.1).equals (.array b.1) then (a :: b :: run) :: others
      else [a] :: (b :: run) :: others
    | others => [a] :: others

/-- The outcome of an arrangement. Elements with the same keys keep their order. -/
def apply (a : Arrangement) (items : List Keyed) : Datum :=
  let sorted := items.mergeSort atMost
  match a with
  | .sort => .array (sorted.map (·.2))
  | .group => .array ((groups sorted).map fun g => .array (g.map (·.2)))
  | .least => (sorted.head?.map (·.2)).getD .null
  | .greatest => (sorted.getLast?.map (·.2)).getD .null

end Arrangement

/-! ## Forms -/

/-- A filter with filters as its arguments. -/
inductive Form where
  | empty
  /-- an error with the first output, or the input if there is none -/
  | raise (t : Term)
  /-- the first output -/
  | first (t : Term)
  /-- the last output -/
  | last (t : Term)
  /-- at most a number of outputs -/
  | limit (count t : Term)
  /-- all outputs but a number of them at the front -/
  | skip (count t : Term)
  /-- the numbers from a first one, by steps, below a bound -/
  | range (start stop step : Term)
  /-- the paths to the outputs -/
  | path (t : Term)
  /-- the elements arranged by keys -/
  | arrange (a : Arrangement) (key : Term)

/-- The form that a call stands for. -/
def Form.of? (name : String) (arguments : List Term) : Option Form :=
  match name, arguments with
  | "empty", [] => some .empty
  | "error", [t] => some (.raise t)
  | "first", [t] => some (.first t)
  | "last", [t] => some (.last t)
  | "limit", [count, t] => some (.limit count t)
  | "skip", [count, t] => some (.skip count t)
  | "range", [start, stop, step] => some (.range start stop step)
  | "path", [t] => some (.path t)
  | "sort_by", [key] => some (.arrange .sort key)
  | "group_by", [key] => some (.arrange .group key)
  | "min_by", [key] => some (.arrange .least key)
  | "max_by", [key] => some (.arrange .greatest key)
  | _, _ => none

end WideRow.Filter
