import WideRow.Filter.Evaluation
import WideRow.Filter.Scope
import WideRow.Filter.Term.Parser

/-!
# Prelude

The filters that are defined in the language itself. Each knows those before it.

Main definitions:
* `prelude`: the environment that every filter starts from.
-/

namespace WideRow.Filter

/-- The filter that reaches a datum and all its parts, the outer ones first. -/
def descentBody : String := "., (.[]? | ..)"

/-- The definitions of the prelude. -/
def preludeText : String :=
  "def not: if . then false else true end;
  def nan: 0 / 0;
  def infinite: 1 / 0;
  def isnan: . < nan and nan < .;
  def isinfinite: . == infinite or . == -infinite;
  def isfinite: type == \"number\" and (isinfinite | not);
  def isnormal: . != 0 and (isnan or isinfinite | not);
  def abs: if . < 0 then -. else . end;
  def select(f): if f then . else empty end;
  def values: select(. != null);
  def nulls: select(. == null);
  def booleans: select(isboolean);
  def numbers: select(isnumber);
  def strings: select(isstring);
  def arrays: select(isarray);
  def objects: select(isobject);
  def iterables: select(. >= []);
  def scalars: select(. < []);
  def recurse(f): def rec: ., (f | rec); rec;
  def recurse(f; cond): def rec: ., (f | select(cond) | rec); rec;
  def recurse: recurse(.[]?);
  def repeat(f): def rec: ., (f | rec); rec;
  def while(cond; f): def rec: if cond then ., (f | rec) else empty end; rec;
  def until(cond; f): def rec: if cond then . else f | rec end; rec;
  def range($from; $to): range($from; $to; 1);
  def range($to): range(0; $to; 1);
  def map(f): [.[] | f];
  def map_values(f): .[] |= f;
  def isempty(g): first((g | false), true);
  def isvalid(f): try (f | true) catch false;
  def add(f): reduce f as $x (null; . + $x);
  def add: add(.[]);
  def any(g; p): isempty(g | p or empty) | not;
  def any(p): any(.[]; p);
  def any: any(.);
  def all(g; p): isempty(g | p and empty);
  def all(p): all(.[]; p);
  def all: all(.);
  def in(xs): . as $x | xs | has($x);
  def inside(xs): . as $x | xs | contains($x);
  def first: .[0];
  def last: .[-1];
  def nth(n): .[n];
  def nth(n; g): last(limit(n + 1; g));
  def to_entries: [keys_unsorted[] as $k | \x7bkey: $k, value: .[$k]\x7d];
  def from_entries: reduce .[] as $e (\x7b\x7d; . + \x7b($e.key): $e.value\x7d);
  def with_entries(f): to_entries | map(f) | from_entries;
  def join($x):
    if . == [] then \"\"
    else reduce .[1:][] as $y (.[0] | tostring; . + $x + ($y | tostring)) end;
  def flatten: [recurse(arrays[]) | select(isarray | not)];
  def flatten($depth):
    if $depth > 0 then map(if isarray then flatten($depth - 1) else [.] end) | add else . end;
  def sort: sort_by(.);
  def min: min_by(.);
  def max: max_by(.);
  def unique_by(f): [group_by(f)[] | .[0]];
  def unique: unique_by(.);
  def index($i): indices($i)[0];
  def rindex($i): indices($i)[-1];
  def splits($separator): split($separator)[];
  def ascii: [.] | implode;
  def toarray: if isarray then . else [.] end;
  def transpose: [range([.[] | length] | max // 0) as $i | [.[][$i]]];
  def combinations:
    if length == 0 then [] else .[0][] as $x | (.[1:] | combinations) as $rest | [$x] + $rest end;
  def combinations(n): [limit(n; repeat(.))] | combinations;
  def walk(f): def rec: (.[]? |= rec) | f; rec;
  def getpath($path): if $path == [] then . else .[$path[0]] | getpath($path[1:]) end;
  def paths: skip(1; path(..));
  def paths(f): paths as $p | if getpath($p) | f then $p else empty end;
  def leaf_paths: paths(scalars);
  def del(f): f |= empty;
  def debug: .;
  def debug(f): .;
  def inputs: empty;
  def input: first(inputs);
  ."

/-- The bindings of the definitions in front of a filter, on top of others. -/
def ofDefinitions : Term → Env → Env
  | .define name parameters body rest, env =>
    ofDefinitions rest (.filter name parameters body :: env)
  | _, env => env

/-- The environment that every filter starts from. -/
def prelude : Env :=
  let descents : Env := match Term.parse descentBody with
    | some body => [.filter descent [] body]
    | none => []
  match Term.parse preludeText with
  | some t => ofDefinitions t descents
  | none => descents

/-- The scope of an environment. -/
def Scope.ofEnv : Env → Scope
  | [] => ⟨[], [], []⟩
  | .filter name parameters _ :: rest => (ofEnv rest).withFilter name parameters.length
  | .argument name _ _ :: rest => (ofEnv rest).withFilter name 0
  | .var name _ :: rest => (ofEnv rest).withParameter (.var name)
  | .label name _ :: rest =>
    let s := ofEnv rest
    { s with labels := name :: s.labels }

end WideRow.Filter
