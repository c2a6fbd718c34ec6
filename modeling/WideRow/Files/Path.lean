/-!
# Paths

A path is a text whose pieces stand between slashes. Empty pieces and single points say nothing, but
for a slash and a point at the front; two points lead to the folder above.

Main definitions:
* `parent?`: the path of the folder around;
* `components`, `atMost`: the order of paths.
-/

namespace WideRow.Files.Path

/-- The pieces of a path between its slashes. -/
def pieces (path : String) : List String := (path.toList.splitOn '/').map String.ofList

/-- A path begins at the root. -/
def isAbsolute (path : String) : Bool := path.toList.head? == some '/'

/-- A piece leads nowhere. -/
def isIdle (piece : String) : Bool := piece.isEmpty || piece == "."

/-- The pieces in reverse order without those in front that lead nowhere. The last of all stays. -/
def dropIdle : List String → List String
  | p :: q :: rest => if isIdle p then dropIdle (q :: rest) else p :: q :: rest
  | l => l

/-- The path of the folder around a path. The root and the empty path have none. -/
def parent? (path : String) : Option String :=
  match dropIdle (pieces path).reverse with
  | [] => none
  | [p] => if p.isEmpty then none else some ""
  | _ :: above =>
    match dropIdle above with
    | [""] => some "/"
    | above => some ("/".intercalate above.reverse)

/-- A path and the paths of the folders around it, the innermost first. A parent is shorter than
its path. -/
def ancestors (path : String) : List String :=
  go path.length path
where
  go (fuel : Nat) (path : String) : List String :=
    match fuel, parent? path with
    | fuel + 1, some parent => path :: go fuel parent
    | _, _ => [path]

/-! ## Order -/

/-- A part of a path that leads somewhere. -/
inductive Component where
  | root
  | here
  | above
  | name (s : String)
  deriving DecidableEq, Inhabited

/-- The parts of a path. A point counts only at the front. -/
def components (path : String) : List Component :=
  let later (l : List String) : List Component :=
    (l.filter fun p => !isIdle p).map fun p => if p = ".." then .above else .name p
  match pieces path with
  | [] => []
  | first :: rest =>
    if first.isEmpty then
      if rest.isEmpty then [] else .root :: later rest
    else if first = "." then .here :: later rest
    else later (first :: rest)

/-- The kinds of parts in their order. -/
def Component.rank : Component → Nat
  | .root => 0
  | .here => 1
  | .above => 2
  | .name _ => 3

/-- The order of parts. -/
def Component.compare : Component → Component → Ordering
  | .name a, .name b => Ord.compare a b
  | a, b => Ord.compare a.rank b.rank

/-- The order of lists of parts. -/
def compareComponents : List Component → List Component → Ordering
  | [], [] => .eq
  | [], _ :: _ => .lt
  | _ :: _, [] => .gt
  | a :: as, b :: bs => (a.compare b).then (compareComponents as bs)

/-- The order of paths, part by part. -/
def atMost (a b : String) : Bool := compareComponents (components a) (components b) != .gt

/-- A path is the folder that relative paths begin in. -/
def isHere (path : String) : Bool := components path == [.here]

end WideRow.Files.Path
