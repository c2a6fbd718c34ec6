import WideRow.Files.Store

/-!
# Patterns of paths

A pattern stands for the paths that it matches. In it `*` stands for any characters of a name, `?`
for one, `[ab]`, `[a-z]` and `[!a]` for one of some; a piece `**` stands for the folders below. A
piece without such signs is followed as it is.

Main definitions:
* `Pattern.parse`: the tokens of a piece;
* `Glob.paths`: the paths that match, in order.
-/

namespace WideRow.Files

/-! ## Pieces of patterns -/

/-- Some characters. -/
inductive CharClass where
  | single (c : Char)
  | range (first last : Char)
  deriving DecidableEq, Inhabited

/-- A token of a pattern. -/
inductive Mark where
  | char (c : Char)
  | anyChar
  | anyChars
  | anyFolders
  | within (classes : List CharClass)
  | except (classes : List CharClass)
  deriving DecidableEq, Inhabited

/-- Why a text is no pattern. -/
inductive PatternFlaw where
  | stars
  | notWhole
  | openRange
  deriving DecidableEq, Inhabited

/-- The wording of a flaw. -/
def PatternFlaw.message : PatternFlaw → String
  | .stars => "wildcards are either regular `*` or recursive `**`"
  | .notWhole => "recursive wildcards must form a single path component"
  | .openRange => "invalid range pattern"

/-- A flaw of a pattern with its place. -/
structure PatternError where
  position : Nat
  flaw : PatternFlaw
  deriving DecidableEq, Inhabited

/-- The wording of a flaw with its place. -/
def PatternError.message (e : PatternError) : String :=
  "Pattern syntax error near position " ++ toString e.position ++ ": " ++ e.flaw.message

/-- A pattern as its tokens. -/
abbrev Pattern := List Mark

namespace CharClass

/-- The characters between brackets. -/
def ofChars : List Char → List CharClass
  | a :: '-' :: b :: rest => .range a b :: ofChars rest
  | a :: rest => .single a :: ofChars rest
  | [] => []

/-- A character is one of them. -/
def holds (c : Char) : CharClass → Bool
  | .single d => c == d
  | .range first last => first ≤ c && c ≤ last

end CharClass

namespace Pattern

/-- A pattern with the token for folders below, of which only the first counts in a row. -/
def addFolders (acc : Pattern) : Pattern :=
  match acc with
  | .anyFolders :: _ :: _ => acc
  | _ => .anyFolders :: acc

/-- The characters of a bracket up to the one that closes it, and the rest. The first of them closes
nothing. -/
def bracket? : List Char → Option (List Char × List Char)
  | [] => none
  | first :: rest =>
    match rest.span (· != ']') with
    | (_, []) => none
    | (inside, _ :: after) => some (first :: inside, after)

/-- The tokens of a pattern from a position on, put in reverse order in front of those before it.
The character before the position is kept, because two stars stand only between slashes. -/
def scan (fuel position : Nat) (before : Option Char) (acc : Pattern) (cs : List Char) :
    Except PatternError Pattern :=
  match fuel, cs with
  | fuel + 1, '?' :: rest => scan fuel (position + 1) (some '?') (.anyChar :: acc) rest
  | fuel + 1, '*' :: rest =>
    let (more, after) := rest.span (· == '*')
    match more with
    | [] => scan fuel (position + 1) (some '*') (.anyChars :: acc) rest
    | [_] =>
      if before.isSome ∧ before ≠ some '/' then .error ⟨position - 1, .notWhole⟩
      else match after with
        | [] => .ok (addFolders acc)
        | '/' :: rest => scan fuel (position + 3) (some '/') (addFolders acc) rest
        | _ => .error ⟨position + 2, .notWhole⟩
    | _ => .error ⟨position + 2, .stars⟩
  | fuel + 1, '[' :: '!' :: rest =>
    match bracket? rest with
    | some (inside, after) =>
      scan fuel (position + inside.length + 3) (some ']')
        (.except (CharClass.ofChars inside) :: acc) after
    | none => .error ⟨position, .openRange⟩
  | fuel + 1, '[' :: rest =>
    match bracket? rest with
    | some (inside, after) =>
      scan fuel (position + inside.length + 2) (some ']')
        (.within (CharClass.ofChars inside) :: acc) after
    | none => .error ⟨position, .openRange⟩
  | fuel + 1, c :: rest => scan fuel (position + 1) (some c) (.char c :: acc) rest
  | _, _ => .ok acc

/-- The tokens of a pattern. Each step takes a character. -/
def parse (cs : List Char) : Except PatternError Pattern :=
  List.reverse <$> scan cs.length 0 none [] cs

/-- The text that a pattern without signs stands for. -/
def literal? : Pattern → Option (List Char)
  | [] => some []
  | .char c :: rest => (literal? rest).map (c :: ·)
  | _ :: _ => none

/-- A pattern stands for the folders below. -/
def isRecursive (p : Pattern) : Bool := p.contains .anyFolders

/-- Some end of the characters, all of them included, passes a test. -/
def anySuffix (test : List Char → Bool) : List Char → Bool
  | [] => test []
  | c :: rest => test (c :: rest) || anySuffix test rest

/-- A pattern matches a name. -/
def isMatch : Pattern → List Char → Bool
  | [], cs => cs.isEmpty
  | .anyChars :: rest, cs => anySuffix (isMatch rest) cs
  | .anyFolders :: rest, cs => anySuffix (isMatch rest) cs
  | _ :: _, [] => false
  | .char d :: rest, c :: cs => c == d && isMatch rest cs
  | .anyChar :: rest, _ :: cs => isMatch rest cs
  | .within classes :: rest, c :: cs => classes.any (CharClass.holds c) && isMatch rest cs
  | .except classes :: rest, c :: cs => !classes.any (CharClass.holds c) && isMatch rest cs

/-- Of patterns for the folders below in a row only the last is kept. -/
def collapse : List Pattern → List Pattern
  | p :: q :: rest =>
    if isRecursive p && isRecursive q then collapse (q :: rest) else p :: collapse (q :: rest)
  | l => l

end Pattern

/-! ## Matching -/

namespace Glob

/-- A path that has been reached. -/
structure Spot where
  path : String
  location : Location

/-- The path of a spot with a piece added. -/
def Spot.joined (spot : Spot) (piece : String) : String :=
  if spot.path.endsWith "/" then spot.path ++ piece else spot.path ++ "/" ++ piece

/-- The path of a piece below a spot. The folder that relative paths begin in is not written. -/
def Spot.step (spot : Spot) (piece : String) : String :=
  if Path.isHere spot.path then piece else spot.joined piece

/-- The files and folders in a folder. -/
def children (s : Store) (spot : Spot) : List Spot :=
  if s.hasFolder spot.location then
    (s.namesIn spot.location).map fun name => ⟨spot.step name, spot.location ++ [name]⟩
  else []

/-- The files and folders below a folder, down to a depth. -/
def below (s : Store) (depth : Nat) (spot : Spot) : List Spot :=
  match depth with
  | 0 => []
  | depth + 1 => (children s spot).flatMap fun c => c :: below s depth c

/-- The name of a spot. -/
def Spot.name (spot : Spot) : String := spot.location.getLast?.getD ""

/-- The spot at a path. -/
def spotAt? (s : Store) (path : String) : Option Spot :=
  match s.locate path with
  | .ok l => some ⟨path, l⟩
  | .error _ => none

/-- The longest way from the root to a file or a folder. -/
def depthOf (s : Store) : Nat :=
  ((s.files.map fun f => f.1.length) ++ s.folders.map List.length).foldl max 0

mutual

/-- The spots that patterns lead to from a folder. -/
def search (s : Store) (folderOnly : Bool) : List Pattern → Spot → List Spot
  | [], _ => []
  | p :: rest, spot =>
    match p.literal? with
    | some cs =>
      let piece := String.ofList cs
      let special := piece == "." || piece == ".."
      let next := spot.step piece
      if special && !s.hasFolder spot.location then []
      else match spotAt? s next with
        | some spot => goOn s folderOnly rest spot
        | none => []
    | none =>
      if p.isRecursive then
        let found := below s (depthOf s) spot
        match rest with
        | [] => found.filter fun c => s.hasFolder c.location
        | q :: rest => found.flatMap (visit s folderOnly q rest)
      else
        let found := (children s spot).flatMap (visit s folderOnly p rest)
        let dots := [".", ".."].filter fun d =>
          p.head? == some (.char '.') && p.isMatch d.toList && s.hasFolder spot.location
        found ++ dots.flatMap fun d =>
          match spotAt? s (spot.joined d) with
          | some spot => goOn s folderOnly rest spot
          | none => []

/-- The spots that the remaining patterns lead to from a spot that needs no test. -/
def goOn (s : Store) (folderOnly : Bool) : List Pattern → Spot → List Spot
  | [], spot => if folderOnly && !s.hasFolder spot.location then [] else [spot]
  | p :: rest, spot => search s folderOnly (p :: rest) spot

/-- The spots that the remaining patterns lead to from a spot whose name must match. -/
def visit (s : Store) (folderOnly : Bool) (p : Pattern) (rest : List Pattern) (spot : Spot) :
    List Spot :=
  if p.isMatch spot.name.toList then
    match rest with
    | [] => if folderOnly && !s.hasFolder spot.location then [] else [spot]
    | q :: rest => if s.hasFolder spot.location then search s folderOnly (q :: rest) spot else []
  else []

end

/-- The pieces of a pattern. An empty piece at the end only asks for folders. -/
def piecesOf (pattern : String) : List (List Char) :=
  let pieces := pattern.toList.splitOn '/'
  if pieces.getLast? == some [] then pieces.dropLast else pieces

/-- The paths that match a pattern, in order. Paths from the root are found from the root. -/
def paths (s : Store) (pattern : String) : Except PatternError (List String) := do
  let _ ← Pattern.parse pattern.toList
  let absolute := Path.isAbsolute pattern
  let pieces := piecesOf pattern
  let patterns ← (if absolute then pieces.drop 1 else pieces).mapM Pattern.parse
  let start : Spot := if absolute then ⟨"/", []⟩ else ⟨".", s.home⟩
  let found := search s (pattern.endsWith "/") (Pattern.collapse patterns) start
  return (found.map (·.path)).mergeSort Path.atMost

/-- A text has a sign of patterns. -/
def isPattern (s : String) : Bool := s.toList.any fun c => "*?[\x7b".contains c

end Glob

end WideRow.Files
