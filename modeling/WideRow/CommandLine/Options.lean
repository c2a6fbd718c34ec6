/-!
# Options

The words of a command line that begin with hyphens. A long option is written `--name value` or
`--name=value`, a short one `-n value`, `-n=value` or `-nvalue`. A value that stands by itself does
not begin with a hyphen, unless it is nothing else. After `--` there are no options.

Main definitions:
* `readOptions`: the options that are given, with their values.
-/

namespace WideRow.CommandLine

/-! ## Options and mistakes -/

/-- Why the words of a command line are no command. Requests for a text stand among the mistakes. -/
inductive Misuse where
  /-- no word at all -/
  | nothing
  | helpWanted
  | versionWanted
  | unknownCommand
  | unknownOption
  /-- a required option that is not given -/
  | incomplete
  /-- an option without its value, or with one that it cannot have -/
  | badValue
  /-- an option that is given twice -/
  | repeated
  /-- a value for an option that has none -/
  | strayValue
  deriving DecidableEq, Inhabited

/-- What an option asks for, or the values that follow it. -/
inductive Takes where
  | help
  | version
  | nothing
  | text
  /-- a text that is not empty -/
  | path
  /-- one text or more, each time that the option is given -/
  | texts
  deriving DecidableEq, Inhabited

/-- A value follows. -/
def Takes.isValued : Takes → Bool
  | .text | .path | .texts => true
  | .help | .version | .nothing => false

/-- One more value can follow after a number of them. -/
def Takes.allows (t : Takes) (count : Nat) : Bool :=
  match t with
  | .texts => true
  | t => t.isValued && count == 0

/-- An option that a command knows. -/
structure OptionRule where
  long : String
  short : Option Char
  takes : Takes
  deriving DecidableEq, Inhabited

/-! ## What is given -/

/-- The options that are given, by their long names, with all their values. -/
abbrev Given := List (String × List String)

namespace Given

/-- All values of an option. -/
def values (g : Given) (long : String) : List String := (g.lookup long).getD []

/-- The value of an option. -/
def value? (g : Given) (long : String) : Option String := (g.values long).head?

/-- An option is given. -/
def has (g : Given) (long : String) : Bool := (g.lookup long).isSome

/-- The options with more values of one of them. -/
def add (g : Given) (long : String) (values : List String) : Given :=
  (long, g.values long ++ values) :: g.filter fun entry => entry.1 != long

/-- The options with one more, once its values have all been read. -/
def accept (g : Given) (rule : OptionRule) (values : List String) : Except Misuse Given :=
  match rule.takes with
  | .help => .error .helpWanted
  | .version => .error .versionWanted
  | .nothing => if g.has rule.long then .error .repeated else .ok (g.add rule.long values)
  | .texts => if values.isEmpty then .error .badValue else .ok (g.add rule.long values)
  | .text =>
    if values.isEmpty then .error .badValue
    else if g.has rule.long then .error .repeated
    else .ok (g.add rule.long values)
  | .path =>
    if values.isEmpty then .error .badValue
    else if g.has rule.long then .error .repeated
    else if values.any (·.isEmpty) then .error .badValue
    else .ok (g.add rule.long values)

end Given

/-! ## Reading -/

/-- The options that have been read, and the one whose values are being read. -/
structure Reading where
  given : Given
  current : Option (OptionRule × List String)

namespace Reading

/-- The options with the current one among them. -/
def settle (r : Reading) : Except Misuse Given :=
  match r.current with
  | none => .ok r.given
  | some (rule, values) => r.given.accept rule values

/-- A new option begins. Its value may be there already. -/
def start (r : Reading) (rule : OptionRule) (value : Option String) : Except Misuse Reading := do
  let g ← r.settle
  if rule.takes.isValued && value.isNone then return ⟨g, some (rule, [])⟩
  else return ⟨← g.accept rule value.toList, none⟩

/-- A word that is no option: a value of the current one. -/
def takeValue (r : Reading) (word : String) : Except Misuse Reading :=
  match r.current with
  | some (rule, values) =>
    if rule.takes.allows values.length then .ok { r with current := some (rule, values ++ [word]) }
    else .error .unknownOption
  | none => .error .unknownOption

/-- A long option: the characters after the two hyphens. -/
def takeLong (rules : List OptionRule) (r : Reading) (cs : List Char) : Except Misuse Reading :=
  let name := String.ofList (cs.takeWhile (· != '='))
  let value := match cs.dropWhile (· != '=') with
    | [] => none
    | _ :: value => some (String.ofList value)
  match rules.find? (·.long == name) with
  | none => .error .unknownOption
  | some rule =>
    if value.isSome && !rule.takes.isValued then .error .strayValue else r.start rule value

/-- Short options: the characters after the hyphen. -/
def takeShorts (rules : List OptionRule) (r : Reading) : List Char → Except Misuse Reading
  | [] => .ok r
  | c :: rest =>
    match rules.find? (·.short == some c) with
    | none => .error .unknownOption
    | some rule =>
      if rule.takes.isValued then
        match rest with
        | [] => r.start rule none
        | '=' :: value => r.start rule (some (String.ofList value))
        | value => r.start rule (some (String.ofList value))
      else do
        let r ← r.start rule none
        takeShorts rules r rest

end Reading

/-- The options among words. A word that is no option and no value of one is a mistake. -/
def readWords (rules : List OptionRule) (r : Reading) : List String → Except Misuse Given
  | [] => r.settle
  | word :: rest =>
    match word.toList with
    | ['-', '-'] => if rest.isEmpty then r.settle else .error .unknownOption
    | '-' :: '-' :: cs => do readWords rules (← r.takeLong rules cs) rest
    | '-' :: c :: cs => do readWords rules (← r.takeShorts rules (c :: cs)) rest
    | _ => do readWords rules (← r.takeValue word) rest

/-- The options among the words of a command. -/
def readOptions (rules : List OptionRule) (words : List String) : Except Misuse Given :=
  readWords rules ⟨[], none⟩ words

end WideRow.CommandLine
