import WideRow.Filter.Term

/-!
# Reading terms

How a filter is read from its tokens. What a function reads is the front of the tokens; it gives the
rest as well. The fuel bounds the depth of the calls, and every level of terms takes a token.

Main definitions:
* `Term.parse`: the filter that a text spells.
-/

namespace WideRow.Filter

namespace Term

/-- The rest of the tokens after an expected one. -/
def expect (t : Token) : List Token → Option (List Token)
  | u :: rest => if t = u then some rest else none
  | [] => none

/-- Question marks stand at the front of the tokens, and the tokens after them. -/
def dropMarks : List Token → Bool × List Token
  | .sign "?" :: ts => (true, (dropMarks ts).2)
  | ts => (false, ts)

/-- The parameters of a definition, between their semicolons. -/
def parseParameters : List Token → Option (List Parameter × List Token)
  | .word name :: ts => parseMore (.filter name) ts
  | .var name :: ts => parseMore (.var name) ts
  | _ => none
where
  parseMore (first : Parameter) : List Token → Option (List Parameter × List Token)
    | .sign ")" :: ts => some ([first], ts)
    | .sign ";" :: ts => do
      let (others, ts) ← parseParameters ts
      return (first :: others, ts)
    | _ => none

mutual

/-- A term, with commas outside of parentheses if they are allowed. -/
def parseTerm (fuel : Nat) (commas : Bool) (ts : List Token) : Option (Term × List Token) :=
  match fuel with
  | 0 => none
  | fuel + 1 => do
    let (head, ts) ← parseAtom fuel ts
    let (tail, ts) ← parseOperators fuel commas ts
    return (combine head tail, ts)

/-- The operators that follow a term, each with its right side. -/
def parseOperators (fuel : Nat) (commas : Bool) (ts : List Token) :
    Option (List (Operator × Term) × List Token) :=
  match fuel with
  | 0 => none
  | fuel + 1 =>
    match ts with
    | .word "as" :: ts => do
      let (pattern, ts) ← parsePattern fuel ts
      let ts ← expect (.sign "|") ts
      let (r, ts) ← parseAtom fuel ts
      let (tail, ts) ← parseOperators fuel commas ts
      return ((.bindTo pattern, r) :: tail, ts)
    | [] => some ([], [])
    | t :: rest =>
      if t = .sign "," ∧ ¬ commas then some ([], t :: rest)
      else match operator? t with
        | none => some ([], t :: rest)
        | some op => do
          let (r, ts) ← parseAtom fuel rest
          let (tail, ts) ← parseOperators fuel commas ts
          return ((op, r) :: tail, ts)

/-- A pattern of variables. -/
def parsePattern (fuel : Nat) (ts : List Token) : Option (Pattern × List Token) :=
  match fuel with
  | 0 => none
  | fuel + 1 =>
    match ts with
    | .var name :: ts => some (.var name, ts)
    | .sign "[" :: ts => do
      let (items, ts) ← parsePatterns fuel ts
      return (.array items, ts)
    | .sign "\x7b" :: ts => do
      let (entries, ts) ← parsePatternEntries fuel ts
      return (.object entries, ts)
    | _ => none

/-- The patterns of an array pattern and its bracket. -/
def parsePatterns (fuel : Nat) (ts : List Token) : Option (List Pattern × List Token) :=
  match fuel with
  | 0 => none
  | fuel + 1 => do
    let (first, ts) ← parsePattern fuel ts
    match ts with
    | .sign "]" :: ts => return ([first], ts)
    | .sign "," :: ts =>
      let (others, ts) ← parsePatterns fuel ts
      return (first :: others, ts)
    | _ => none

/-- The entries of an object pattern and its brace, with a comma in front of it if there is one. -/
def parsePatternEntries (fuel : Nat) (ts : List Token) :
    Option (List (Term × Pattern) × List Token) :=
  match fuel with
  | 0 => none
  | fuel + 1 => do
    let ((key, pattern), ts) : (Term × Pattern) × List Token ← match ts with
      | .var name :: ts => some ((Term.ofString name, .var name), ts)
      | .word name :: .sign ":" :: ts => do
        let (pattern, ts) ← parsePattern fuel ts
        some ((Term.ofString name, pattern), ts)
      | .textStart :: ts => do
        let (parts, ts) ← parseText fuel ts
        let ts ← expect (.sign ":") ts
        let (pattern, ts) ← parsePattern fuel ts
        some ((Term.text none parts, pattern), ts)
      | .format name :: .textStart :: ts => do
        let (parts, ts) ← parseText fuel ts
        let ts ← expect (.sign ":") ts
        let (pattern, ts) ← parsePattern fuel ts
        some ((Term.text (some name) parts, pattern), ts)
      | .sign "(" :: ts => do
        let (key, ts) ← parseTerm fuel true ts
        let ts ← expect (.sign ")") ts
        let ts ← expect (.sign ":") ts
        let (pattern, ts) ← parsePattern fuel ts
        some ((key, pattern), ts)
      | _ => none
    match ts with
    | .sign "\x7d" :: ts => return ([(key, pattern)], ts)
    | .sign "," :: .sign "\x7d" :: ts => return ([(key, pattern)], ts)
    | .sign "," :: ts =>
      let (others, ts) ← parsePatternEntries fuel ts
      return ((key, pattern) :: others, ts)
    | _ => none

/-- The parts of a text after its opening quote. -/
def parseText (fuel : Nat) (ts : List Token) : Option (List TextPart × List Token) :=
  match fuel with
  | 0 => none
  | fuel + 1 =>
    match ts with
    | .textEnd :: ts => some ([], ts)
    | .textPiece s :: ts => do
      let (parts, ts) ← parseText fuel ts
      return (.piece s :: parts, ts)
    | .termStart :: ts => do
      let (t, ts) ← parseTerm fuel true ts
      let ts ← expect .termEnd ts
      let (parts, ts) ← parseText fuel ts
      return (.term t :: parts, ts)
    | _ => none

/-- The arguments of a call, if there are any. -/
def parseArguments (fuel : Nat) (ts : List Token) : Option (List Term × List Token) :=
  match fuel with
  | 0 => none
  | fuel + 1 =>
    match ts with
    | .sign "(" :: ts => parseArgument fuel ts
    | ts => some ([], ts)

/-- An argument and those after it, up to the closing parenthesis. -/
def parseArgument (fuel : Nat) (ts : List Token) : Option (List Term × List Token) :=
  match fuel with
  | 0 => none
  | fuel + 1 => do
    let (first, ts) ← parseTerm fuel true ts
    match ts with
    | .sign ")" :: ts => return ([first], ts)
    | .sign ";" :: ts =>
      let (others, ts) ← parseArgument fuel ts
      return (first :: others, ts)
    | _ => none

/-- The entries of an object and its brace, with a comma in front of it if there is one. -/
def parseEntries (fuel : Nat) (ts : List Token) :
    Option (List (Term × Option Term) × List Token) :=
  match fuel with
  | 0 => none
  | fuel + 1 => do
    let ((key, alone), ts) : (Term × Bool) × List Token ← match ts with
      | .word name :: ts => some ((Term.ofString name, true), ts)
      | .var name :: ts => some ((Term.var name, true), ts)
      | .textStart :: ts => do
        let (parts, ts) ← parseText fuel ts
        some ((Term.text none parts, true), ts)
      | .format name :: .textStart :: ts => do
        let (parts, ts) ← parseText fuel ts
        some ((Term.text (some name) parts, true), ts)
      | .sign "(" :: ts => do
        let (key, ts) ← parseTerm fuel true ts
        let ts ← expect (.sign ")") ts
        some ((key, false), ts)
      | _ => none
    let (value, ts) : Option Term × List Token ← match ts with
      | .sign ":" :: ts => do
        let (t, ts) ← parseTerm fuel false ts
        some (some t, ts)
      | ts => if alone then some (none, ts) else none
    match ts with
    | .sign "\x7d" :: ts => return ([(key, value)], ts)
    | .sign "," :: .sign "\x7d" :: ts => return ([(key, value)], ts)
    | .sign "," :: ts =>
      let (others, ts) ← parseEntries fuel ts
      return ((key, value) :: others, ts)
    | _ => none

/-- The branches of a choice after their first word. -/
def parseBranches (fuel : Nat) (ts : List Token) :
    Option ((List (Term × Term) × Option Term) × List Token) :=
  match fuel with
  | 0 => none
  | fuel + 1 => do
    let (condition, ts) ← parseTerm fuel true ts
    let ts ← expect (.word "then") ts
    let (body, ts) ← parseTerm fuel true ts
    match ts with
    | .word "end" :: ts => return (([(condition, body)], none), ts)
    | .word "else" :: ts =>
      let (last, ts) ← parseTerm fuel true ts
      let ts ← expect (.word "end") ts
      return (([(condition, body)], some last), ts)
    | .word "elif" :: ts =>
      let ((branches, last), ts) ← parseBranches fuel ts
      return (((condition, body) :: branches, last), ts)
    | _ => none

/-- A step after a bracket has been opened, with the bracket that closes it. -/
def parseBracket (fuel : Nat) (ts : List Token) : Option (PathStep Term × List Token) :=
  match fuel with
  | 0 => none
  | fuel + 1 =>
    match ts with
    | .sign "]" :: ts => some (.elements, ts)
    | .sign ":" :: ts => do
      let (stop, ts) ← parseTerm fuel true ts
      let ts ← expect (.sign "]") ts
      return (.slice none (some stop), ts)
    | ts => do
      let (start, ts) ← parseTerm fuel true ts
      match ts with
      | .sign "]" :: ts => return (.index start, ts)
      | .sign ":" :: .sign "]" :: ts => return (.slice (some start) none, ts)
      | .sign ":" :: ts =>
        let (stop, ts) ← parseTerm fuel true ts
        let ts ← expect (.sign "]") ts
        return (.slice (some start) (some stop), ts)
      | _ => none

/-- A step with the question marks after it, in front of further steps. -/
def parseStepTail (fuel : Nat) (step : PathStep Term) (ts : List Token) :
    Option (List (PathStep Term × Bool) × List Token) :=
  match fuel with
  | 0 => none
  | fuel + 1 => do
    let (marked, ts) := dropMarks ts
    let (steps, ts) ← parseSteps fuel ts
    return ((step, marked) :: steps, ts)

/-- The steps that follow a term. -/
def parseSteps (fuel : Nat) (ts : List Token) : Option (List (PathStep Term × Bool) × List Token) :=
  match fuel with
  | 0 => none
  | fuel + 1 =>
    match ts with
    | .field name :: ts => parseStepTail fuel (.index (.ofString name)) ts
    | .sign "." :: .textStart :: ts => do
      let (parts, ts) ← parseText fuel ts
      parseStepTail fuel (.index (.text none parts)) ts
    | .sign "." :: .format name :: .textStart :: ts => do
      let (parts, ts) ← parseText fuel ts
      parseStepTail fuel (.index (.text (some name) parts)) ts
    | .sign "[" :: ts => do
      let (step, ts) ← parseBracket fuel ts
      parseStepTail fuel step ts
    | ts => some ([], ts)

/-- A term without operators: a first part, question marks, and then steps. -/
def parseAtom (fuel : Nat) (ts : List Token) : Option (Term × List Token) :=
  match fuel with
  | 0 => none
  | fuel + 1 =>
    match ts with
    | .sign "-" :: ts => do
      let (t, ts) ← parseAtom fuel ts
      return (.negate t, ts)
    | .word "def" :: ts => match ts with
      | .word name :: ts => do
        let (parameters, ts) ← match ts with
          | .sign "(" :: ts => parseParameters ts
          | ts => some ([], ts)
        let ts ← expect (.sign ":") ts
        let (body, ts) ← parseTerm fuel true ts
        let ts ← expect (.sign ";") ts
        let (rest, ts) ← parseTerm fuel true ts
        return (.define name parameters body rest, ts)
      | _ => none
    | .word "label" :: ts => match ts with
      | .var name :: .sign "|" :: ts => do
        let (body, ts) ← parseTerm fuel true ts
        return (.label name body, ts)
      | _ => none
    | .word "try" :: ts => do
      let (t, ts) ← parseAtom fuel ts
      match ts with
      | .word "catch" :: ts =>
        let (handler, ts) ← parseAtom fuel ts
        return (.attempt t (some handler), ts)
      | ts => return (.attempt t none, ts)
    | ts => do
      let (t, ts) ← parseHead fuel ts
      let (marked, ts) := dropMarks ts
      let (steps, ts) ← parseSteps fuel ts
      let t := if marked then .attempt t none else t
      return (if steps.isEmpty then t else .path t steps, ts)

/-- The first part of a term without operators. -/
def parseHead (fuel : Nat) (ts : List Token) : Option (Term × List Token) :=
  match fuel with
  | 0 => none
  | fuel + 1 =>
    match ts with
    | .number s :: ts => some (.number s, ts)
    | .var name :: ts => some (.var name, ts)
    | .word "if" :: ts => do
      let ((branches, last), ts) ← parseBranches fuel ts
      return (.choose branches last, ts)
    | .word "break" :: ts => match ts with
      | .var name :: ts => some (.leave name, ts)
      | _ => none
    | .word "reduce" :: ts => parseFold fuel "reduce" ts
    | .word "foreach" :: ts => parseFold fuel "foreach" ts
    | .word name :: ts => do
      let (arguments, ts) ← parseArguments fuel ts
      return (.call name arguments, ts)
    | .field name :: ts => some (.input, .field name :: ts)
    | .sign ".." :: ts => some (.descend, ts)
    | .sign "." :: .textStart :: ts => some (.input, .sign "." :: .textStart :: ts)
    | .sign "." :: .format name :: .textStart :: ts =>
      some (.input, .sign "." :: .format name :: .textStart :: ts)
    | .sign "." :: ts => some (.input, ts)
    | .textStart :: ts => do
      let (parts, ts) ← parseText fuel ts
      return (.text none parts, ts)
    | .format name :: .textStart :: ts => do
      let (parts, ts) ← parseText fuel ts
      return (.text (some name) parts, ts)
    | .format name :: ts => some (.call ("@" ++ name) [], ts)
    | .sign "[" :: .sign "]" :: ts => some (.array none, ts)
    | .sign "[" :: ts => do
      let (t, ts) ← parseTerm fuel true ts
      let ts ← expect (.sign "]") ts
      return (.array (some t), ts)
    | .sign "\x7b" :: .sign "\x7d" :: ts => some (.object [], ts)
    | .sign "\x7b" :: ts => do
      let (entries, ts) ← parseEntries fuel ts
      return (.object entries, ts)
    | .sign "(" :: ts => do
      let (t, ts) ← parseTerm fuel true ts
      let ts ← expect (.sign ")") ts
      return (t, ts)
    | _ => none

/-- A fold after its first word. With another number of arguments than folds have, it is a filter
that is not known. -/
def parseFold (fuel : Nat) (name : String) (ts : List Token) : Option (Term × List Token) :=
  match fuel with
  | 0 => none
  | fuel + 1 => do
    let (source, ts) ← parseAtom fuel ts
    let ts ← expect (.word "as") ts
    let (pattern, ts) ← parsePattern fuel ts
    let (arguments, ts) ← parseArguments fuel ts
    let t : Term := match name, arguments with
      | "reduce", [start, step] => .reduce source pattern start step
      | "foreach", [start, step] => .foreach source pattern start step none
      | "foreach", [start, step, view] => .foreach source pattern start step (some view)
      | name, arguments => .unknown name arguments.length
    return (t, ts)

end

/-- The tokens after the description of a program, if there is one. -/
def dropDescription (fuel : Nat) : List Token → Option (List Token)
  | .word "module" :: ts => do
    let (_, ts) ← parseTerm fuel true ts
    expect (.sign ";") ts
  | ts => some ts

/-- A program asks for another one. There are no others. -/
def asksForOther : List Token → Bool
  | .word "import" :: _ => true
  | .word "include" :: _ => true
  | _ => false

/-- The filter that a text spells. A token takes at most five steps: the term, its atom, the head of
the atom, the steps after it and the operators after it. -/
def parse (s : String) : Option Term := do
  let ts ← Token.scan s
  let fuel := 8 * ts.length + 8
  let ts ← dropDescription fuel ts
  if asksForOther ts then none
  else match ← parseTerm fuel true ts with
    | (t, []) => some t
    | (_, _ :: _) => none

end Term

end WideRow.Filter
