import WideRow.Json.Reader
import WideRow.Text.Blank

/-!
# Tokens of the filter language

A filter in its spelling is a sequence of words, variables, fields, numbers, texts and signs, with
white space and comments between them. A text can hold terms between `\(` and `)`; their tokens
stand between those of the pieces of the text.

Main definitions:
* `Token.scan`: the tokens of a filter, unless some character fits none.
-/

namespace WideRow.Filter

/-- A piece of the spelling of a filter. -/
inductive Token where
  | word (name : String)
  | var (name : String)
  /-- a word right after a point -/
  | field (name : String)
  /-- a word after an at sign -/
  | format (name : String)
  | number (text : String)
  | sign (text : String)
  | textStart
  | textPiece (text : String)
  | termStart
  | termEnd
  | textEnd
  deriving DecidableEq, Inhabited

namespace Token

/-! ## Characters -/

/-- A character that can begin a word. -/
def isInitial (c : Char) : Bool := c.isAlpha || c == '_'

/-- A character that can stand inside a word. -/
def isInner (c : Char) : Bool := isInitial c || c.isDigit

/-- A character of the signs that can have several characters. -/
def isOperator (c : Char) : Bool := "|=!<>+-*/%".contains c

/-- The sign at the front of a text, and the rest. A minus after the first character belongs to what
follows, so that `1+-1` is a sum. -/
def signOf (first : Char) (cs : List Char) : List Char × List Char :=
  let (more, rest) := cs.span fun c => isOperator c && c != '-'
  (first :: more, rest)

/-- The word at the front of a text, with the module that it is from in front of a double colon, and
the rest. -/
def wordOf (cs : List Char) : List Char × List Char :=
  let (first, rest) := cs.span isInner
  match rest with
  | ':' :: ':' :: rest' =>
    let (mark, rest') := match rest' with
      | '@' :: rest => (['@'], rest)
      | '$' :: rest => (['$'], rest)
      | rest => ([], rest)
    let (name, rest') := rest'.span isInner
    if (name.head?.map isInitial).getD false then (first ++ [':', ':'] ++ mark ++ name, rest')
    else (first, rest)
  | rest => (first, rest)

/-- The text after a comment. A comment ends with its line, unless an odd number of backslashes
stands at the end of the line: then it goes on. -/
def afterComment (escaped : Bool) : List Char → List Char
  | [] => []
  | '\n' :: rest => if escaped then afterComment false rest else rest
  | '\r' :: '\n' :: rest => if escaped then afterComment false rest else rest
  | '\\' :: rest => afterComment (!escaped) rest
  | _ :: rest => afterComment false rest

/-- The number at the front of a text, and the rest. -/
def numberOf? (cs : List Char) : Option (List Char × List Char) := do
  let (whole, rest) := cs.span Char.isDigit
  let (fraction, rest) ← match rest with
    | '.' :: rest' =>
      let (digits, rest) := rest'.span Char.isDigit
      if digits.isEmpty then none else some ('.' :: digits, rest)
    | _ => some ([], rest)
  let exponent (e : Char) (rest' : List Char) : Option (List Char × List Char) :=
    let (mark, rest') := match rest' with
      | '+' :: rest => (['+'], rest)
      | '-' :: rest => (['-'], rest)
      | _ => ([], rest')
    let (digits, rest) := rest'.span Char.isDigit
    if digits.isEmpty then none else some (e :: mark ++ digits, rest)
  let (power, rest) ← match rest with
    | 'e' :: rest' => exponent 'e' rest'
    | 'E' :: rest' => exponent 'E' rest'
    | _ => some ([], rest)
  return (whole ++ fraction ++ power, rest)

/-! ## Scanning -/

/-- A text as a piece, unless it is empty. -/
def pieceOf (reversed : List Char) : List Token :=
  if reversed.isEmpty then [] else [.textPiece (String.ofList reversed.reverse)]

mutual

/-- The tokens of the rest of a filter. `opened` holds, for each text whose term is being read, the
number of parentheses that are open in that term. -/
def scanCode (fuel : Nat) (opened : List Nat) (cs : List Char) : Option (List Token) :=
  match fuel with
  | 0 => none
  | fuel + 1 =>
    match cs with
    | [] => if opened.isEmpty then some [] else none
    | '#' :: rest => scanCode fuel opened (afterComment false rest)
    | '"' :: rest => do return .textStart :: (← scanText fuel opened [] rest)
    | '(' :: rest =>
      let opened := match opened with
        | n :: outer => (n + 1) :: outer
        | [] => []
      do return .sign "(" :: (← scanCode fuel opened rest)
    | ')' :: rest =>
      match opened with
      | 0 :: outer => do return .termEnd :: (← scanText fuel outer [] rest)
      | (n + 1) :: outer => do return .sign ")" :: (← scanCode fuel (n :: outer) rest)
      | [] => do return .sign ")" :: (← scanCode fuel [] rest)
    | '.' :: '.' :: rest => do return .sign ".." :: (← scanCode fuel opened rest)
    | '.' :: c :: rest =>
      if isInitial c then
        let (name, rest) := (c :: rest).span isInner
        do return .field (String.ofList name) :: (← scanCode fuel opened rest)
      else do return .sign "." :: (← scanCode fuel opened (c :: rest))
    | '$' :: c :: rest =>
      if isInitial c then
        let (name, rest) := wordOf (c :: rest)
        do return .var (String.ofList name) :: (← scanCode fuel opened rest)
      else none
    | '@' :: c :: rest =>
      if isInitial c then
        let (name, rest) := (c :: rest).span isInner
        do return .format (String.ofList name) :: (← scanCode fuel opened rest)
      else none
    | c :: rest =>
      if Text.isBlank c then scanCode fuel opened rest
      else if isInitial c then
        let (name, rest) := wordOf (c :: rest)
        do return .word (String.ofList name) :: (← scanCode fuel opened rest)
      else if c.isDigit then do
        let (digits, rest) ← numberOf? (c :: rest)
        return .number (String.ofList digits) :: (← scanCode fuel opened rest)
      else if isOperator c then
        let (mark, rest) := signOf c rest
        do return .sign (String.ofList mark) :: (← scanCode fuel opened rest)
      else if ".:;,?[]\x7b\x7d".contains c then
        do return .sign (String.ofList [c]) :: (← scanCode fuel opened rest)
      else none

/-- The tokens of the rest of a filter from inside a text, with the piece so far in reverse
order. A code in hexadecimal digits has to be that of a character. -/
def scanText (fuel : Nat) (opened : List Nat) (piece : List Char) (cs : List Char) :
    Option (List Token) :=
  match fuel with
  | 0 => none
  | fuel + 1 =>
    match cs with
    | [] => none
    | '"' :: rest => do return pieceOf piece ++ .textEnd :: (← scanCode fuel opened rest)
    | '\\' :: '(' :: rest =>
      do return pieceOf piece ++ .termStart :: (← scanCode fuel (0 :: opened) rest)
    | '\\' :: 'u' :: a :: b :: c :: d :: rest => do
      let code ← Json.hexValue4? a b c d
      if h : code.isValidChar then scanText fuel opened (Char.ofNatAux code h :: piece) rest
      else none
    | '\\' :: e :: rest => do
      let c ← Json.shortEscape? e
      scanText fuel opened (c :: piece) rest
    | c :: rest => scanText fuel opened (c :: piece) rest

end

/-- The tokens of a filter. Every step takes a character. -/
def scan (s : String) : Option (List Token) :=
  let cs := s.toList
  scanCode (cs.length + 1) [] cs

end Token

end WideRow.Filter
