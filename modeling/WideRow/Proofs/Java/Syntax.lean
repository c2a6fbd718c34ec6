import Mathlib.Data.List.Basic
import WideRow.Proofs.Java.Token

/-!
# Java statements

A reader for the statements and expressions that the bodies of an adapter are written in, after the
grammar of the language: operands, sums, comparisons and conjunctions, calls, constructor calls,
class literals, `instanceof` with a pattern variable, `switch` expressions, conditionals, `return`
and `throw`. A text that needs anything else is refused.

Main definitions:
* `Expression`, `Statement`, and the expressions in them;
* `expression`, `statement`: their readers;
* `read`: the statements of a text.
-/

namespace WideRow.Java

/-! ## Expressions and statements -/

/-- Expressions. -/
inductive Expression where
  | null
  | truth (b : Bool)
  | number (n : Nat)
  | text (content : String)
  | name (x : String)
  | classLiteral (className : String)
  | call (receiver : Expression) (method : String) (arguments : List Expression)
  | create (className : String) (arguments : List Expression)
  | join (left right : Expression)
  | differs (left right : Expression)
  | both (left right : Expression)
  | isInstance (subject : Expression) (className binding : String)
  | choose (subject : Expression) (cases : List (Nat × Expression)) (otherwise : Expression)

/-- Statements. -/
inductive Statement where
  | give (e : Expression)
  | throw (e : Expression)
  | conditional (test : Expression) (body otherwise : List Statement)

/-! ## Parts -/

mutual

/-- The expression with all expressions in it. -/
def Expression.parts : Expression → List Expression
  | .call receiver method arguments =>
    .call receiver method arguments :: (receiver.parts ++ partsOfAll arguments)
  | .create className arguments => .create className arguments :: partsOfAll arguments
  | .join left right => .join left right :: (left.parts ++ right.parts)
  | .differs left right => .differs left right :: (left.parts ++ right.parts)
  | .both left right => .both left right :: (left.parts ++ right.parts)
  | .isInstance subject className binding => .isInstance subject className binding :: subject.parts
  | .choose subject cases otherwise =>
    .choose subject cases otherwise :: (subject.parts ++ partsOfCases cases ++ otherwise.parts)
  | e => [e]

/-- All expressions in several. -/
def partsOfAll : List Expression → List Expression
  | [] => []
  | e :: es => e.parts ++ partsOfAll es

/-- All expressions in the cases of a switch. -/
def partsOfCases : List (Nat × Expression) → List Expression
  | [] => []
  | (_, e) :: cases => e.parts ++ partsOfCases cases

end

mutual

/-- All expressions in a statement. -/
def Statement.parts : Statement → List Expression
  | .give e => e.parts
  | .throw e => e.parts
  | .conditional test body otherwise => test.parts ++ partsOfBlock body ++ partsOfBlock otherwise

/-- All expressions in the statements of a block. -/
def partsOfBlock : List Statement → List Expression
  | [] => []
  | s :: rest => s.parts ++ partsOfBlock rest

end

section

variable {e : Expression}

theorem mem_partsOfAll {es : List Expression} : e ∈ partsOfAll es ↔ ∃ a ∈ es, e ∈ a.parts := by
  induction es with
  | nil => simp [partsOfAll]
  | cons a es ih => rw [partsOfAll, List.mem_append, ih, List.exists_mem_cons_iff]

theorem mem_partsOfCases {cases : List (Nat × Expression)} :
    e ∈ partsOfCases cases ↔ ∃ c ∈ cases, e ∈ c.2.parts := by
  induction cases with
  | nil => simp [partsOfCases]
  | cons c cases ih => rw [partsOfCases, List.mem_append, ih, List.exists_mem_cons_iff]

theorem mem_partsOfBlock {body : List Statement} :
    e ∈ partsOfBlock body ↔ ∃ s ∈ body, e ∈ s.parts := by
  induction body with
  | nil => simp [partsOfBlock]
  | cons s body ih => rw [partsOfBlock, List.mem_append, ih, List.exists_mem_cons_iff]

end

/-- The labels of a switch ascend strictly, so that no two of them are the same. -/
def Expression.LabelsAscend : Expression → Prop
  | .choose _ cases _ => (cases.map Prod.fst).Pairwise (· < ·)
  | _ => True

/-! ## Readers -/

/-- Reads from the front of the tokens, and gives what is left. -/
abbrev Reader (α : Type) := List Token → Option (α × List Token)

/-- Tokens that must come next. -/
def skip : List Token → List Token → Option (List Token)
  | [], ts => some ts
  | u :: us, t :: ts => if t = u then skip us ts else none
  | _ :: _, [] => none

/-- One or more items with a token between them. -/
def separated {α : Type} (separator : Token) (item : Reader α) : Nat → Reader (List α)
  | 0, _ => none
  | n + 1, ts => do
    let (a, ts) ← item ts
    match skip [separator] ts with
    | some ts => do
      let (rest, ts) ← separated separator item n ts
      return (a :: rest, ts)
    | none => return ([a], ts)

/-- Operands of one operator, which groups them from the left. -/
def chain (operator : Token) (apply : Expression → Expression → Expression)
    (item : Reader Expression) : Reader Expression := fun ts =>
  match separated operator item (ts.length + 1) ts with
  | some (e :: rest, ts) => some (rest.foldl apply e, ts)
  | _ => none

/-! ### Names -/

/-- Further words of a dotted name, each after its dot. -/
def furtherWords : List Token → List String × List Token
  | .sign .dot :: .word w :: ts => (w :: (furtherWords ts).1, (furtherWords ts).2)
  | ts => ([], ts)

/-- The words of a dotted name. -/
def path : Reader (List String)
  | .word w :: ts => some (w :: (furtherWords ts).1, (furtherWords ts).2)
  | _ => none

/-- The dotted name of words. -/
def dotted (ws : List String) : String := String.intercalate "." ws

/-- Pairs of brackets. -/
def brackets : List Token → Nat × List Token
  | .sign .openBracket :: .sign .closeBracket :: ts => ((brackets ts).1 + 1, (brackets ts).2)
  | ts => (0, ts)

/-- The dimensions of an array type. -/
def dimensions (n : Nat) : String := String.join (List.replicate n "[]")

/-- A class literal: a dotted name, dimensions, and `class` after a last dot. -/
def classLiteral : Reader String := fun ts => do
  let (ws, ts) ← path ts
  match brackets ts with
  | (0, ts) =>
    if 2 ≤ ws.length ∧ ws.getLast? = some "class" then return (dotted ws.dropLast, ts) else none
  | (n, ts) =>
    let ts ← skip [.sign .dot, .word "class"] ts
    return (dotted ws ++ dimensions n, ts)

/-! ### Expressions -/

section Expressions

variable (item : Reader Expression)

/-- The arguments of a call, after the opening parenthesis. -/
def arguments : Reader (List Expression) := fun ts =>
  match skip [.sign .closeParen] ts with
  | some ts => some ([], ts)
  | none => do
    let (es, ts) ← separated (.sign .comma) item (ts.length + 1) ts
    let ts ← skip [.sign .closeParen] ts
    return (es, ts)

/-- Calls, one after the other, on what has been read. -/
def calls : Nat → Expression → Reader Expression
  | 0, _, _ => none
  | n + 1, e, .sign .dot :: .word method :: .sign .openParen :: ts => do
    let (es, ts) ← arguments item ts
    calls n (.call e method es) ts
  | _ + 1, e, ts => some (e, ts)

/-- A constructor call, after `new`. -/
def creation : Reader Expression := fun ts => do
  let (ws, ts) ← path ts
  let ts ← skip [.sign .openParen] ts
  let (es, ts) ← arguments item ts
  return (.create (dotted ws) es, ts)

/-- The cases of a `switch` expression. -/
def choices : Nat → Reader (List (Nat × Expression))
  | 0, _ => none
  | n + 1, .word "case" :: .number k :: .sign .arrow :: ts => do
    let (e, ts) ← item ts
    let ts ← skip [.sign .semicolon] ts
    let (rest, ts) ← choices n ts
    return ((k, e) :: rest, ts)
  | _ + 1, ts => some ([], ts)

/-- A `switch` expression, after `switch`. -/
def choice : Reader Expression := fun ts => do
  let ts ← skip [.sign .openParen] ts
  let (subject, ts) ← item ts
  let ts ← skip [.sign .closeParen, .sign .openBrace] ts
  let (cases, ts) ← choices item ts.length ts
  let ts ← skip [.word "default", .sign .arrow] ts
  let (otherwise, ts) ← item ts
  let ts ← skip [.sign .semicolon, .sign .closeBrace] ts
  return (.choose subject cases otherwise, ts)

/-- An operand that begins with a word: a keyword says which, and other words are names. -/
def wordOperand (w : String) : Reader Expression := fun ts =>
  match w with
  | "null" => some (.null, ts)
  | "true" => some (.truth true, ts)
  | "false" => some (.truth false, ts)
  | "new" => creation item ts
  | "switch" => choice item ts
  | w => if Name.isReserved w then none else calls item (ts.length + 1) (.name w) ts

/-- An operand. -/
def operand : Reader Expression := fun ts =>
  match classLiteral ts with
  | some (className, ts) => some (.classLiteral className, ts)
  | none =>
    match ts with
    | .number n :: ts => some (.number n, ts)
    | .text content :: ts => some (.text content, ts)
    | .word w :: ts => wordOperand item w ts
    | _ => none

/-- A sum of operands. -/
def sum : Reader Expression := chain (.sign .plus) .join (operand item)

/-- A sum, alone or in a comparison. -/
def comparison : Reader Expression := fun ts => do
  let (e, ts) ← sum item ts
  match ts with
  | .sign .differs :: ts => do
    let (e', ts) ← sum item ts
    return (.differs e e', ts)
  | .word "instanceof" :: ts => do
    let (ws, ts) ← path ts
    match ts with
    | .word x :: ts => if Name.isReserved x then none else some (.isInstance e (dotted ws) x, ts)
    | _ => none
  | ts => some (e, ts)

end Expressions

/-- An expression that is nested at most so many times: a conjunction of comparisons. -/
def expression : Nat → Reader Expression
  | 0 => fun _ => none
  | n + 1 => chain (.sign .and) .both (comparison (expression n))

/-! ### Statements -/

/-- Statements up to a closing brace. -/
def block (item : Reader Statement) : Nat → Reader (List Statement)
  | 0, _ => none
  | _ + 1, .sign .closeBrace :: ts => some ([], ts)
  | n + 1, ts => do
    let (s, ts) ← item ts
    let (rest, ts) ← block item n ts
    return (s :: rest, ts)

/-- What stands after `else`, if there is one: a block or a statement. -/
def elseBranch (item : Reader Statement) : Reader (List Statement)
  | .word "else" :: .sign .openBrace :: ts => block item ts.length ts
  | .word "else" :: ts => do
    let (s, ts) ← item ts
    return ([s], ts)
  | ts => some ([], ts)

/-- A statement that is nested at most so many times. Nothing in a list of tokens is nested deeper
than the list is long. -/
def statement : Nat → Reader Statement
  | 0, _ => none
  | _ + 1, .word "return" :: ts => do
    let (e, ts) ← expression ts.length ts
    let ts ← skip [.sign .semicolon] ts
    return (.give e, ts)
  | _ + 1, .word "throw" :: ts => do
    let (e, ts) ← expression ts.length ts
    let ts ← skip [.sign .semicolon] ts
    return (.throw e, ts)
  | n + 1, .word "if" :: .sign .openParen :: ts => do
    let (test, ts) ← expression ts.length ts
    let ts ← skip [.sign .closeParen, .sign .openBrace] ts
    let (body, ts) ← block (statement n) ts.length ts
    let (otherwise, ts) ← elseBranch (statement n) ts
    return (.conditional test body otherwise, ts)
  | _ + 1, _ => none

/-- The statements of the body of a method. The brace that ends the body stands after the text. A
reserved word is refused as a variable, but it is taken as a word of the dotted name of a class, as
the segments of names of alternatives are not held against the reserved words. -/
def read (s : String) : Option (List Statement) := do
  let ts ← tokens? s
  match block (statement ts.length) (ts.length + 1) (ts ++ [.sign .closeBrace]) with
  | some (body, []) => return body
  | _ => none

end WideRow.Java
