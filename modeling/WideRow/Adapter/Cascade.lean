import WideRow.Adapter.Lines
import WideRow.Field

/-!
# Cascades of tests

The Java statements that make up the two method bodies of an adapter: a cascade of branches, each
with a test, guards against rows that fit a rival, and a last statement that returns or throws.

Main definitions:
* `Cascade.write`: the lines of a cascade.
-/

namespace WideRow

/-! ## Statements -/

/-- The reading of a cell: its position and the class of its value. -/
structure CellRead where
  position : Nat
  className : String
  deriving DecidableEq, Inhabited

/-- The reading of the cell of a field. -/
def CellRead.of (slot : Field × Nat) : CellRead := ⟨slot.2, slot.1.type.erasure⟩

/-- A case of a switch over the positions: the accessor that gives the cell. -/
structure AccessCase where
  position : Nat
  accessor : String
  deriving DecidableEq, Inhabited

/-- The message of an error that is thrown. -/
inductive Thrown where
  /-- a message known beforehand -/
  | message (text : String)
  /-- a message that ends with the class of the component -/
  | componentClass
  deriving DecidableEq, Inhabited

/-- The last statement of a branch. -/
inductive Final where
  | returnNull
  /-- the accessor of `binding` at the index, and nothing at an index without a case -/
  | returnSwitch (binding : String) (cases : List AccessCase)
  | returnNew (className : String) (arguments : List CellRead)
  | throw (thrown : Thrown)
  deriving DecidableEq, Inhabited

/-- The test of a branch. -/
inductive BranchTest where
  /-- the component is of a class; it is bound to a name -/
  | isInstance (className binding : String)
  /-- all of the cells are populated -/
  | populated (cells : List CellRead)
  deriving DecidableEq, Inhabited

/-- A guard of a branch: if all of the cells are populated, it throws. -/
structure Guard where
  cells : List CellRead
  message : String
  deriving DecidableEq, Inhabited

/-- A branch: a test, and what is done if it holds. -/
structure Branch where
  test : BranchTest
  guards : List Guard
  final : Final
  deriving DecidableEq, Inhabited

/-- Branches that are tried in order, and the error if none applies. -/
structure Cascade where
  branches : List Branch
  otherwise : Thrown
  deriving DecidableEq, Inhabited

/-! ## Spelling -/

/-- The expression that reads a cell. -/
def CellRead.text (r : CellRead) : String :=
  "values.getValue(" ++ toString r.position ++ ", " ++ r.className ++ ".class)"

/-- The condition that all of the cells are populated. -/
def populatedText (cells : List CellRead) : String :=
  match cells with
  | [] => "true"
  | cells => String.intercalate " && " (cells.map fun r => r.text ++ " != null")

/-- The condition of a test. -/
def BranchTest.text : BranchTest → String
  | .isInstance className binding => "component instanceof " ++ className ++ " " ++ binding
  | .populated cells => populatedText cells

/-- The expression for the message of an error. -/
def Thrown.expression : Thrown → String
  | .message text => "\"" ++ text ++ "\""
  | .componentClass => "\"Unknown alternative: \" + component.getClass().getName()"

/-- The statement that throws an error. -/
def Thrown.statement (t : Thrown) : String := "throw new AssertionError(" ++ t.expression ++ ");"

/-- A case of a switch. -/
def AccessCase.text (binding : String) (c : AccessCase) : String :=
  "case " ++ toString c.position ++ " -> " ++ binding ++ "." ++ c.accessor ++ "();"

/-- The arguments of a call, with a comma after all but the last. -/
def argumentLines : List CellRead → List String
  | [] => []
  | [r] => [r.text]
  | r :: rest => (r.text ++ ",") :: argumentLines rest

/-! ## Lines -/

/-- The lines of a last statement. -/
def Final.write (w : Lines) : Final → Lines
  | .returnNull => w.line "return null;"
  | .returnSwitch binding cases =>
    let w := (w.line "return switch (index) \x7b").indent
    let w := w.writeAll (fun w c => w.line (AccessCase.text binding c)) cases
    (w.line "default -> null;").dedent.line "\x7d;"
  | .returnNew className [] => w.line ("return new " ++ className ++ "();")
  | .returnNew className arguments =>
    let w := (w.line ("return new " ++ className ++ "(")).indent.indent
    (w.writeAll Lines.line (argumentLines arguments)).dedent.dedent.line ");"
  | .throw thrown => w.line thrown.statement

/-- The lines of a guard. -/
def Guard.write (w : Lines) (g : Guard) : Lines :=
  let w := (w.line ("if (" ++ populatedText g.cells ++ ") \x7b")).indent
  (w.line (Thrown.message g.message).statement).dedent.line "\x7d"

/-- The lines of a branch, of which the first begins with a keyword. -/
def Branch.write (keyword : String) (w : Lines) (b : Branch) : Lines :=
  let w := (w.line (keyword ++ " (" ++ b.test.text ++ ") \x7b")).indent
  (b.final.write (w.writeAll Guard.write b.guards)).dedent

/-- The lines of a cascade. Without branches nothing is left but to throw. -/
def Cascade.write (c : Cascade) : Lines :=
  match c.branches with
  | [] => Lines.empty.line c.otherwise.statement
  | first :: rest =>
    let w := first.write "if" Lines.empty
    let w := w.writeAll (Branch.write "\x7d else if") rest
    ((w.line "\x7d else \x7b").indent.line c.otherwise.statement).dedent.line "\x7d"

end WideRow
