/-!
# Indented lines

Lines of code, written one after the other at a depth of indentation, and the text that they make
on their own or at a place that already stands at some column.

Main definitions:
* `Lines.line`, `Lines.indent`, `Lines.dedent`;
* `Lines.text`, `Lines.textAt`.
-/

namespace WideRow

/-- Lines with the depth of the next one. -/
structure Lines where
  lines : Array String
  depth : Nat
  deriving Inhabited

namespace Lines

/-- No lines. -/
def empty : Lines := ⟨#[], 0⟩

/-- Blanks of a given number. -/
def blanks (n : Nat) : String := String.ofList (List.replicate n ' ')

/-- One more line. An empty line is not indented. -/
def line (w : Lines) (text : String) : Lines :=
  { w with lines := w.lines.push (if text.isEmpty then "" else blanks (4 * w.depth) ++ text) }

/-- Further lines stand one step deeper. -/
def indent (w : Lines) : Lines := { w with depth := w.depth + 1 }

/-- Further lines stand one step less deep. -/
def dedent (w : Lines) : Lines := { w with depth := w.depth - 1 }

/-- Several lines, one after the other. -/
def writeAll {α : Type} (write : Lines → α → Lines) (w : Lines) (items : List α) : Lines :=
  items.foldl write w

/-- The lines with a line end between them. -/
def text (w : Lines) : String := String.intercalate "\n" w.lines.toList

/-- A line that is not the first, at a column. -/
def shifted (column : Nat) (line : String) : String :=
  if line.isEmpty then "\n" else "\n" ++ blanks column ++ line

/-- The lines for a place at a column: those after the first are shifted to it. -/
def textAt (w : Lines) (column : Nat) : String :=
  match w.lines.toList with
  | [] => ""
  | first :: rest => first ++ String.join (rest.map (shifted column))

end Lines

end WideRow
