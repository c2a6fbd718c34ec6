import WideRow.Text.Quoted

/-!
# Outlines

A nested value written over several lines, one part a line, each line ending in a comma and each
level indented by four blanks.

Main definitions:
* `Outline.render`: the text of a value.
-/

namespace WideRow.CommandLine

/-- A nested value to be written out. -/
inductive Outline where
  | text (s : String)
  | flag (b : Bool)
  | word (s : String)
  /-- a name with parts in parentheses -/
  | applied (name : String) (parts : List Outline)
  | listed (parts : List Outline)
  | record (name : String) (parts : List (String × Outline))

namespace Outline

/-- The blanks in front of a line. -/
def indentation (level : Nat) : String := String.ofList (List.replicate (4 * level) ' ')

mutual

/-- The text of a value, all lines of which but the first are indented. -/
def renderAt (level : Nat) : Outline → String
  | .text s => Text.quoted s
  | .flag b => if b then "true" else "false"
  | .word s => s
  | .applied name parts =>
    name ++ "(\n" ++ renderParts (level + 1) parts ++ indentation level ++ ")"
  | .listed [] => "[]"
  | .listed (p :: rest) =>
    "[\n" ++ renderParts (level + 1) (p :: rest) ++ indentation level ++ "]"
  | .record name parts =>
    name ++ " \x7b\n" ++ renderFields (level + 1) parts ++ indentation level ++ "\x7d"

/-- The lines of parts. -/
def renderParts (level : Nat) : List Outline → String
  | [] => ""
  | p :: rest => indentation level ++ p.renderAt level ++ ",\n" ++ renderParts level rest

/-- The lines of named parts. -/
def renderFields (level : Nat) : List (String × Outline) → String
  | [] => ""
  | (name, p) :: rest =>
    indentation level ++ name ++ ": " ++ p.renderAt level ++ ",\n" ++ renderFields level rest

end

/-- The text of a value. -/
def render (o : Outline) : String := o.renderAt 0

/-- A value that may be missing. -/
def ofOption : Option Outline → Outline
  | none => .word "None"
  | some o => .applied "Some" [o]

end Outline

end WideRow.CommandLine
