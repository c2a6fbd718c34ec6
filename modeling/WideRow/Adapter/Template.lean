/-!
# Adapter skeletons

A skeleton is a text with slots, each written as a name between percent signs. It is split once into
literal pieces and slots, so a value that happens to spell a slot is not looked at again. Names may
recur; the package and the three bodies must appear exactly once.

The text is gone through from one percent sign to the next. What a sign and the next one after it
enclose is the name of a slot, or the sign stands for itself.

Main definitions:
* `Template.split`: the pieces of a text;
* `Template.parse`: the skeleton of a text, if its slots are in order;
* `Template.render`: the text with its slots filled;
* `Template.columnOf`: where a slot stands on its line.
-/

namespace WideRow

/-! ## Slots -/

/-- What a skeleton leaves open. -/
inductive Slot where
  | name
  | package
  | sumType
  | embeddableType
  | embeddableTypeContent
  | getPropertyBody
  | instantiateBody
  deriving DecidableEq, Inhabited

namespace Slot

/-- All slots, in the order in which they are checked. -/
def all : List Slot :=
  [.name, .package, .sumType, .embeddableType, .embeddableTypeContent, .getPropertyBody,
    .instantiateBody]

/-- The text that stands for a slot. -/
def placeholder : Slot → String
  | .name => "%NAME%"
  | .package => "%PACKAGE%"
  | .sumType => "%SUM_TYPE%"
  | .embeddableType => "%EMBEDDABLE_TYPE%"
  | .embeddableTypeContent => "%EMBEDDABLE_TYPE_CONTENT%"
  | .getPropertyBody => "%GET_PROPERTY_BODY%"
  | .instantiateBody => "%INSTANTIATE_BODY%"

/-- The slot holds an identifier, which may stand in several places. -/
def repeatable : Slot → Bool
  | .name | .sumType | .embeddableType => true
  | _ => false

/-- The slot that a text stands for. -/
def ofPlaceholder? (s : String) : Option Slot := all.find? fun slot => slot.placeholder == s

theorem placeholder_length_pos (s : Slot) : 0 < s.placeholder.toList.length := by
  cases s <;> decide

end Slot

/-! ## Skeletons -/

/-- A piece of a skeleton. -/
inductive Segment where
  | literal (text : String)
  | slot (s : Slot)
  deriving DecidableEq, Inhabited

/-- A skeleton, split at its slots. -/
structure Template where
  segments : List Segment
  deriving DecidableEq, Inhabited

/-- Why a text is no skeleton. -/
inductive TemplateError where
  | missingSlot (slot : Slot)
  | repeatedSlot (slot : Slot) (count : Nat)
  deriving DecidableEq, Inhabited

/-- The wording of a failure. -/
def TemplateError.message : TemplateError → String
  | .missingSlot slot => "template is missing slot " ++ slot.placeholder
  | .repeatedSlot slot count =>
    "template slot " ++ slot.placeholder ++ " must appear exactly once, found " ++ toString count

namespace Template

/-- A literal piece in front of others. An empty one is left out. -/
def addLiteral (literal : List Char) (segments : List Segment) : List Segment :=
  match literal with
  | [] => segments
  | cs => .literal (String.ofList cs) :: segments

/-- The slot that a percent sign at a position and the next one after it enclose the name of. -/
def slotAt? (cs : List Char) (start : Nat) : Option Slot :=
  ((cs.drop (start + 1)).idxOf? '%').bind fun stop =>
    Slot.ofPlaceholder? (String.ofList ((cs.drop start).take (stop + 2)))

/-- The pieces of what is left of a text. `literal` is what has been passed since the last slot. -/
def split (literal rest : List Char) : List Segment :=
  match _h : rest.idxOf? '%' with
  | none => addLiteral (literal ++ rest) []
  | some start =>
    match slotAt? rest start with
    | some slot =>
      addLiteral (literal ++ rest.take start)
        (.slot slot :: split [] (rest.drop (start + slot.placeholder.toList.length)))
    -- the sign stands for itself, and the next one may begin a placeholder
    | none => split (literal ++ rest.take (start + 1)) (rest.drop (start + 1))
termination_by rest.length
decreasing_by
  all_goals
    obtain ⟨hstart, -⟩ := List.idxOf?_eq_some_iff.1 _h
    rw [List.length_drop]
  · have := slot.placeholder_length_pos
    omega
  · omega

/-- The number of places where a slot stands. -/
def count (t : Template) (slot : Slot) : Nat := t.segments.count (.slot slot)

/-- What is wrong with the number of places of a slot. -/
def flaw? (t : Template) (slot : Slot) : Option TemplateError :=
  let n := t.count slot
  if n = 0 then some (.missingSlot slot)
  else if 1 < n ∧ ¬ slot.repeatable then some (.repeatedSlot slot n)
  else none

/-- The skeleton of a text. -/
def parse (s : String) : Except TemplateError Template :=
  let t : Template := ⟨split [] s.toList⟩
  match Slot.all.findSome? t.flaw? with
  | some e => .error e
  | none => .ok t

/-- The column after a literal that begins at a column, in bytes. -/
def columnAfter (column : Nat) (literal : String) : Nat :=
  let cs := literal.toList
  let last := String.ofList (cs.reverse.takeWhile (· != '\n'))
  if '\n' ∈ cs then last.utf8ByteSize else column + last.utf8ByteSize

/-- The column of the first place of a slot among pieces that begin at a column. The width of other
slots is not known before they are filled and counts as nothing. -/
def columnFrom (slot : Slot) (column : Nat) : List Segment → Nat
  | [] => 0
  | .literal text :: rest => columnFrom slot (columnAfter column text) rest
  | .slot s :: rest => if s = slot then column else columnFrom slot column rest

/-- The column at which a slot stands on its line. -/
def columnOf (t : Template) (slot : Slot) : Nat := columnFrom slot 0 t.segments

end Template

/-! ## Filling in -/

/-- A text for every slot. -/
structure SlotValues where
  name : String
  package : String
  sumType : String
  embeddableType : String
  embeddableTypeContent : String
  getPropertyBody : String
  instantiateBody : String
  deriving Inhabited

/-- The text for a slot. -/
def SlotValues.get (v : SlotValues) : Slot → String
  | .name => v.name
  | .package => v.package
  | .sumType => v.sumType
  | .embeddableType => v.embeddableType
  | .embeddableTypeContent => v.embeddableTypeContent
  | .getPropertyBody => v.getPropertyBody
  | .instantiateBody => v.instantiateBody

/-- The text of a piece. -/
def Segment.fill (values : SlotValues) : Segment → String
  | .literal text => text
  | .slot s => values.get s

/-- The skeleton with its slots filled. -/
def Template.render (t : Template) (values : SlotValues) : String :=
  String.join (t.segments.map (Segment.fill values))

end WideRow
