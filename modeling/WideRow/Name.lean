import WideRow.Text.LetterCase

/-!
# Names

Identifiers, dotted paths of identifiers, and what is read off a dotted name: its last segment and
the package it lies in.

Results:
* `isInner_of_mem_identifier`: the characters of an identifier;
* `intercalate_map_segments`, `segments_intercalate`: a text and its segments determine each other;
* `lastSegment_append`: a text without dots after a name goes to its last segment.
-/

namespace WideRow.Name

/-! ## Identifiers -/

/-- A character that can begin an identifier. -/
def isInitial (c : Char) : Bool := c.isAlpha || c == '_' || c == '$'

/-- A character that can stand inside an identifier. -/
def isInner (c : Char) : Bool := isInitial c || c.isDigit

/-- The characters form an identifier. -/
def isIdentifierChars : List Char → Bool
  | [] => false
  | c :: rest => isInitial c && rest.all isInner

/-- A text is an identifier: Latin letters, digits, `_` and `$`, with no digit in front. -/
def isIdentifier (s : String) : Bool := isIdentifierChars s.toList

theorem isInner_of_mem_identifier {w : List Char} (h : isIdentifierChars w) {c : Char}
    (hc : c ∈ w) : isInner c := by
  cases w with
  | nil => cases hc
  | cons a w =>
    obtain ⟨ha, hw⟩ := Bool.and_eq_true_iff.1 h
    rcases List.mem_cons.1 hc with rfl | hc
    · rw [isInner, ha, Bool.true_or]
    · exact List.all_eq_true.1 hw c hc

theorem dot_notMem_identifier {w : List Char} (h : isIdentifierChars w) : '.' ∉ w :=
  fun hdot => absurd (isInner_of_mem_identifier h hdot) (by decide)

/-- The segments of a text between its dots. -/
def segments (s : String) : List (List Char) := s.toList.splitOn '.'

theorem segments_ne_nil (s : String) : segments s ≠ [] := List.splitOn_ne_nil '.' s.toList

theorem intercalate_segments (s : String) : ['.'].intercalate (segments s) = s.toList :=
  List.intercalate_splitOn '.'

theorem intercalate_map_segments (s : String) :
    String.intercalate "." ((segments s).map String.ofList) = s := by
  have hofList : String.toList ∘ String.ofList = id := funext fun _ => String.toList_ofList
  rw [← String.toList_inj, String.toList_intercalate, List.map_map, hofList, List.map_id]
  exact intercalate_segments s

/-- Texts without dots are the segments of the dotted text that they make up. -/
theorem segments_intercalate {parts : List String} (hne : parts ≠ [])
    (hdot : ∀ part ∈ parts, '.' ∉ part.toList) :
    segments (String.intercalate "." parts) = parts.map String.toList := by
  rw [segments, String.toList_intercalate]
  refine List.splitOn_intercalate '.' ?_ (by simpa using hne)
  intro w hw
  obtain ⟨part, hpart, rfl⟩ := List.mem_map.1 hw
  exact hdot part hpart

/-- A text is a dotted path of identifiers. -/
def isQualified (s : String) : Bool := (segments s).all isIdentifierChars

/-- The words of the Java language that cannot name anything, its literals among them. -/
def reservedWords : List String :=
  ["abstract", "assert", "boolean", "break", "byte", "case", "catch", "char", "class", "const",
    "continue", "default", "do", "double", "else", "enum", "extends", "false", "final", "finally",
    "float", "for", "goto", "if", "implements", "import", "instanceof", "int", "interface", "long",
    "native", "new", "null", "package", "private", "protected", "public", "return", "short",
    "static", "strictfp", "super", "switch", "synchronized", "this", "throw", "throws",
    "transient", "true", "try", "void", "volatile", "while", "_"]

/-- A text is a reserved word. -/
def isReserved (s : String) : Bool := reservedWords.contains s

/-! ## Parts of a dotted name -/

/-- The characters after the last dot, or all of them. -/
def lastSegment (cs : List Char) : List Char :=
  (cs.reverse.takeWhile (· != '.')).reverse

/-- The last segment of a dotted name. -/
def simpleName (s : String) : String := String.ofList (lastSegment s.toList)

/-- The characters begin with an upper-case letter. -/
def startsUppercase : List Char → Bool
  | [] => false
  | c :: _ => Text.isUppercase c

/-- The package of a dotted name: the segments before the first one that starts with an upper-case
letter. -/
def inferPackage (s : String) : String :=
  String.intercalate "."
    (((segments s).takeWhile fun seg => !startsUppercase seg).map String.ofList)

/-- What is read back to a character goes past an end without it. -/
theorem takeWhile_reverse_append {stop : Char} (cs : List Char) {added : List Char}
    (h : stop ∉ added) : (cs ++ added).reverse.takeWhile (· != stop) =
      added.reverse ++ cs.reverse.takeWhile (· != stop) := by
  rw [List.reverse_append]
  refine List.takeWhile_append_of_pos fun c hc => bne_iff_ne.2 ?_
  rintro rfl
  exact h (List.mem_reverse.1 hc)

theorem lastSegment_append (cs : List Char) {added : List Char} (h : '.' ∉ added) :
    lastSegment (cs ++ added) = lastSegment cs ++ added := by
  rw [lastSegment, takeWhile_reverse_append cs h, List.reverse_append, List.reverse_reverse,
    lastSegment]

end WideRow.Name
