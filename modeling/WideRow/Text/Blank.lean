/-!
# Blank characters

The white space of Unicode, and texts without it at their ends.

Results:
* `trim_eq_empty_iff`: a text is empty after trimming iff it is all blank.
-/

namespace WideRow.Text

/-- A character is white space. -/
def isBlank (c : Char) : Bool :=
  let code := c.toNat
  (0x9 ≤ code && code ≤ 0xD) || code == 0x20 || code == 0x85 || code == 0xA0 || code == 0x1680 ||
    (0x2000 ≤ code && code ≤ 0x200A) || code == 0x2028 || code == 0x2029 || code == 0x202F ||
    code == 0x205F || code == 0x3000

/-- The characters of a list without the white space at its end. -/
def trimEndChars (cs : List Char) : List Char :=
  (cs.reverse.dropWhile isBlank).reverse

/-- A text without the white space at its end. -/
def trimEnd (s : String) : String :=
  String.ofList (trimEndChars s.toList)

/-- A text without the white space at its two ends. -/
def trim (s : String) : String :=
  String.ofList (trimEndChars (s.toList.dropWhile isBlank))

/-- A text is empty or all white space. -/
def isAllBlank (s : String) : Bool :=
  s.toList.all isBlank

/-! ## Nothing is left exactly of a blank text -/

theorem dropWhile_isBlank_eq_nil_iff (cs : List Char) :
    cs.dropWhile isBlank = [] ↔ ∀ c ∈ cs, isBlank c = true := by
  induction cs with
  | nil => simp
  | cons c cs ih => by_cases h : isBlank c = true <;> simp [h, ih]

theorem trimEndChars_eq_nil_iff (cs : List Char) :
    trimEndChars cs = [] ↔ ∀ c ∈ cs, isBlank c = true := by
  rw [trimEndChars, List.reverse_eq_nil_iff, dropWhile_isBlank_eq_nil_iff]
  simp only [List.mem_reverse]

theorem trim_eq_empty_iff (s : String) : trim s = "" ↔ isAllBlank s = true := by
  rw [trim, String.ofList_eq_empty_iff, trimEndChars_eq_nil_iff, isAllBlank, List.all_eq_true]
  induction s.toList with
  | nil => simp
  | cons c cs ih => by_cases h : isBlank c = true <;> simp [h, ih]

end WideRow.Text
