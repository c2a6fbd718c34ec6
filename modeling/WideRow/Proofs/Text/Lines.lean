import WideRow.Proofs.Text.ByteOrder

/-!
# The lines of a text

A text is what its lines make up with a line end between any two of them, in characters as well as
in bytes. So a text can be shifted to the right or back line by line.

Main definitions:
* `Text.linesOf`: the lines of a text;
* `Text.withoutColumn`: the bytes of a text without the first ones of each line;
* `Text.EndsLine`: nothing stands after the text on its last line.

Results:
* `Text.linesOf_intercalate`: texts without line ends are the lines of the text that they make up;
* `Text.bytes_intercalate`: the bytes of a text are those of its lines.
-/

namespace WideRow.Text

/-! ## Lines -/

/-- The lines of a text: what stands between its line ends. -/
def linesOf (s : String) : List String := (s.toList.splitOn '\n').map String.ofList

/-- The text is empty or ends a line. -/
def EndsLine (s : String) : Prop := s = "" ∨ ∃ line, s = line ++ "\n"

/-- A text with a line end consists of what ends with the last line end and of the line after it. -/
theorem exists_lastLine {s : String} (h : '\n' ∈ s.toList) :
    ∃ above last : String, s = above ++ "\n" ++ last ∧ '\n' ∉ last.toList := by
  obtain ⟨cs, ds, hsplit, hnot⟩ := List.eq_append_cons_of_mem (List.mem_reverse.2 h)
  refine ⟨String.ofList ds.reverse, String.ofList cs.reverse, ?_, by simpa using hnot⟩
  rw [← String.toList_inj, ← List.reverse_reverse s.toList, hsplit]
  simp

theorem linesOf_intercalate {lines : List String} (hne : lines ≠ [])
    (h : ∀ line ∈ lines, '\n' ∉ line.toList) :
    linesOf (String.intercalate "\n" lines) = lines := by
  have hofList : String.ofList ∘ String.toList = id := funext fun _ => String.ofList_toList
  have hsplit : (['\n'].intercalate (lines.map String.toList)).splitOn '\n' =
      lines.map String.toList := by
    apply List.splitOn_intercalate '\n' _ (by simpa using hne)
    intro cs hcs
    obtain ⟨line, hline, rfl⟩ := List.mem_map.1 hcs
    exact h line hline
  unfold linesOf
  rw [String.toList_intercalate]
  show ((['\n'].intercalate (lines.map String.toList)).splitOn '\n').map String.ofList = lines
  rw [hsplit, List.map_map, hofList, List.map_id]

/-- A text whose first line is known, with what comes after it line by line. -/
theorem intercalate_cons (sep first : String) (rest : List String) :
    String.intercalate sep (first :: rest) = first ++ String.join (rest.map (sep ++ ·)) := by
  induction rest generalizing first with
  | nil => simp
  | cons next rest ih =>
    rw [String.intercalate_cons_cons, ih, List.map_cons, String.join_cons]
    simp only [String.append_assoc]

/-- A character of what parts make up is in the separator or in one of the parts. -/
theorem mem_of_mem_intercalate {c : Char} {sep : String} {parts : List String}
    (h : c ∈ (String.intercalate sep parts).toList) :
    c ∈ sep.toList ∨ ∃ part ∈ parts, c ∈ part.toList := by
  induction parts with
  | nil => simp at h
  | cons part rest ih =>
    cases rest with
    | nil =>
      rw [String.intercalate_singleton] at h
      exact .inr ⟨part, List.mem_cons_self, h⟩
    | cons next rest =>
      rw [String.intercalate_cons_cons, String.toList_append, String.toList_append,
        List.mem_append, List.mem_append] at h
      rcases h with (h | h) | h
      · exact .inr ⟨part, List.mem_cons_self, h⟩
      · exact .inl h
      · refine (ih h).imp_right ?_
        rintro ⟨other, hother, hmem⟩
        exact ⟨other, List.mem_cons_of_mem part hother, hmem⟩

/-! ## Bytes -/

theorem bytes_append (s t : String) : bytes (s ++ t) = bytes s ++ bytes t := by
  rw [← String.ofList_toList (s := s), ← String.ofList_toList (s := t), ← String.ofList_append,
    bytes_ofList, bytes_ofList, bytes_ofList, List.flatMap_append]

theorem length_bytes (s : String) : (bytes s).length = s.utf8ByteSize := by
  simp [bytes]

theorem utf8ByteSize_ofList (cs : List Char) :
    (String.ofList cs).utf8ByteSize = (cs.flatMap String.utf8EncodeChar).length := by
  rw [← length_bytes, bytes_ofList]

/-- A text takes as many bytes as its characters in any order. -/
theorem utf8ByteSize_ofList_of_perm {cs ds : List Char} (h : cs.Perm ds) :
    (String.ofList cs).utf8ByteSize = (String.ofList ds).utf8ByteSize := by
  rw [utf8ByteSize_ofList, utf8ByteSize_ofList]
  exact (h.flatMap_right _).length_eq

theorem bytes_intercalate (lines : List String) :
    bytes (String.intercalate "\n" lines) = (bytes "\n").intercalate (lines.map bytes) := by
  induction lines with
  | nil => rfl
  | cons line rest ih =>
    cases rest with
    | nil => simp
    | cons next rest =>
      rw [String.intercalate_cons_cons, bytes_append, bytes_append, ih, List.map_cons,
        List.map_cons, List.map_cons, List.intercalate_cons_cons]

/-- The bytes of a text without the first ones of each line, as many as a column counts. -/
def withoutColumn (column : Nat) (s : String) : List UInt8 :=
  (bytes "\n").intercalate ((linesOf s).map fun line => (bytes line).drop column)

end WideRow.Text
