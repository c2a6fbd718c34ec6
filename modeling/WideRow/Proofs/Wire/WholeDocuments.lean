import WideRow.Proofs.Json.Completion
import WideRow.Proofs.Wire.Agreement

/-!
# Whole documents

Descriptions are read from the first value of a text, and what follows it is not looked at: a second
description is dropped without a word, as is anything that is not JSON. The reader of a single value,
which the descriptions of a value come from, does complain about text after it.

Main definitions:
* `IsWholeDocument`: nothing but white space follows the first value of a text.

Results:
* `listOfText_ignores_rest`: the descriptions of a text are those of a document in front, whatever
  follows it;
* `second_description_dropped`: a text with two descriptions of which the second is dropped;
* `isWholeDocument_of_read`: a text of which the only value is read is a whole document.
-/

namespace WideRow

open Json

/-! ## What is decoded is complete -/

theorem ending_of_walkMembers {σ : Type} {step : MemberStep σ} {s s' : σ}
    {members : List (Key × Node)} {ending : Ending}
    (h : walkMembers step s members ending = .ok s') : ending = .closed := by
  induction members generalizing s with
  | nil =>
    cases ending with
    | closed => rfl
    | broken b => cases h
    | noColon key b =>
      rw [walkMembers] at h
      cases hflaw : key.flaw with
      | some flaw =>
        rw [hflaw] at h
        cases h
      | none =>
        rw [hflaw] at h
        obtain ⟨_, -, h⟩ := bind_eq_ok_iff.1 h
        cases h
  | cons member members ih =>
    rw [walkMembers] at h
    cases hflaw : member.1.flaw with
    | some flaw =>
      rw [hflaw] at h
      cases h
    | none =>
      rw [hflaw] at h
      obtain ⟨take, -, h⟩ := bind_eq_ok_iff.1 h
      obtain ⟨s, -, h⟩ := bind_eq_ok_iff.1 h
      exact ih h

theorem ending_of_beyondLast {length : Nat} {rest : List Node} {ending : Option Break}
    (h : beyondLast length rest ending = .ok ()) : ending = none := by
  unfold beyondLast at h
  split at h
  · rfl
  · cases h
  · split at h <;> cases h

theorem isComplete_of_decode {n : Node} {d : Description} (h : Description.decode n = .ok d) :
    n.IsBracketed ∧ n.IsComplete := by
  cases n with
  | scalar | unheld | broken => cases h
  | object span members ending =>
    rw [Description.decode] at h
    obtain ⟨draft, hwalk, -⟩ := bind_eq_ok_iff.1 h
    cases ending_of_walkMembers hwalk
    exact ⟨.object .., .object ..⟩
  | array span items ending =>
    refine ⟨.array .., ?_⟩
    suffices hending : ending = none from hending ▸ .array span items
    cases items with
    | nil =>
      cases ending with
      | none => rfl
      | some b => cases h
    | cons first rest =>
      rw [Description.decode] at h
      obtain ⟨name, -, h⟩ := bind_eq_ok_iff.1 h
      obtain ⟨package, -, h⟩ := bind_eq_ok_iff.1 h
      obtain ⟨closed, -, h⟩ := bind_eq_ok_iff.1 h
      obtain ⟨alternatives, -, h⟩ := bind_eq_ok_iff.1 h
      obtain ⟨_, hend, -⟩ := bind_eq_ok_iff.1 h
      exact ending_of_beyondLast hend

theorem isComplete_of_asItems {α : Type} {decode : Node → Decoded α} {n : Node} {as : List α}
    (h : n.asItems decode = .ok as) : n.IsBracketed ∧ n.IsComplete := by
  cases n with
  | scalar | unheld | broken | object => cases h
  | array span items ending =>
    refine ⟨.array .., ?_⟩
    cases ending with
    | none => exact .array span items
    | some b =>
      obtain ⟨_, -, h⟩ := bind_eq_ok_iff.1 h
      cases h

theorem isComplete_of_holds {n : Node} {v : Value} (h : n.Holds v) : n.IsComplete := by
  rcases h.cases with ⟨span, s, rfl, -⟩ | ⟨span, items, vs, rfl, -, -⟩ |
    ⟨span, members, es, rfl, -, -⟩
  · exact .scalar span s
  · exact .array span items
  · exact .object span members

/-! ## The first value of a text -/

theorem readFirst_ok_of_isComplete {s : String} (h : (Node.read s).IsComplete) :
    ∃ c, (readFirst s).stop = .ok c :=
  readNode_ok_of_isComplete (by dsimp only; omega) h

/-- A text with a value in brackets opens an array iff the value is one. -/
theorem opensArray_iff_of_isBracketed {s : String} (h : (Node.read s).IsBracketed) :
    opensArray s ↔ ∃ span items ending, Node.read s = .array span items ending := by
  obtain ⟨first, rest, stop, hskip, hfirst⟩ := readNode_first_of_isBracketed h
  have hrest : s.toList.dropWhile isSpace = first :: rest := by
    rw [← rest_skipSpace _ .start]
    exact congrArg Cursor.rest hskip
  have hblank : Text.isBlank first = false := by
    rcases hfirst with ⟨rfl, -⟩ | ⟨rfl, -⟩ <;> decide
  rw [opensArray_iff_first hrest hblank]
  rcases hfirst with ⟨rfl, harray⟩ | ⟨rfl, span, members, ending, hobject⟩
  · exact iff_of_true rfl harray
  · refine iff_of_false (by decide) ?_
    rintro ⟨span', items, ending', harray⟩
    cases hobject.symm.trans harray

/-- A value in brackets is read in the same way whatever follows it. -/
theorem readFirst_append {s : String} {c : Cursor} (h : (readFirst s).stop = .ok c)
    (hbracketed : (Node.read s).IsBracketed) :
    ∃ document rest : String, s = document ++ rest ∧
      ∀ tail, readFirst (document ++ tail) = ⟨Node.read s, .ok ⟨tail.toList, c.place⟩⟩ := by
  have hfirst : readFirst s = ⟨Node.read s, .ok c⟩ := by
    rw [Node.read, ← h]
  obtain ⟨front, hs, hfront⟩ := (frontsWith _).node hfirst
  refine ⟨.ofList front, .ofList c.rest, ?_, fun tail => ?_⟩
  · rw [← String.ofList_append, ← hs, String.ofList_toList]
  · rw [readFirst, String.toList_append, String.toList_ofList, List.length_append]
    exact hfront _ tail.toList (by omega) (.inr hbracketed)

/-! ## Descriptions -/

/-- Nothing but white space follows the first value of a text. -/
def IsWholeDocument (s : String) : Prop :=
  ∃ c, (readFirst s).stop = .ok c ∧ ∀ x ∈ c.rest, isSpace x

/-- A text with descriptions is that of a value in brackets, which is complete. -/
theorem isComplete_of_listOfText {s : String} {ds : List Description}
    (h : Description.listOfText s = .ok ds) : (Node.read s).IsBracketed ∧ (Node.read s).IsComplete := by
  rw [Description.listOfText] at h
  split at h
  · exact isComplete_of_asItems h
  · obtain ⟨d, hd, -⟩ := map_eq_ok_iff.1 h
    exact isComplete_of_decode hd

theorem listOfText_congr {s s' : String} (h : (Node.read s).IsBracketed)
    (hread : Node.read s' = Node.read s) : Description.listOfText s' = Description.listOfText s := by
  have hopens : opensArray s' = opensArray s := by
    rw [Bool.eq_iff_iff, opensArray_iff_of_isBracketed h,
      opensArray_iff_of_isBracketed (hread ▸ h), hread]
  rw [Description.listOfText, Description.listOfText, hopens, decodeFirst, decodeFirst, decodeFirst,
    decodeFirst, hread]

/-- For every text with descriptions: it begins with a document, and with any other text behind this
document the descriptions are the same. The text is a whole document only if what stands there is
white space. -/
theorem listOfText_ignores_rest {s : String} {ds : List Description}
    (h : Description.listOfText s = .ok ds) :
    ∃ document rest : String, s = document ++ rest ∧
      ∀ tail, Description.listOfText (document ++ tail) = .ok ds ∧
        (IsWholeDocument (document ++ tail) ↔ ∀ x ∈ tail.toList, isSpace x) := by
  obtain ⟨hbracketed, hcomplete⟩ := isComplete_of_listOfText h
  obtain ⟨c, hc⟩ := readFirst_ok_of_isComplete hcomplete
  obtain ⟨document, rest, hs, hread⟩ := readFirst_append hc hbracketed
  refine ⟨document, rest, hs, fun tail => ⟨?_, ?_⟩⟩
  · have hnode : Node.read (document ++ tail) = Node.read s := by
      rw [Node.read, hread tail]
    rw [listOfText_congr hbracketed hnode, h]
  · rw [IsWholeDocument, hread tail]
    simp

/-- A description, and another one behind it. -/
def twoDescriptions : String := "\x7b\"name\":\"a.B\"\x7d \x7b\"name\":\"a.C\"\x7d"

theorem readFirst_twoDescriptions :
    readFirst twoDescriptions =
      ⟨.object ⟨⟨1, 0⟩, ⟨1, 14⟩⟩
        [(⟨"name", none, ⟨1, 7⟩⟩, .scalar ⟨⟨1, 8⟩, ⟨1, 13⟩⟩ (.string "a.B"))] .closed,
        .ok ⟨" \x7b\"name\":\"a.C\"\x7d".toList, ⟨1, 14⟩⟩⟩ := by
  rw [readFirst_of_toList (s := twoDescriptions) String.toList_ofList, String.toList_ofList]
  with_unfolding_all rfl

theorem listOfText_twoDescriptions :
    Description.listOfText twoDescriptions = .ok [⟨"a.B", none, true, []⟩] := by
  have hopens : opensArray twoDescriptions = false := by
    rw [opensArray, show twoDescriptions.toList = _ from String.toList_ofList]
    rfl
  rw [Description.listOfText, hopens, decodeFirst, decodeFirst, Node.read,
    readFirst_twoDescriptions]
  rfl

theorem listOfText_ignores_rest_second :
    Description.listOfText twoDescriptions = .ok [⟨"a.B", none, true, []⟩] ∧
      ∃ document rest : String, twoDescriptions = document ++ rest ∧
        ∀ tail, Description.listOfText (document ++ tail) = .ok [⟨"a.B", none, true, []⟩] ∧
          (IsWholeDocument (document ++ tail) ↔ ∀ x ∈ tail.toList, isSpace x) :=
  ⟨listOfText_twoDescriptions, listOfText_ignores_rest listOfText_twoDescriptions⟩

/-- The second description is dropped: the text has the first one alone, and is no whole document. -/
theorem second_description_dropped :
    Description.listOfText twoDescriptions = .ok [⟨"a.B", none, true, []⟩] ∧
      ¬IsWholeDocument twoDescriptions := by
  refine ⟨listOfText_twoDescriptions, ?_⟩
  rintro ⟨c, hc, hspace⟩
  rw [readFirst_twoDescriptions] at hc
  cases hc
  exact absurd (hspace '{' (by simp)) (by decide)

/-! ## The reader of a single value -/

theorem textAfter_eq_none_iff {c : Cursor} : textAfter c = none ↔ ∀ x ∈ c.rest, isSpace x := by
  rw [← List.dropWhile_eq_nil_iff, ← rest_skipSpace c.rest c.place, ← Cursor.skip, textAfter]
  cases c.skip.rest with
  | nil => simp
  | cons first rest => simp

/-- A text of which the only value can be read is a whole document. -/
theorem isWholeDocument_of_read {s : String} {v : Value} (h : Value.read s = .ok v) :
    IsWholeDocument s := by
  obtain ⟨hvalue, hwhole⟩ := decodeWhole_eq_ok_iff.1 h
  obtain ⟨w, hheld, -⟩ := map_eq_ok_iff.1 hvalue
  obtain ⟨c, hc⟩ := readFirst_ok_of_isComplete (isComplete_of_holds hheld)
  rw [Node.readWhole, hc] at hwhole
  exact ⟨c, hc, textAfter_eq_none_iff.1 hwhole⟩

end WideRow
