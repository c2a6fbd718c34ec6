import WideRow.Description.Wire
import WideRow.Proofs.Json.Determined

/-!
# Descriptions of texts and of values

Descriptions are read from a text as it is scanned, or from a value that has been read before. Of a
text in which no object repeats a key both make the same: the decoders go by the values that nodes
hold, and the choice between a list and a single description, made by the first character of the
text in one case and by the kind of the value in the other, comes out the same.

Main definitions:
* `RepeatsNoKey`: no object of a text repeats a key.

Results:
* `determined_description`: descriptions are decoded by the values of their nodes;
* `opensArray_iff`: a text opens an array iff its value is one;
* `listOfText_eq_ok_iff_of_holds`, `text_and_value_agree`: both readers give the same descriptions,
  or none.
-/

namespace WideRow

open Json

/-! ## Decoders -/

theorem determinedStep_alternative : DeterminedStep AlternativeDraft.take := by
  intro draft key key' n v htext h
  rw [AlternativeDraft.take, AlternativeDraft.take, ← htext]
  split
  · exact determined_asString.takeOnce key key' _ _ h
  · show (n.held >>= _).toOption = ((Node.ofValue v).held >>= _).toOption
    rw [h, Node.held_ofValue v, htext]

theorem determined_alternative : Determined AlternativeDescription.decode := by
  intro n v h
  rcases h.cases with ⟨span, s, rfl, rfl⟩ | ⟨span, items, vs, rfl, rfl, -⟩ |
    ⟨span, members, es, rfl, rfl, hmembers⟩
  · cases s <;> rfl
  · rfl
  · rw [Node.ofValue, AlternativeDescription.decode, AlternativeDescription.decode]
    refine toOption_bind_congr (toOption_walkMembers determinedStep_alternative _ hmembers) ?_
    intro draft
    cases draft.name with
    | none => rfl
    | some name => simp only [toOption_bind, toOption_mapError]

theorem determinedStep_description : DeterminedStep DescriptionDraft.take := by
  intro draft key key' n v htext h
  rw [DescriptionDraft.take, DescriptionDraft.take, ← htext]
  split
  · exact determined_asString.takeOnce key key' _ _ h
  · exact determined_asOptionalString.takeOnce key key' _ _ h
  · exact determined_asBool.takeOnce key key' _ _ h
  · exact determined_alternative.asItems.takeOnce key key' _ _ h
  · show (n.pass >>= _).toOption = ((Node.ofValue v).pass >>= _).toOption
    exact toOption_bind_congr (determined_pass n v h) fun _ => rfl

/-- Descriptions are decoded by the values of their nodes. -/
theorem determined_description : Determined Description.decode := by
  intro n v h
  rcases h.cases with ⟨span, s, rfl, rfl⟩ | ⟨span, items, vs, rfl, rfl, hitems⟩ |
    ⟨span, members, es, rfl, rfl, hmembers⟩
  · cases s <;> rfl
  · rw [Node.ofValue, Node.ofItems_eq_map]
    cases hitems with
    | nil => rfl
    | @cons first v rest vs hv hrest =>
      have hname : (within (.index 0) first.asString).toOption =
          (within (.index 0) (Node.ofValue v).asString).toOption := by
        rw [toOption_within, toOption_within, determined_asString _ _ hv]
      rw [List.map_cons, Description.decode, Description.decode]
      refine toOption_bind_congr hname fun name => ?_
      refine determined_asOptionalString.bind_nextOrDefault hrest _ _ fun package rest vs hrest => ?_
      refine determined_asBool.bind_nextOrDefault hrest _ _ fun closed rest vs hrest => ?_
      refine determined_alternative.asItems.bind_nextOrDefault hrest _ _
        fun alternatives rest vs hrest => ?_
      exact toOption_bind_congr (toOption_beyondLast hrest 4) fun _ => rfl
  · rw [Node.ofValue, Description.decode, Description.decode]
    refine toOption_bind_congr (toOption_walkMembers determinedStep_description _ hmembers) ?_
    intro draft
    cases draft.name <;> rfl

/-! ## The choice between a list and a single description -/

theorem isBlank_of_isSpace {c : Char} (h : isSpace c) : Text.isBlank c := by
  simp only [isSpace, Bool.or_eq_true, beq_iff_eq] at h
  rcases h with ((rfl | rfl) | rfl) | rfl <;> decide

theorem isBlank_eq_false_of_isDigit {c : Char} (h : c.isDigit) : Text.isBlank c = false := by
  obtain ⟨hlower, hupper⟩ := Bool.and_eq_true_iff.1 h
  have hlower : 48 ≤ c.toNat := UInt32.le_iff_toNat_le.1 (of_decide_eq_true hlower)
  have hupper : c.toNat ≤ 57 := UInt32.le_iff_toNat_le.1 (of_decide_eq_true hupper)
  simp only [Text.isBlank, Bool.or_eq_false_iff, Bool.and_eq_false_iff, decide_eq_false_iff_not,
    beq_eq_false_iff_ne]
  omega

theorem rest_skipSpace (cs : List Char) (place : Mark) :
    (skipSpace cs place).rest = cs.dropWhile isSpace := by
  induction cs generalizing place with
  | nil => rfl
  | cons c cs ih =>
    rw [skipSpace, List.dropWhile_cons]
    split
    · exact ih _
    · rfl

/-- The first character that is no white space of JSON is the first that is not blank, if it is not
blank. -/
theorem dropWhile_isBlank_eq {cs rest : List Char} {first : Char}
    (h : cs.dropWhile isSpace = first :: rest) (hfirst : Text.isBlank first = false) :
    cs.dropWhile Text.isBlank = first :: rest := by
  induction cs with
  | nil => cases h
  | cons c cs ih =>
    rw [List.dropWhile_cons] at h ⊢
    split at h
    · next hspace =>
      rw [if_pos (isBlank_of_isSpace hspace)]
      exact ih h
    · cases h
      rw [hfirst, if_neg Bool.false_ne_true]

/-- The value is an array. -/
def Json.Value.IsArray (v : Value) : Prop := ∃ items, v = .array items

theorem holds_of_readScalarWord {word rest : List Char} {value : Scalar} {start : Mark} {v : Value}
    (h : (readScalarWord word value start rest).found.Holds v) : v = value.value := by
  rw [readScalarWord] at h
  split at h
  · exact (Except.ok.inj h).symm
  · cases h

theorem holds_of_readString {rest : List Char} {start : Mark} {v : Value}
    (h : (readString start rest).found.Holds v) : ∃ s, v = .string s := by
  rw [readString] at h
  split at h
  · cases h
  · split at h
    · exact ⟨_, (Except.ok.inj h).symm⟩
    · cases h

theorem holds_of_readNumber {rest : List Char} {start : Mark} {v : Value}
    (h : (readNumber start rest).found.Holds v) : ∃ x, v = .number x := by
  rw [readNumber] at h
  split at h
  · cases h
  · split at h
    · exact ⟨_, (Except.ok.inj h).symm⟩
    · cases h

theorem holds_of_nested {depth : Nat} {start : Mark} {stop : Except Break Cursor}
    {node : Span → Node} {v : Value} (h : (nested depth start stop node).found.Holds v) :
    ∃ span, (node span).Holds v := by
  unfold nested at h
  split at h
  all_goals split at h
  all_goals first | exact ⟨_, h⟩ | cases h

/-- The first character of a value that is held is not blank, and is a bracket iff the value is an
array. -/
theorem holds_first {fuel depth : Nat} {c : Cursor} {v : Value}
    (h : (readNode fuel depth c).found.Holds v) :
    ∃ first rest, c.skip.rest = first :: rest ∧ Text.isBlank first = false ∧
      (first = '[' ↔ v.IsArray) := by
  cases fuel with
  | zero =>
    rw [readNode] at h
    cases h
  | succ fuel =>
    rw [readNode] at h
    dsimp only at h
    split at h
    · cases h
    · next rest hrest =>
      cases holds_of_readScalarWord h
      exact ⟨_, _, hrest, by decide, by simp [Value.IsArray, Scalar.value]⟩
    · next rest hrest =>
      cases holds_of_readScalarWord h
      exact ⟨_, _, hrest, by decide, by simp [Value.IsArray, Scalar.value]⟩
    · next rest hrest =>
      cases holds_of_readScalarWord h
      exact ⟨_, _, hrest, by decide, by simp [Value.IsArray, Scalar.value]⟩
    · next rest hrest =>
      obtain ⟨s, rfl⟩ := holds_of_readString h
      exact ⟨_, _, hrest, by decide, by simp [Value.IsArray]⟩
    · next rest hrest =>
      obtain ⟨span, hspan⟩ := holds_of_nested h
      obtain ⟨vs, -, rfl⟩ := map_eq_ok_iff.1 hspan
      exact ⟨_, _, hrest, by decide, by simp [Value.IsArray]⟩
    · next rest hrest =>
      obtain ⟨span, hspan⟩ := holds_of_nested h
      obtain ⟨es, -, rfl⟩ := map_eq_ok_iff.1 hspan
      exact ⟨_, _, hrest, by decide, by simp [Value.IsArray]⟩
    · next first rest hn ht hf hquote hbracket hbrace hrest =>
      split at h
      · next hnumber =>
        obtain ⟨x, rfl⟩ := holds_of_readNumber h
        refine ⟨_, _, hrest, ?_, ?_⟩
        · rcases hnumber with rfl | hdigit
          · decide
          · exact isBlank_eq_false_of_isDigit hdigit
        · exact iff_of_false hbracket (by simp [Value.IsArray])
      · cases h

/-- A text opens an array iff its first character is a bracket, if that is not blank. -/
theorem opensArray_iff_first {s : String} {first : Char} {rest : List Char}
    (hrest : s.toList.dropWhile isSpace = first :: rest) (hblank : Text.isBlank first = false) :
    opensArray s ↔ first = '[' := by
  rw [opensArray, dropWhile_isBlank_eq hrest hblank, List.head?_cons, beq_iff_eq,
    Option.some.injEq]

/-- A text opens an array iff the value that is held of it is one. -/
theorem opensArray_iff {s : String} {v : Value} (h : (Node.read s).Holds v) :
    opensArray s ↔ v.IsArray := by
  obtain ⟨first, rest, hrest, hblank, hfirst⟩ := holds_first h
  rw [Cursor.skip, rest_skipSpace] at hrest
  rw [opensArray_iff_first hrest hblank, hfirst]

/-! ## Both readers -/

/-- Of a text of which a value is held, both readers give the same descriptions, or none. -/
theorem listOfText_eq_ok_iff_of_holds {s : String} {v : Value} (h : (Node.read s).Holds v)
    (ds : List Description) :
    Description.listOfText s = .ok ds ↔ Description.listOfValue v = .ok ds := by
  rw [← toOption_eq_some_iff, ← toOption_eq_some_iff, Description.listOfText]
  by_cases harray : v.IsArray
  · rw [if_pos ((opensArray_iff h).2 harray)]
    obtain ⟨items, rfl⟩ := harray
    exact Eq.congr_left (determined_description.asItems _ _ h)
  · have hvalue : Description.listOfValue v =
        (fun d => [d]) <$> Description.decode (.ofValue v) := by
      cases v with
      | array items => exact absurd ⟨items, rfl⟩ harray
      | _ => rfl
    rw [if_neg fun hopens => harray ((opensArray_iff h).1 hopens), hvalue, toOption_map,
      toOption_map]
    exact Eq.congr_left (congrArg _ (determined_description _ _ h))

theorem decodeWhole_eq_ok_iff {α : Type} {decode : Node → Decoded α} {s : String} {a : α} :
    decodeWhole decode s = .ok a ↔ decode (Node.read s) = .ok a ∧ (Node.readWhole s).2 = none := by
  have hfound : (Node.readWhole s).1 = Node.read s := by
    rw [Node.readWhole, Node.read]
    split <;> rfl
  rw [decodeWhole, ← hfound]
  dsimp only
  cases decode (Node.readWhole s).1 with
  | error f => simp [bind, Except.bind]
  | ok b =>
    cases (Node.readWhole s).2 with
    | none => simp [bind, Except.bind, pure, Except.pure]
    | some complaint => simp [bind, Except.bind, throw, throwThe, MonadExceptOf.throw]

/-- The first value of a text of which the characters are known. -/
theorem readFirst_of_toList {s : String} {cs : List Char} (h : s.toList = cs) :
    readFirst s = readNode (3 * cs.length + 3) 0 ⟨cs, .start⟩ := by
  rw [readFirst, h]

/-- No object of a text repeats a key. -/
def RepeatsNoKey (s : String) : Prop :=
  ∀ v, decodeWhole Node.held s = .ok v → v.KeysDistinct

/-- For every text that is read in full as one value, and in which no object repeats a key: the
descriptions of the text are those of the value, and there are none for the text iff there are none
for the value. -/
theorem text_and_value_agree {s : String} {v : Value} (hread : Value.read s = .ok v)
    (hkeys : RepeatsNoKey s) (ds : List Description) :
    Description.listOfText s = .ok ds ↔ Description.listOfValue v = .ok ds := by
  obtain ⟨hvalue, hwhole⟩ := decodeWhole_eq_ok_iff.1 hread
  obtain ⟨w, hheld, hmerged⟩ := map_eq_ok_iff.1 hvalue
  rw [Value.merged_eq_self (hkeys w (decodeWhole_eq_ok_iff.2 ⟨hheld, hwhole⟩))] at hmerged
  subst hmerged
  exact listOfText_eq_ok_iff_of_holds hheld ds

/-- A list of a description as an array, cut short, and one as an object with an unknown key. -/
def mixedText : String := " [[\"a.R\", null],\n\x7b\"x\":[true],\"name\":\"a.S\"\x7d]"

/-- The value of the text with two descriptions. -/
def mixedValue : Value :=
  .array [.array [.string "a.R", .null],
    .object [("x", .array [.bool true]), ("name", .string "a.S")]]

theorem text_and_value_agree_mixed :
    Value.read mixedText = .ok mixedValue ∧ RepeatsNoKey mixedText ∧
      Description.listOfText mixedText =
        .ok [⟨"a.R", none, true, []⟩, ⟨"a.S", none, true, []⟩] := by
  have hfirst := readFirst_of_toList (s := mixedText) String.toList_ofList
  have hread : Value.read mixedText = .ok mixedValue := by
    rw [Value.read, decodeWhole, Node.readWhole, hfirst]
    with_unfolding_all rfl
  have hheld : decodeWhole Node.held mixedText = .ok mixedValue := by
    rw [decodeWhole, Node.readWhole, hfirst]
    with_unfolding_all rfl
  have hkeys : RepeatsNoKey mixedText := by
    intro v hv
    rw [hheld] at hv
    cases hv
    simp [mixedValue, Value.KeysDistinct, Value.KeysDistinctItems, Value.KeysDistinctMembers]
  exact ⟨hread, hkeys, (text_and_value_agree hread hkeys _).2 rfl⟩

end WideRow
