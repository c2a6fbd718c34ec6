import WideRow.Json.Reader

/-!
# What the reader does next

One step of each of the readers: which of them goes on at a character, and with which rest of the
text. The lists of items and members are read in one step up to the next comma or bracket.

Main definitions:
* `FirstCharacter`: how the reading of a value goes on from its first character;
* `bracketed`, with `arrayOf` and `objectOf`: a value in brackets from what is read inside.

Results:
* `firstCharacter`: the first character decides how a value is read;
* `readItems_cases`, `readItem_cases`, `readMembers_cases`, `readMember_cases`: the steps that do not
  end in a break, each with an equation for what is read by it.
-/

namespace WideRow.Json

/-! ## The first character of a value -/

theorem skip_of_not_isSpace {c : Char} (h : isSpace c = false) (rest : List Char) (place : Mark) :
    Cursor.skip ⟨c :: rest, place⟩ = ⟨c :: rest, place⟩ := by
  rw [Cursor.skip, skipSpace, h, if_neg Bool.false_ne_true]

section

variable {depth : Nat} {stop : Mark} {first : Char}

theorem readNode_congr {c c' : Cursor} (h : c.skip = c'.skip) (fuel depth : Nat) :
    readNode (fuel + 1) depth c = readNode (fuel + 1) depth c' := by
  rw [readNode, readNode, h]

/-- The array of the items that have been read, up to its end or to a break. -/
def arrayOf (items : Reading (List Node)) (span : Span) : Node :=
  .array span items.found <|
    match items.stop with
    | .ok _ => none
    | .error b => some b

/-- The object of the members that have been read. -/
def objectOf (members : Reading (List (Key × Node) × Ending)) (span : Span) : Node :=
  .object span members.found.1 members.found.2

/-- A value in brackets, from what has been read inside. -/
def bracketed {α : Type} (node : Reading α → Span → Node) (depth : Nat) (start : Mark)
    (inside : Reading α) : Reading Node :=
  nested depth start inside.stop (node inside)

theorem nested_stop (start : Mark) {c : Cursor} {stop : Except Break Cursor} {node : Span → Node} :
    (nested depth start stop node).stop = .ok c ↔ stop = .ok c := by
  unfold nested
  cases stop with
  | ok c' => dsimp only; split <;> rfl
  | error b => dsimp only; split <;> simp [Reading.broken]

/-- What is found of brackets that are closed goes by where they are closed, not by what follows. -/
theorem bracketed_eq_ok {α : Type} {node : Reading α → Span → Node} {start : Mark}
    {inside : Reading α} {value : Node} {c : Cursor}
    (hnode : ∀ found c c', node ⟨found, .ok c⟩ = node ⟨found, .ok c'⟩)
    (h : bracketed node depth start inside = ⟨value, .ok c⟩) :
    ∃ found, inside = ⟨found, .ok c⟩ ∧ ∀ rest,
      bracketed node depth start ⟨found, .ok ⟨rest, c.place⟩⟩ = ⟨value, .ok ⟨rest, c.place⟩⟩ := by
  obtain ⟨found, stop'⟩ := inside
  obtain rfl : stop' = .ok c := (nested_stop start).1 (congrArg Reading.stop h)
  refine ⟨found, rfl, fun rest => ?_⟩
  unfold bracketed nested at h ⊢
  dsimp only at h ⊢
  rw [hnode found _ c]
  split at h
  · next hdepth =>
    cases h
    rw [if_pos hdepth]
  · next hdepth =>
    cases h
    rw [if_neg hdepth]

/-- How the reading of a value goes on from its first character, whatever follows that. -/
inductive FirstCharacter (depth : Nat) (stop : Mark) : Char → Prop
  | word {first : Char} (word : List Char) (value : Scalar)
    (h : ∀ fuel rest, readNode (fuel + 1) depth ⟨first :: rest, stop⟩ =
      readScalarWord word value stop rest) : FirstCharacter depth stop first
  | string
    (h : ∀ fuel rest, readNode (fuel + 1) depth ⟨'"' :: rest, stop⟩ = readString stop rest) :
    FirstCharacter depth stop '"'
  | number {first : Char}
    (h : ∀ fuel rest, readNode (fuel + 1) depth ⟨first :: rest, stop⟩ =
      readNumber stop (first :: rest)) : FirstCharacter depth stop first
  | array
    (h : ∀ fuel rest, readNode (fuel + 1) depth ⟨'[' :: rest, stop⟩ =
      bracketed arrayOf depth stop (readItems fuel (depth + 1) ⟨rest, stop.next⟩)) :
    FirstCharacter depth stop '['
  | object
    (h : ∀ fuel rest, readNode (fuel + 1) depth ⟨'{' :: rest, stop⟩ =
      bracketed objectOf depth stop (readMembers fuel (depth + 1) ⟨rest, stop.next⟩)) :
    FirstCharacter depth stop '{'
  | other {first : Char} (b : Break)
    (h : ∀ fuel rest, readNode (fuel + 1) depth ⟨first :: rest, stop⟩ = .broken stop b) :
    FirstCharacter depth stop first

theorem firstCharacter (depth : Nat) (stop : Mark) (h : isSpace first = false) :
    FirstCharacter depth stop first := by
  by_cases hn : first = 'n'
  · exact hn ▸ .word _ _ fun _ _ => by rw [readNode]; rfl
  by_cases ht : first = 't'
  · exact ht ▸ .word _ _ fun _ _ => by rw [readNode]; rfl
  by_cases hf : first = 'f'
  · exact hf ▸ .word _ _ fun _ _ => by rw [readNode]; rfl
  by_cases hquote : first = '"'
  · exact hquote ▸ .string fun _ _ => by rw [readNode]; rfl
  by_cases hbracket : first = '['
  · exact hbracket ▸ .array fun _ _ => by rw [readNode]; rfl
  by_cases hbrace : first = '{'
  · exact hbrace ▸ .object fun _ _ => by rw [readNode]; rfl
  have hread : ∀ fuel rest, readNode (fuel + 1) depth ⟨first :: rest, stop⟩ =
      if first = '-' ∨ first.isDigit then readNumber stop (first :: rest)
      else .broken stop (.both .expectedValue (stop.afterByte first)) := by
    intro fuel rest
    rw [readNode, skip_of_not_isSpace h]
    simp
  by_cases hnumber : first = '-' ∨ first.isDigit
  · exact .number fun fuel rest => by rw [hread, if_pos hnumber]
  · exact .other _ fun fuel rest => by rw [hread, if_neg hnumber]

end

/-! ## Items and members -/

section

variable {fuel depth : Nat} {c c₁ : Cursor} {rest rest' : List Char} {stop stop' : Mark}
  {first : Char}

/-- An item in front of others. -/
def consItem (item : Node) (others : Reading (List Node)) : Reading (List Node) :=
  ⟨item :: others.found, others.stop⟩

/-- A member in front of others. -/
def consMember (member : Key × Node) (others : Reading (List (Key × Node) × Ending)) :
    Reading (List (Key × Node) × Ending) :=
  ⟨(member :: others.found.1, others.found.2), others.stop⟩

theorem readItems_close (h : c.skip = ⟨']' :: rest, stop⟩) :
    readItems (fuel + 1) depth c = ⟨[], .ok ⟨rest, stop.next⟩⟩ := by
  rw [readItems, h]
  rfl

theorem readItems_item (h : c.skip = ⟨first :: rest, stop⟩) (hfirst : first ≠ ']') :
    readItems (fuel + 1) depth c = readItem fuel depth ⟨first :: rest, stop⟩ := by
  rw [readItems, h]
  dsimp only
  split
  · next heq => cases heq
  · next heq => exact absurd (List.cons.inj heq).1 hfirst
  · rfl

theorem readItems_cases {c' : Cursor} (h : (readItems (fuel + 1) depth c).stop = .ok c') :
    (∃ rest stop, c.skip = ⟨']' :: rest, stop⟩) ∨
      ∃ first rest stop, c.skip = ⟨first :: rest, stop⟩ ∧ first ≠ ']' := by
  rw [readItems] at h
  cases hskip : c.skip with
  | mk rest stop =>
    rw [hskip] at h
    cases rest with
    | nil => cases h
    | cons first rest =>
      by_cases hfirst : first = ']'
      · exact .inl ⟨rest, stop, by rw [hfirst]⟩
      · exact .inr ⟨first, rest, stop, rfl, hfirst⟩

theorem readItem_close {item : Node} (hitem : readNode fuel depth c = ⟨item, .ok c₁⟩)
    (h : c₁.skip = ⟨']' :: rest, stop⟩) :
    readItem (fuel + 1) depth c = ⟨[item], .ok ⟨rest, stop.next⟩⟩ := by
  rw [readItem, hitem]
  dsimp only
  rw [h]
  rfl

theorem readItem_comma {item : Node} (hitem : readNode fuel depth c = ⟨item, .ok c₁⟩)
    (h : c₁.skip = ⟨',' :: rest, stop⟩)
    (h' : Cursor.skip ⟨rest, stop.next⟩ = ⟨first :: rest', stop'⟩) (hfirst : first ≠ ']') :
    readItem (fuel + 1) depth c = consItem item (readItem fuel depth ⟨first :: rest', stop'⟩) := by
  rw [readItem, hitem]
  dsimp only
  rw [h]
  simp only [h']
  split
  · next heq => cases heq
  · next heq => exact absurd (List.cons.inj heq).1 hfirst
  · rfl

theorem readItem_cases {c' : Cursor} (h : (readItem (fuel + 1) depth c).stop = .ok c') :
    ∃ item c₁, readNode fuel depth c = ⟨item, .ok c₁⟩ ∧
      ((∃ rest stop, c₁.skip = ⟨']' :: rest, stop⟩) ∨
        ∃ rest stop first rest' stop', c₁.skip = ⟨',' :: rest, stop⟩ ∧
          Cursor.skip ⟨rest, stop.next⟩ = ⟨first :: rest', stop'⟩ ∧ first ≠ ']') := by
  rw [readItem] at h
  dsimp only at h
  cases hitem : readNode fuel depth c with
  | mk item stop =>
    rw [hitem] at h
    cases stop with
    | error b => cases h
    | ok c₁ =>
      refine ⟨item, c₁, rfl, ?_⟩
      dsimp only at h
      cases hskip : c₁.skip with
      | mk rest stop =>
        rw [hskip] at h
        dsimp only at h
        split at h
        · cases h
        · exact .inl ⟨_, _, rfl⟩
        · next rest =>
          cases hskip' : Cursor.skip ⟨rest, stop.next⟩ with
          | mk rest' stop' =>
            rw [hskip'] at h
            dsimp only at h
            split at h
            · cases h
            · cases h
            · next hnil hclose =>
              obtain ⟨first, rest', rfl⟩ := List.exists_cons_of_ne_nil hnil
              exact .inr ⟨_, _, first, rest', stop', rfl, hskip', fun hfirst =>
                hclose _ (by rw [hfirst])⟩
        · cases h

theorem readMembers_close (h : c.skip = ⟨'}' :: rest, stop⟩) :
    readMembers (fuel + 1) depth c = ⟨([], .closed), .ok ⟨rest, stop.next⟩⟩ := by
  rw [readMembers, h]
  rfl

theorem readMembers_member (h : c.skip = ⟨'"' :: rest, stop⟩) :
    readMembers (fuel + 1) depth c = readMember fuel depth ⟨rest, stop.next⟩ := by
  rw [readMembers, h]
  rfl

/-- The members of an object end with its brace, by where reading goes on or by what has been found.
Where the fuel runs out only the latter is so. -/
def SeemsClosed (r : Reading (List (Key × Node) × Ending)) : Prop :=
  (∃ c, r.stop = .ok c) ∨ r.found.2 = .closed

theorem not_seemsClosed {r : Reading (List (Key × Node) × Ending)} {b : Break}
    (h : r.stop = .error b) (h' : r.found.2 ≠ .closed) : ¬SeemsClosed r := by
  rintro (⟨c, hc⟩ | hc)
  · rw [h] at hc
    cases hc
  · exact h' hc

theorem readMembers_cases (h : SeemsClosed (readMembers (fuel + 1) depth c)) :
    (∃ rest stop, c.skip = ⟨'}' :: rest, stop⟩) ∨ ∃ rest stop, c.skip = ⟨'"' :: rest, stop⟩ := by
  rw [readMembers] at h
  cases hskip : c.skip with
  | mk rest stop =>
    rw [hskip] at h
    dsimp only at h
    split at h
    · exact absurd h (not_seemsClosed rfl Ending.noConfusion)
    · exact .inl ⟨_, _, rfl⟩
    · exact .inr ⟨_, _, rfl⟩
    · exact absurd h (not_seemsClosed rfl Ending.noConfusion)

/-- The key of a string that a colon follows. -/
def keyBefore (text : HeldText) (colon : Mark) : Key := ⟨text.text, text.flaw, colon⟩

theorem refusedAfter_colon (h : c.skip = ⟨':' :: rest, stop⟩) : refusedAfter c = stop := by
  rw [refusedAfter, h]
  rfl

section

variable {text : HeldText} {c₂ : Cursor} {value : Node} {colon : Mark}

theorem readMember_close (htext : readText .empty c.rest c.place = ⟨text, .ok c₁⟩)
    (hcolon : c₁.skip = ⟨':' :: rest, colon⟩)
    (hvalue : readNode fuel depth ⟨rest, colon.next⟩ = ⟨value, .ok c₂⟩)
    (h : c₂.skip = ⟨'}' :: rest', stop⟩) :
    readMember (fuel + 1) depth c =
      ⟨([(keyBefore text colon, value)], .closed), .ok ⟨rest', stop.next⟩⟩ := by
  rw [readMember, htext]
  dsimp only
  rw [refusedAfter_colon hcolon, hcolon]
  simp only [hvalue, h]
  rfl

theorem readMember_comma {rest'' : List Char} (htext : readText .empty c.rest c.place = ⟨text, .ok c₁⟩)
    (hcolon : c₁.skip = ⟨':' :: rest, colon⟩)
    (hvalue : readNode fuel depth ⟨rest, colon.next⟩ = ⟨value, .ok c₂⟩)
    (h : c₂.skip = ⟨',' :: rest', stop⟩)
    (h' : Cursor.skip ⟨rest', stop.next⟩ = ⟨'"' :: rest'', stop'⟩) :
    readMember (fuel + 1) depth c =
      consMember (keyBefore text colon, value) (readMember fuel depth ⟨rest'', stop'.next⟩) := by
  rw [readMember, htext]
  dsimp only
  rw [refusedAfter_colon hcolon, hcolon]
  simp only [hvalue, h, h']
  rfl

theorem readMember_cases (h : SeemsClosed (readMember (fuel + 1) depth c)) :
    ∃ text c₁ rest colon value c₂, readText .empty c.rest c.place = ⟨text, .ok c₁⟩ ∧
      c₁.skip = ⟨':' :: rest, colon⟩ ∧
      readNode fuel depth ⟨rest, colon.next⟩ = ⟨value, .ok c₂⟩ ∧
      ((∃ rest stop, c₂.skip = ⟨'}' :: rest, stop⟩) ∨
        ∃ rest stop rest' stop', c₂.skip = ⟨',' :: rest, stop⟩ ∧
          Cursor.skip ⟨rest, stop.next⟩ = ⟨'"' :: rest', stop'⟩) := by
  have hbroken : ∀ {members : List (Key × Node)} {b : Break},
      ¬SeemsClosed ⟨(members, .broken b), .error b⟩ :=
    not_seemsClosed rfl Ending.noConfusion
  have hcolonless : ∀ {key : Key} {b : Break}, ¬SeemsClosed ⟨([], .noColon key b), .error b⟩ :=
    not_seemsClosed rfl Ending.noConfusion
  rw [readMember] at h
  dsimp only at h
  cases htext : readText .empty c.rest c.place with
  | mk text stop =>
    rw [htext] at h
    cases stop with
    | error b => exact absurd h hbroken
    | ok c₁ =>
      dsimp only at h
      cases hcolon : c₁.skip with
      | mk rest colon =>
        rw [hcolon] at h
        dsimp only at h
        split at h
        · exact absurd h hcolonless
        · next rest =>
          cases hvalue : readNode fuel depth ⟨rest, colon.next⟩ with
          | mk value stop =>
            rw [hvalue] at h
            cases stop with
            | error b => exact absurd h hbroken
            | ok c₂ =>
              refine ⟨text, c₁, rest, colon, value, c₂, rfl, hcolon, hvalue, ?_⟩
              dsimp only at h
              cases hskip : c₂.skip with
              | mk rest stop =>
                rw [hskip] at h
                dsimp only at h
                split at h
                · exact absurd h hbroken
                · exact .inl ⟨_, _, rfl⟩
                · next rest =>
                  cases hskip' : Cursor.skip ⟨rest, stop.next⟩ with
                  | mk rest' stop' =>
                    rw [hskip'] at h
                    dsimp only at h
                    split at h
                    · exact absurd h hbroken
                    · exact .inr ⟨_, _, _, _, rfl, hskip'⟩
                    · exact absurd h hbroken
                    · exact absurd h hbroken
                · exact absurd h hbroken
        · exact absurd h hcolonless

end

end

end WideRow.Json
