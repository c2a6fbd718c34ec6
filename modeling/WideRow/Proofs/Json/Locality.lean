import WideRow.Proofs.Json.Fronts
import WideRow.Proofs.Json.Steps

/-!
# Values at the front of a text

The reader of values goes by the front of a text, through all the lists of items and members inside:
where it comes to the end of a value it has looked at nothing behind it, except that a number looks
at the next character. So a value in brackets is read in the same way whatever follows it.

Main definitions:
* `Node.IsBracketed`: the nodes that show by themselves where they end;
* `FrontsWith`: what holds of all the readers, each given some fuel.

Results:
* `FrontsWith.node_succ` and the lemmas beside it: one more step of each of the readers;
* `frontsWith`: all the readers go by the front.
-/

namespace WideRow.Json

/-! ## What each reader goes by -/

/-- A value in brackets, which shows where it ends by itself. -/
inductive Node.IsBracketed : Node → Prop
  | array (span : Span) (items : List Node) (ending : Option Break) :
    IsBracketed (.array span items ending)
  | object (span : Span) (members : List (Key × Node)) (ending : Ending) :
    IsBracketed (.object span members ending)

theorem not_isBracketed_readScalarWord (word : List Char) (value : Scalar) (start : Mark)
    (cs : List Char) : ¬(readScalarWord word value start cs).found.IsBracketed := by
  intro h
  rw [readScalarWord] at h
  split at h <;> cases h

theorem not_isBracketed_readString (start : Mark) (cs : List Char) :
    ¬(readString start cs).found.IsBracketed := by
  intro h
  rw [readString] at h
  split at h
  · cases h
  · split at h <;> cases h

theorem not_isBracketed_readNumber (start : Mark) (cs : List Char) :
    ¬(readNumber start cs).found.IsBracketed := by
  intro h
  rw [readNumber] at h
  split at h
  · cases h
  · split at h <;> cases h

/-- Each of the readers, given some fuel, goes by the front of a text. A value that has no bracket of
its own at the end may need the first character that follows it. -/
structure FrontsWith (fuel : Nat) : Prop where
  node : ∀ {depth cs place value c}, readNode fuel depth ⟨cs, place⟩ = ⟨value, .ok c⟩ →
    ReadsFront (fun fuel cs => readNode fuel depth ⟨cs, place⟩) 0
      (fun rest => SameFirst rest c.rest ∨ value.IsBracketed) cs c value
  items : ∀ {depth cs place items c}, readItems fuel depth ⟨cs, place⟩ = ⟨items, .ok c⟩ →
    ReadsFront (fun fuel cs => readItems fuel depth ⟨cs, place⟩) 2 (fun _ => True) cs c items
  item : ∀ {depth cs place items c}, readItem fuel depth ⟨cs, place⟩ = ⟨items, .ok c⟩ →
    ReadsFront (fun fuel cs => readItem fuel depth ⟨cs, place⟩) 1 (fun _ => True) cs c items
  members : ∀ {depth cs place members c}, readMembers fuel depth ⟨cs, place⟩ = ⟨members, .ok c⟩ →
    ReadsFront (fun fuel cs => readMembers fuel depth ⟨cs, place⟩) 2 (fun _ => True) cs c members
  member : ∀ {depth cs place members c}, readMember fuel depth ⟨cs, place⟩ = ⟨members, .ok c⟩ →
    ReadsFront (fun fuel cs => readMember fuel depth ⟨cs, place⟩) 1 (fun _ => True) cs c members

section

variable {fuel depth : Nat} {cs : List Char} {place : Mark} {c : Cursor} {value : Node}
  {items : List Node} {members : List (Key × Node) × Ending}

/-- A value inside brackets: the comma or bracket behind it is the same. -/
theorem FrontsWith.inner (ih : FrontsWith fuel)
    (h : readNode fuel depth ⟨cs, place⟩ = ⟨value, .ok c⟩) :
    ReadsFront (fun fuel cs => readNode fuel depth ⟨cs, place⟩) 0 (SameFirst · c.rest) cs c value :=
  (ih.node h).mono le_rfl fun _ => .inl

/-- A value is broken off where there is no text or no fuel, and otherwise read from its first
character, as it is with any other text behind that and any fuel. -/
theorem readNode_cases (fuel depth : Nat) (cs : List Char) (place : Mark) :
    (∃ start b, readNode fuel depth ⟨cs, place⟩ = .broken start b) ∨
      ∃ fuel' spaces first rest stop, fuel = fuel' + 1 ∧ cs = spaces ++ first :: rest ∧
        isSpace first = false ∧ Cursor.skip ⟨cs, place⟩ = ⟨first :: rest, stop⟩ ∧
        ∀ fuel rest, readNode (fuel + 1) depth ⟨spaces ++ first :: rest, place⟩ =
          readNode (fuel + 1) depth ⟨first :: rest, stop⟩ := by
  cases fuel with
  | zero => exact .inl ⟨_, _, by rw [readNode]⟩
  | succ fuel =>
    cases hskip : Cursor.skip ⟨cs, place⟩ with
    | mk cs' stop =>
      cases cs' with
      | nil => exact .inl ⟨_, _, by rw [readNode, hskip]⟩
      | cons first rest =>
        obtain ⟨hspace, spaces, hcs, hspaces⟩ := skip_eq_cons hskip
        refine .inr ⟨fuel, spaces, first, rest, stop, rfl, hcs, hspace, rfl, fun fuel rest => ?_⟩
        exact readNode_congr ((hspaces rest).trans (skip_of_not_isSpace hspace rest stop).symm) _ _

theorem readNode_nil_ne_ok (c' : Cursor) : (readNode fuel depth ⟨[], place⟩).stop ≠ .ok c' := by
  intro h
  obtain ⟨start, b, hbroken⟩ | ⟨_, spaces, first, rest, _, -, hnil, -⟩ :=
    readNode_cases fuel depth [] place
  · rw [hbroken] at h
    cases h
  · simp at hnil

theorem readItem_nil_ne_ok (c' : Cursor) : (readItem fuel depth ⟨[], place⟩).stop ≠ .ok c' := by
  intro h
  cases fuel with
  | zero =>
    rw [readItem] at h
    cases h
  | succ fuel =>
    obtain ⟨item, c₁, hitem, -⟩ := readItem_cases h
    exact readNode_nil_ne_ok c₁ (congrArg Reading.stop hitem)

/-- The front of items begins with the first character of the first of them. -/
theorem FrontsWith.item_cons (ih : FrontsWith fuel) {first : Char}
    (h : readItem fuel depth ⟨first :: cs, place⟩ = ⟨items, .ok c⟩) :
    ReadsFront (fun fuel cs => readItem fuel depth ⟨first :: cs, place⟩) 4 (fun _ => True) cs c
      items :=
  (ih.item h).uncons trivial fun _ => readItem_nil_ne_ok

theorem FrontsWith.items_succ (ih : FrontsWith fuel)
    (h : readItems (fuel + 1) depth ⟨cs, place⟩ = ⟨items, .ok c⟩) :
    ReadsFront (fun fuel cs => readItems fuel depth ⟨cs, place⟩) 2 (fun _ => True) cs c items := by
  obtain ⟨rest, stop, hskip⟩ | ⟨first, rest, stop, hskip, hfirst⟩ :=
    readItems_cases (congrArg Reading.stop h)
  · obtain ⟨-, spaces, rfl, hspaces⟩ := skip_eq_cons hskip
    rw [readItems_close hskip] at h
    cases h
    rw [List.append_cons]
    refine (ReadsFront.done rest stop.next).before (spaces ++ [']']) (fun fuel rest => ?_) (by simp)
    exact readItems_close (by simpa using hspaces rest)
  · obtain ⟨-, spaces, rfl, hspaces⟩ := skip_eq_cons hskip
    rw [readItems_item hskip hfirst] at h
    rw [List.append_cons]
    refine (ih.item_cons h).before (spaces ++ [first]) (fun fuel rest => ?_) ?_
    · exact readItems_item (by simpa using hspaces rest) hfirst
    · rw [List.length_append, List.length_singleton]
      omega

theorem FrontsWith.item_succ (ih : FrontsWith fuel)
    (h : readItem (fuel + 1) depth ⟨cs, place⟩ = ⟨items, .ok c⟩) :
    ReadsFront (fun fuel cs => readItem fuel depth ⟨cs, place⟩) 1 (fun _ => True) cs c items := by
  suffices hsucc : ReadsFront (fun fuel cs => readItem (fuel + 1) depth ⟨cs, place⟩) 0
      (fun _ => True) cs c items from
    hsucc.before [] (fun _ _ => rfl) (by simp)
  obtain ⟨item, c₁, hitem, hend⟩ := readItem_cases (congrArg Reading.stop h)
  obtain ⟨rest, stop, hskip⟩ | ⟨rest, stop, first, rest', stop', hskip, hskip', hfirst⟩ := hend
  · obtain ⟨-, spaces, hspace, hspaces⟩ := skip_eq_cons hskip
    rw [readItem_close hitem hskip] at h
    cases h
    rw [List.append_cons] at hspace
    refine (ih.inner hitem).andThen hspace (by simp) (.done rest stop.next)
      (fun fuel cs rest hitem => ?_) (by simp)
    exact readItem_close hitem (by simpa using hspaces rest)
  · obtain ⟨-, spaces, hspace, hspaces⟩ := skip_eq_cons hskip
    obtain ⟨-, spaces', rfl, hspaces'⟩ := skip_eq_cons hskip'
    rw [readItem_comma hitem hskip hskip' hfirst] at h
    cases hitems : readItem fuel depth ⟨first :: rest', stop'⟩ with
    | mk items' stop'' =>
      rw [hitems] at h
      cases h
      have htail := (ih.item_cons hitems).map (g := consItem item) (b := item :: items') fun _ => rfl
      rw [List.append_cons, List.append_cons _ first, ← List.append_assoc] at hspace
      refine (ih.inner hitem).andThen hspace (by simp) htail (fun fuel cs rest hitem => ?_) ?_
      · exact readItem_comma hitem (by simpa using hspaces _) (hspaces' rest) hfirst
      · simp only [List.length_append, List.length_singleton]
        omega

theorem FrontsWith.members_succ (ih : FrontsWith fuel)
    (h : readMembers (fuel + 1) depth ⟨cs, place⟩ = ⟨members, .ok c⟩) :
    ReadsFront (fun fuel cs => readMembers fuel depth ⟨cs, place⟩) 2 (fun _ => True) cs c members := by
  obtain ⟨rest, stop, hskip⟩ | ⟨rest, stop, hskip⟩ :=
    readMembers_cases (.inl ⟨c, congrArg Reading.stop h⟩)
  · obtain ⟨-, spaces, rfl, hspaces⟩ := skip_eq_cons hskip
    rw [readMembers_close hskip] at h
    cases h
    rw [List.append_cons]
    refine (ReadsFront.done rest stop.next).before (spaces ++ ['}']) (fun fuel rest => ?_) (by simp)
    exact readMembers_close (by simpa using hspaces rest)
  · obtain ⟨-, spaces, rfl, hspaces⟩ := skip_eq_cons hskip
    rw [readMembers_member hskip] at h
    rw [List.append_cons]
    refine (ih.member h).before (spaces ++ ['"']) (fun fuel rest => ?_) ?_
    · exact readMembers_member (by simpa using hspaces rest)
    · rw [List.length_append, List.length_singleton]
      omega

theorem FrontsWith.member_succ (ih : FrontsWith fuel)
    (h : readMember (fuel + 1) depth ⟨cs, place⟩ = ⟨members, .ok c⟩) :
    ReadsFront (fun fuel cs => readMember fuel depth ⟨cs, place⟩) 1 (fun _ => True) cs c members := by
  obtain ⟨text, c₁, rest, colon, value, c₂, htext, hcolon, hvalue, hend⟩ :=
    readMember_cases (.inl ⟨c, congrArg Reading.stop h⟩)
  obtain ⟨front, hcs, hfront⟩ := readText_front htext
  obtain ⟨-, spaces, hspace, hspaces⟩ := skip_eq_cons hcolon
  obtain rfl : cs = front ++ spaces ++ [':'] ++ rest := by
    rw [List.append_assoc, List.append_assoc, List.singleton_append, ← hspace]
    exact hcs
  -- The key is passed over first; what is found goes by the value that follows it.
  suffices hkey : ReadsFront
      (fun fuel cs => readMember (fuel + 1) depth ⟨front ++ spaces ++ [':'] ++ cs, place⟩) 0
      (fun _ => True) rest c members from
    hkey.before _ (fun _ _ => rfl) (by omega)
  have htext' : ∀ rest, readText .empty (front ++ spaces ++ [':'] ++ rest) place =
      ⟨text, .ok ⟨spaces ++ ':' :: rest, c₁.place⟩⟩ := fun rest => by
    simpa using hfront (spaces ++ ':' :: rest)
  obtain ⟨rest₂, stop, hskip⟩ | ⟨rest₂, stop, rest₃, stop', hskip, hskip'⟩ := hend
  · obtain ⟨-, spaces₂, hspace₂, hspaces₂⟩ := skip_eq_cons hskip
    rw [readMember_close htext hcolon hvalue hskip] at h
    cases h
    rw [List.append_cons] at hspace₂
    refine (ih.inner hvalue).andThen hspace₂ (by simp) (.done rest₂ stop.next)
      (fun fuel cs rest hvalue => ?_) (by simp)
    exact readMember_close (htext' cs) (hspaces cs) hvalue (by simpa using hspaces₂ rest)
  · obtain ⟨-, spaces₂, hspace₂, hspaces₂⟩ := skip_eq_cons hskip
    obtain ⟨-, spaces₃, rfl, hspaces₃⟩ := skip_eq_cons hskip'
    rw [readMember_comma htext hcolon hvalue hskip hskip'] at h
    cases hmembers : readMember fuel depth ⟨rest₃, stop'.next⟩ with
    | mk members' stop'' =>
      rw [hmembers] at h
      cases h
      have htail := (ih.member hmembers).map (g := consMember (keyBefore text colon, value))
        (b := ((keyBefore text colon, value) :: members'.1, members'.2)) fun _ => rfl
      rw [List.append_cons, List.append_cons _ '"', ← List.append_assoc] at hspace₂
      refine (ih.inner hvalue).andThen hspace₂ (by simp) htail (fun fuel cs rest hvalue => ?_) ?_
      · exact readMember_comma (htext' cs) (hspaces cs) hvalue (by simpa using hspaces₂ _)
          (hspaces₃ rest)
      · simp only [List.length_append, List.length_singleton]
        omega

/-- The front of a value after its first character. -/
theorem FrontsWith.node_first (ih : FrontsWith fuel) {first : Char} {rest : List Char} {stop : Mark}
    (hspace : isSpace first = false)
    (h : readNode (fuel + 1) depth ⟨first :: rest, stop⟩ = ⟨value, .ok c⟩) :
    ReadsFront (fun fuel rest => readNode (fuel + 1) depth ⟨first :: rest, stop⟩) 2
      (fun rest' => SameFirst rest' c.rest ∨ value.IsBracketed) rest c value := by
  cases firstCharacter depth stop hspace with
  | word word value hread =>
    simp only [hread] at h ⊢
    exact (readsFront_scalarWord h _).mono (Nat.zero_le 2) fun _ h => h
  | string hread =>
    simp only [hread] at h ⊢
    exact (readsFront_string h _).mono (Nat.zero_le 2) fun _ h => h
  | number hread =>
    simp only [hread] at h ⊢
    refine (readsFront_number h).mono (Nat.zero_le 2) fun rest' hrest => hrest.resolve_right ?_
    have hnot := not_isBracketed_readNumber stop (first :: rest)
    rwa [h] at hnot
  | array hread =>
    simp only [hread] at h ⊢
    obtain ⟨items, hitems, hnested⟩ := bracketed_eq_ok (fun _ _ _ => rfl) h
    exact ((ih.items hitems).map hnested).mono le_rfl fun _ _ => trivial
  | object hread =>
    simp only [hread] at h ⊢
    obtain ⟨members, hmembers, hnested⟩ := bracketed_eq_ok (fun _ _ _ => rfl) h
    exact ((ih.members hmembers).map hnested).mono le_rfl fun _ _ => trivial
  | other b hread =>
    rw [hread] at h
    cases h

theorem FrontsWith.node_succ (ih : FrontsWith fuel)
    (h : readNode (fuel + 1) depth ⟨cs, place⟩ = ⟨value, .ok c⟩) :
    ReadsFront (fun fuel cs => readNode fuel depth ⟨cs, place⟩) 0
      (fun rest => SameFirst rest c.rest ∨ value.IsBracketed) cs c value := by
  obtain ⟨start, b, hbroken⟩ | ⟨_, spaces, first, rest, stop, -, rfl, hspace, -, hfront⟩ :=
    readNode_cases (fuel + 1) depth cs place
  · rw [hbroken] at h
    cases h
  rw [hfront] at h
  rw [List.append_cons]
  refine (ih.node_first hspace h).before (spaces ++ [first]) (fun fuel rest => ?_) ?_
  · simpa using hfront fuel rest
  · rw [List.length_append, List.length_singleton]
    omega

end

/-- The readers call each other with less fuel, so they are taken together. Without fuel each of them
stops with a break. -/
theorem frontsWith (fuel : Nat) : FrontsWith fuel := by
  induction fuel with
  | zero =>
    constructor <;> intro depth cs place found c h
    · rw [readNode] at h
      cases h
    · rw [readItems] at h
      cases h
    · rw [readItem] at h
      cases h
    · rw [readMembers] at h
      cases h
    · rw [readMember] at h
      cases h
  | succ fuel ih => exact ⟨ih.node_succ, ih.items_succ, ih.item_succ, ih.members_succ, ih.member_succ⟩

end WideRow.Json
