import WideRow.Proofs.Json.Locality

/-!
# Values that are complete

What is found of a value tells whether it has been read up to its end: no scalar is made of half a
word, and brackets that are not closed keep the break. The fuel for a whole text lasts, so that none
of this is due to a lack of it.

Main definitions:
* `Node.IsComplete`: the nodes that have been read up to their end.

Results:
* `readNode_ok_of_isComplete`: after a complete value reading can go on;
* `readNode_first_of_isBracketed`: the opening bracket is the first character of a value in brackets.
-/

namespace WideRow.Json

/-! ## Members -/

section

variable {fuel depth : Nat} {c : Cursor}

/-- With fuel for the whole text, members that end with a brace are read up to it. -/
theorem readMember_ok_of_closed (hfuel : 3 * c.rest.length + 1 ≤ fuel)
    (h : (readMember fuel depth c).found.2 = .closed) :
    ∃ c', (readMember fuel depth c).stop = .ok c' := by
  induction fuel generalizing c with
  | zero => omega
  | succ fuel ih =>
    obtain ⟨text, c₁, rest, colon, value, c₂, htext, hcolon, hvalue, hend⟩ :=
      readMember_cases (.inr h)
    obtain ⟨rest', stop, hskip⟩ | ⟨rest', stop, rest'', stop', hskip, hskip'⟩ := hend
    · rw [readMember_close htext hcolon hvalue hskip]
      exact ⟨_, rfl⟩
    · rw [readMember_comma htext hcolon hvalue hskip hskip'] at h ⊢
      refine ih ?_ h
      obtain ⟨front, hrest, -⟩ := readText_front htext
      obtain ⟨-, spaces, hrest₁, -⟩ := skip_eq_cons hcolon
      obtain ⟨front', hrest', -⟩ := (frontsWith fuel).inner hvalue
      obtain ⟨-, spaces', hrest₂, -⟩ := skip_eq_cons hskip
      obtain ⟨-, spaces'', hrest'', -⟩ := skip_eq_cons hskip'
      rw [hrest, hrest₁, hrest', hrest₂, hrest''] at hfuel
      simp only [List.length_append, List.length_cons] at hfuel
      dsimp only
      omega

theorem readMembers_ok_of_closed (hfuel : 3 * c.rest.length + 2 ≤ fuel)
    (h : (readMembers fuel depth c).found.2 = .closed) :
    ∃ c', (readMembers fuel depth c).stop = .ok c' := by
  cases fuel with
  | zero => omega
  | succ fuel =>
    obtain ⟨rest, stop, hskip⟩ | ⟨rest, stop, hskip⟩ := readMembers_cases (.inr h)
    · rw [readMembers_close hskip]
      exact ⟨_, rfl⟩
    · rw [readMembers_member hskip] at h ⊢
      refine readMember_ok_of_closed ?_ h
      obtain ⟨-, spaces, hrest, -⟩ := skip_eq_cons hskip
      rw [hrest, List.length_append, List.length_cons] at hfuel
      dsimp only
      omega

end

/-! ## Values -/

/-- A value up to its end: a scalar, or brackets with the closing one. -/
inductive Node.IsComplete : Node → Prop
  | scalar (span : Span) (value : Scalar) : IsComplete (.scalar span value)
  | array (span : Span) (items : List Node) : IsComplete (.array span items none)
  | object (span : Span) (members : List (Key × Node)) : IsComplete (.object span members .closed)

section

variable {fuel depth : Nat} {c : Cursor} {start : Mark}

theorem not_isComplete_broken {b : Break} : ¬(Reading.broken start b).found.IsComplete := by
  intro h
  cases h

theorem readScalarWord_ok_of_isComplete {word cs : List Char} {value : Scalar}
    (h : (readScalarWord word value start cs).found.IsComplete) :
    ∃ c, (readScalarWord word value start cs).stop = .ok c := by
  rw [readScalarWord] at h ⊢
  split at h
  · exact ⟨_, rfl⟩
  · exact absurd h not_isComplete_broken

theorem readString_ok_of_isComplete {cs : List Char} (h : (readString start cs).found.IsComplete) :
    ∃ c, (readString start cs).stop = .ok c := by
  rw [readString] at h ⊢
  split at h
  · exact absurd h not_isComplete_broken
  · exact ⟨_, by split <;> rfl⟩

theorem readNumber_ok_of_isComplete {cs : List Char} (h : (readNumber start cs).found.IsComplete) :
    ∃ c, (readNumber start cs).stop = .ok c := by
  rw [readNumber] at h ⊢
  split at h
  · exact absurd h not_isComplete_broken
  · exact ⟨_, by dsimp only; split <;> rfl⟩

theorem bracketed_ok_of_isComplete {α : Type} {node : Reading α → Span → Node} {inside : Reading α}
    (hinside : ∀ span, (node inside span).IsComplete → ∃ c, inside.stop = .ok c)
    (h : (bracketed node depth start inside).found.IsComplete) :
    ∃ c, (bracketed node depth start inside).stop = .ok c := by
  suffices hstop : ∃ c, inside.stop = .ok c from hstop.imp fun _ => (nested_stop start).2
  cases hstop : inside.stop with
  | ok c => exact ⟨c, rfl⟩
  | error b =>
    rw [bracketed, hstop, nested.eq_def] at h
    dsimp only at h
    split at h
    · exact hstop ▸ hinside _ h
    · exact absurd h not_isComplete_broken

theorem items_ok_of_isComplete {items : Reading (List Node)} (span : Span)
    (h : (arrayOf items span).IsComplete) : ∃ c, items.stop = .ok c := by
  cases hstop : items.stop with
  | ok c => exact ⟨c, rfl⟩
  | error b =>
    rw [arrayOf, hstop] at h
    cases h

theorem ending_of_isComplete {members : Reading (List (Key × Node) × Ending)} {span : Span}
    (h : (objectOf members span).IsComplete) : members.found.2 = .closed := by
  rw [objectOf] at h
  generalize members.found.2 = ending at h ⊢
  cases h
  rfl

/-- With fuel for the whole text, a value that is complete is read up to its end. -/
theorem readNode_ok_of_isComplete (hfuel : 3 * c.rest.length + 1 ≤ fuel)
    (h : (readNode fuel depth c).found.IsComplete) : ∃ c', (readNode fuel depth c).stop = .ok c' := by
  obtain ⟨cs, place⟩ := c
  obtain ⟨start, b, hbroken⟩ | ⟨fuel, spaces, first, rest, stop, rfl, rfl, hspace, -, hfront⟩ :=
    readNode_cases fuel depth cs place
  · rw [hbroken] at h
    exact absurd h not_isComplete_broken
  rw [hfront] at h ⊢
  cases firstCharacter depth stop hspace with
  | word word value hread =>
    rw [hread] at h ⊢
    exact readScalarWord_ok_of_isComplete h
  | string hread =>
    rw [hread] at h ⊢
    exact readString_ok_of_isComplete h
  | number hread =>
    rw [hread] at h ⊢
    exact readNumber_ok_of_isComplete h
  | array hread =>
    rw [hread] at h ⊢
    exact bracketed_ok_of_isComplete items_ok_of_isComplete h
  | object hread =>
    rw [hread] at h ⊢
    refine bracketed_ok_of_isComplete (fun span hobject => ?_) h
    refine readMembers_ok_of_closed ?_ (ending_of_isComplete hobject)
    dsimp only at hfuel ⊢
    rw [List.length_append, List.length_cons] at hfuel
    omega
  | other b hread =>
    rw [hread] at h
    exact absurd h not_isComplete_broken

theorem found_of_isBracketed {α : Type} {node : Reading α → Span → Node} {inside : Reading α}
    (h : (bracketed node depth start inside).found.IsBracketed) :
    ∃ span, (bracketed node depth start inside).found = node inside span := by
  unfold bracketed nested at h ⊢
  split at h
  all_goals
    split at h
    · next hdepth => exact ⟨_, by rw [if_pos hdepth]⟩
    · cases h

/-- A value in brackets begins with the opening one. -/
theorem readNode_first_of_isBracketed (h : (readNode fuel depth c).found.IsBracketed) :
    ∃ first rest stop, c.skip = ⟨first :: rest, stop⟩ ∧
      (first = '[' ∧ (∃ span items ending, (readNode fuel depth c).found = .array span items ending) ∨
        first = '{' ∧
          ∃ span members ending, (readNode fuel depth c).found = .object span members ending) := by
  obtain ⟨cs, place⟩ := c
  obtain ⟨start, b, hbroken⟩ | ⟨fuel, spaces, first, rest, stop, rfl, rfl, hspace, hskip, hfront⟩ :=
    readNode_cases fuel depth cs place
  · rw [hbroken] at h
    cases h
  rw [hfront] at h ⊢
  refine ⟨first, rest, stop, hskip, ?_⟩
  cases firstCharacter depth stop hspace with
  | word word value hread =>
    rw [hread] at h
    exact (not_isBracketed_readScalarWord _ _ _ _ h).elim
  | string hread =>
    rw [hread] at h
    exact (not_isBracketed_readString _ _ h).elim
  | number hread =>
    rw [hread] at h
    exact (not_isBracketed_readNumber _ _ h).elim
  | array hread =>
    rw [hread] at h ⊢
    obtain ⟨span, hspan⟩ := found_of_isBracketed h
    exact .inl ⟨rfl, _, _, _, hspan⟩
  | object hread =>
    rw [hread] at h ⊢
    obtain ⟨span, hspan⟩ := found_of_isBracketed h
    exact .inr ⟨rfl, _, _, _, hspan⟩
  | other b hread =>
    rw [hread] at h
    cases h

end

end WideRow.Json
