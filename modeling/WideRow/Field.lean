import WideRow.Text.Blank

/-!
# Fields

A field is a name with a type. Both make up its identity, and fields are ordered by name and then
by type, each in the order of code points, which is also the order of their UTF-8 bytes. A set of
fields is the strictly increasing list of its members, so that equal sets are equal values.

Results:
* `Field.lt_trans`, `Field.lt_irrefl`, `Field.lt_trichotomy`: the order is strict and total;
* `FieldSet.mem_insert`, `FieldSet.mem_union`, `FieldSet.mem_inter`: the members of sets;
* `FieldSet.ext`: a set is known by its members.
-/

namespace WideRow

/-! ## Types -/

/-- A type as it is written in the program that is described, without white space around it. -/
structure TypeRef where
  text : String
  deriving DecidableEq, Inhabited

/-- The type of a text, of which the white space at both ends does not matter. -/
def TypeRef.ofText (s : String) : TypeRef := ⟨Text.trim s⟩

/-- The type up to its first type argument, which is the form it has in a class literal. -/
def TypeRef.erasure (t : TypeRef) : String :=
  let cs := t.text.toList
  if '<' ∈ cs then String.ofList (Text.trimEndChars (cs.takeWhile (· != '<'))) else t.text

/-! ## Fields and their order -/

/-- A named field with its type. -/
structure Field where
  name : String
  type : TypeRef
  deriving DecidableEq, Inhabited

/-- The field of a name and the text of a type. -/
def Field.of (name type : String) : Field := ⟨name, .ofText type⟩

/-- The text `name: type`. -/
def Field.text (f : Field) : String := f.name ++ ": " ++ f.type.text

/-- Fields are ordered by name and then by type. -/
def Field.lt (a b : Field) : Prop :=
  a.name < b.name ∨ (a.name = b.name ∧ a.type.text < b.type.text)

instance : LT Field := ⟨Field.lt⟩

instance (a b : Field) : Decidable (a < b) := inferInstanceAs (Decidable (_ ∨ _))

theorem Field.lt_iff {a b : Field} :
    a < b ↔ a.name < b.name ∨ (a.name = b.name ∧ a.type.text < b.type.text) := Iff.rfl

theorem Field.lt_irrefl (a : Field) : ¬ a < a := by
  rintro (h | ⟨-, h⟩) <;> exact String.lt_irrefl _ h

theorem Field.lt_trans {a b c : Field} (hab : a < b) (hbc : b < c) : a < c := by
  rcases hab with h | ⟨hn, ht⟩ <;> rcases hbc with h' | ⟨hn', ht'⟩
  · exact .inl (String.lt_trans h h')
  · exact .inl (hn' ▸ h)
  · exact .inl (hn ▸ h')
  · exact .inr ⟨hn.trans hn', String.lt_trans ht ht'⟩

theorem string_lt_trichotomy (s t : String) : s < t ∨ s = t ∨ t < s := by
  by_cases h : s < t
  · exact .inl h
  · by_cases h' : t < s
    · exact .inr (.inr h')
    · exact .inr (.inl (String.le_antisymm (String.not_lt.1 h') (String.not_lt.1 h)))

theorem Field.lt_trichotomy (a b : Field) : a < b ∨ a = b ∨ b < a := by
  rcases string_lt_trichotomy a.name b.name with h | h | h
  · exact .inl (.inl h)
  · rcases string_lt_trichotomy a.type.text b.type.text with h' | h' | h'
    · exact .inl (.inr ⟨h, h'⟩)
    · refine .inr (.inl ?_)
      obtain ⟨_, ⟨_⟩⟩ := a
      obtain ⟨_, ⟨_⟩⟩ := b
      simp_all
    · exact .inr (.inr (.inr ⟨h.symm, h'⟩))
  · exact .inr (.inr (.inl h))

/-! ## Sets of fields -/

/-- A list of fields is strictly increasing. -/
abbrev StrictlyIncreasing (fields : List Field) : Prop := fields.Pairwise (· < ·)

/-- A set of fields, listed in increasing order. -/
structure FieldSet where
  toList : List Field
  increasing : StrictlyIncreasing toList

namespace FieldSet

instance : DecidableEq FieldSet := fun a b =>
  decidable_of_iff (a.toList = b.toList) (by cases a; cases b; simp)

/-- The set without fields. -/
def empty : FieldSet := ⟨[], .nil⟩

instance : Inhabited FieldSet := ⟨empty⟩

instance : Membership Field FieldSet := ⟨fun s f => f ∈ s.toList⟩

instance (f : Field) (s : FieldSet) : Decidable (f ∈ s) :=
  inferInstanceAs (Decidable (f ∈ s.toList))

theorem mem_def {f : Field} {s : FieldSet} : f ∈ s ↔ f ∈ s.toList := Iff.rfl

/-- A field put at its place in an increasing list. -/
def insertSorted (f : Field) : List Field → List Field
  | [] => [f]
  | g :: rest =>
    if f < g then f :: g :: rest else if f = g then g :: rest else g :: insertSorted f rest

theorem mem_insertSorted {f g : Field} {l : List Field} :
    g ∈ insertSorted f l ↔ g = f ∨ g ∈ l := by
  induction l with
  | nil => simp [insertSorted]
  | cons a l ih =>
    by_cases h : f < a
    · simp [insertSorted, h]
    · by_cases h' : f = a
      · simp [insertSorted, h', Field.lt_irrefl]
      · simp [insertSorted, h, h', ih, or_left_comm]

theorem insertSorted_increasing {f : Field} {l : List Field} (h : StrictlyIncreasing l) :
    StrictlyIncreasing (insertSorted f l) := by
  induction l with
  | nil => simp [insertSorted, StrictlyIncreasing]
  | cons a l ih =>
    obtain ⟨ha, hl⟩ := List.pairwise_cons.1 h
    by_cases hfa : f < a
    · rw [insertSorted, if_pos hfa]
      refine List.pairwise_cons.2 ⟨fun b hb => ?_, h⟩
      rcases List.mem_cons.1 hb with rfl | hb
      · exact hfa
      · exact Field.lt_trans hfa (ha b hb)
    · by_cases heq : f = a
      · rw [insertSorted, if_neg hfa, if_pos heq]
        exact h
      · rw [insertSorted, if_neg hfa, if_neg heq]
        refine List.pairwise_cons.2 ⟨fun b hb => ?_, ih hl⟩
        rcases mem_insertSorted.1 hb with rfl | hb
        · rcases Field.lt_trichotomy b a with h | h | h
          · exact absurd h hfa
          · exact absurd h heq
          · exact h
        · exact ha b hb

/-- A set with one more field. -/
def insert (s : FieldSet) (f : Field) : FieldSet :=
  ⟨insertSorted f s.toList, insertSorted_increasing s.increasing⟩

/-- The set of the fields of a list. -/
def ofList (fields : List Field) : FieldSet := fields.foldl insert empty

/-- The fields of either set. -/
def union (a b : FieldSet) : FieldSet := b.toList.foldl insert a

/-- The fields of both sets. -/
def inter (a b : FieldSet) : FieldSet :=
  ⟨a.toList.filter (· ∈ b), a.increasing.filter _⟩

theorem mem_insert {s : FieldSet} {f g : Field} : g ∈ s.insert f ↔ g = f ∨ g ∈ s :=
  mem_insertSorted

theorem mem_foldl_insert {fields : List Field} {s : FieldSet} {g : Field} :
    g ∈ fields.foldl insert s ↔ g ∈ s ∨ g ∈ fields := by
  induction fields generalizing s with
  | nil => simp
  | cons f fields ih => rw [List.foldl_cons, ih, mem_insert, List.mem_cons]; grind

theorem mem_ofList {fields : List Field} {g : Field} : g ∈ ofList fields ↔ g ∈ fields := by
  rw [ofList, mem_foldl_insert]
  simp [mem_def, empty]

theorem mem_union {a b : FieldSet} {g : Field} : g ∈ a.union b ↔ g ∈ a ∨ g ∈ b :=
  mem_foldl_insert

theorem mem_inter {a b : FieldSet} {g : Field} : g ∈ a.inter b ↔ g ∈ a ∧ g ∈ b := by
  simp [mem_def, inter]

/-- Two increasing lists with the same members are the same list. -/
theorem eq_of_increasing {l m : List Field} (hl : StrictlyIncreasing l)
    (hm : StrictlyIncreasing m) (h : ∀ f, f ∈ l ↔ f ∈ m) : l = m := by
  induction l generalizing m with
  | nil =>
    cases m with
    | nil => rfl
    | cons b m => exact absurd ((h b).2 (by simp)) (by simp)
  | cons a l ih =>
    cases m with
    | nil => exact absurd ((h a).1 (by simp)) (by simp)
    | cons b m =>
      obtain ⟨hal, hl'⟩ := List.pairwise_cons.1 hl
      obtain ⟨hbm, hm'⟩ := List.pairwise_cons.1 hm
      have hab : a = b := by
        rcases List.mem_cons.1 ((h a).1 (by simp)) with e | ha
        · exact e
        · rcases List.mem_cons.1 ((h b).2 (by simp)) with e | hb
          · exact e.symm
          · exact absurd (Field.lt_trans (hbm a ha) (hal b hb)) (Field.lt_irrefl b)
      subst hab
      refine congrArg (a :: ·) (ih hl' hm' fun f => ?_)
      have hf := h f
      simp only [List.mem_cons] at hf
      constructor
      · intro hfl
        exact (hf.1 (.inr hfl)).resolve_left
          fun e => Field.lt_irrefl a (e ▸ hal f hfl)
      · intro hfm
        exact (hf.2 (.inr hfm)).resolve_left
          fun e => Field.lt_irrefl a (e ▸ hbm f hfm)

theorem ext {a b : FieldSet} (h : ∀ f, f ∈ a ↔ f ∈ b) : a = b := by
  obtain ⟨l, hl⟩ := a
  obtain ⟨m, hm⟩ := b
  simpa using eq_of_increasing hl hm h

end FieldSet

end WideRow
