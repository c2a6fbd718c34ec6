import Mathlib.Logic.Relation
import WideRow.Proofs.Wire.Lookup

/-!
# Keys in another order, and unknown keys

A document says the same if the members of its objects stand in another order, wherever that is, and
if its descriptions, alternatives and fields have further members under keys that they do not use.
Which keys an alternative uses depends on its kind, which is itself a member and may come last: what
stands under the keys of another kind is not looked at.

Main definitions:
* `Place`: what a part of a document stands for;
* `Edit`: one change that should not matter;
* `Agrees`: two values are read alike at a place.

Results:
* `agrees_object`, `agrees_array`: what is read of an object or array if its parts are read alike;
* `Edit.agrees`: no edit changes what is read;
* `rearrangement_irrelevant`: nor does any number of edits of a document.
-/

namespace WideRow

open Json

/-! ## Places -/

/-- What a part of a document stands for. -/
inductive Place where
  | descriptions
  | description
  | alternatives
  | alternative
  | fields
  | field
  /-- a text, a truth value, a kind, or what is not looked at -/
  | other

/-- The kind that the members of an alternative give. -/
def kindOf (ms : Members) : Option ShapeKind :=
  (ms.get? "kind").bind fun v => (ShapeKind.ofHeld v).toOption

namespace Place

/-- What the value of a key stands for, in an object. -/
def member (p : Place) (ms : Members) (key : String) : Place :=
  match p with
  | .description => if key = "alternatives" then .alternatives else .other
  | .alternative =>
    match kindOf ms with
    | some .record => if key = "fields" then .fields else .other
    | some .sum => if key = "alternatives" then .alternatives else .other
    | _ => .other
  | _ => .other

/-- What an item stands for, in an array. An array may stand for a description or for a field. -/
def item (p : Place) (index : Nat) : Place :=
  match p with
  | .descriptions => .description
  | .description => if index = 3 then .alternatives else .other
  | .alternatives => .alternative
  | .fields => .field
  | _ => .other

/-- The place is a description, an alternative or a field, and the key is not used there. -/
def Ignores (p : Place) (ms : Members) (key : String) : Prop :=
  match p with
  | .description => key ∉ ["name", "package", "closed", "alternatives"]
  | .alternative =>
    key ∉ ["name", "kind"] ∧ (key = "fields" → kindOf ms ≠ some .record) ∧
      (key = "alternatives" → kindOf ms ≠ some .sum)
  | .field => key ∉ ["name", "type"]
  | _ => False

end Place

/-- A document is a list of descriptions if it is an array, and a description otherwise. -/
def Json.Value.place : Value → Place
  | .array _ => .descriptions
  | _ => .description

/-! ## Edits -/

/-- One change of a value at a place: the members of an object are reordered, or there is one more
under a key that is not used, or a member or an item is changed in this way. -/
inductive Edit : Place → Value → Value → Prop
  | reorder {p : Place} {ms ms' : Members} : ms'.Perm ms → Edit p (.object ms) (.object ms')
  | add {p : Place} {ms : Members} {key : String} {v : Value} :
      p.Ignores ms key → key ∉ ms.map Prod.fst → v.KeysDistinct →
      Edit p (.object ms) (.object (ms ++ [(key, v)]))
  | member {p : Place} {before after : Members} {key : String} {v v' : Value} :
      Edit (p.member (before ++ (key, v) :: after) key) v v' →
      Edit p (.object (before ++ (key, v) :: after)) (.object (before ++ (key, v') :: after))
  | item {p : Place} {before after : List Value} {v v' : Value} :
      Edit (p.item before.length) v v' →
      Edit p (.array (before ++ v :: after)) (.array (before ++ v' :: after))

section Keys

variable {p : Place} {v v' : Value}

/-- Edits keep the keys of all objects distinct. -/
theorem Edit.keysDistinct (h : Edit p v v') (hv : v.KeysDistinct) : v'.KeysDistinct := by
  induction h with
  | reorder hperm =>
    rw [Value.KeysDistinct, Value.keysDistinctMembers_iff] at hv ⊢
    refine ⟨(hperm.map _).nodup_iff.2 hv.1, ?_⟩
    intro m hm
    exact hv.2 m (hperm.mem_iff.1 hm)
  | add _ hnew hadded =>
    rw [Value.KeysDistinct, Value.keysDistinctMembers_iff] at hv ⊢
    rw [List.map_append, List.map_singleton, ← List.concat_eq_append, List.nodup_concat,
      List.forall_mem_append, List.forall_mem_singleton]
    exact ⟨⟨hnew, hv.1⟩, hv.2, hadded⟩
  | member _ ih =>
    rw [Value.KeysDistinct, Value.keysDistinctMembers_iff, List.forall_mem_append,
      List.forall_mem_cons] at hv ⊢
    obtain ⟨hkeys, hbefore, hold, hafter⟩ := hv
    rw [List.map_append, List.map_cons] at hkeys ⊢
    exact ⟨hkeys, hbefore, ih hold, hafter⟩
  | item _ ih =>
    rw [Value.KeysDistinct, Value.keysDistinctItems_iff, List.forall_mem_append,
      List.forall_mem_cons] at hv ⊢
    obtain ⟨hbefore, hold, hafter⟩ := hv
    exact ⟨hbefore, ih hold, hafter⟩

end Keys

/-! ## Values that are read alike -/

/-- The value is an array or an object. -/
def Json.Value.IsNested : Value → Prop
  | .array _ => True
  | .object _ => True
  | _ => False

/-- The values are read alike at a place. Where arrays and objects are not read at all, they are read
alike. -/
def Agrees : Place → Value → Value → Prop
  | .descriptions, v, v' =>
    (Description.decodeList (.ofValue v')).toOption = (Description.decodeList (.ofValue v)).toOption
  | .description, v, v' =>
    (Description.decode (.ofValue v')).toOption = (Description.decode (.ofValue v)).toOption
  | .alternatives, v, v' => alternativesOf v' = alternativesOf v
  | .alternative, v, v' => (Shape.ofHeld v').toOption = (Shape.ofHeld v).toOption
  | .fields, v, v' => fieldsOf v' = fieldsOf v
  | .field, v, v' => (FieldDescription.ofHeld v').toOption = (FieldDescription.ofHeld v).toOption
  | .other, v, v' => v.IsNested ∧ v'.IsNested

/-- The same value has been found twice, or there are two values that are read alike. -/
inductive SameUse (p : Place) : Option Value → Option Value → Prop
  | same (x : Option Value) : SameUse p x x
  | edited {v v' : Value} : Agrees p v v' → SameUse p (some v) (some v')

namespace SameUse

variable {α : Type} {p : Place} {x x' : Option Value} {read : Value → Option α}

theorem bind_eq (h : SameUse p x x') (hread : ∀ v v', Agrees p v v' → read v' = read v) :
    x'.bind read = x.bind read := by
  cases h with
  | same => rfl
  | edited hv => exact hread _ _ hv

theorem orDefault_eq (h : SameUse p x x') (hread : ∀ v v', Agrees p v v' → read v' = read v)
    (default : α) : orDefault read default x' = orDefault read default x := by
  cases h with
  | same => rfl
  | edited hv => exact hread _ _ hv

end SameUse

/-- Who reads scalars reads no array and no object. -/
theorem read_eq_of_nested {α : Type} {read : Value → Option α}
    (hread : ∀ v : Value, v.IsNested → read v = none) (v v' : Value) (h : Agrees .other v v') :
    read v' = read v := by
  rw [hread v h.1, hread v' h.2]

theorem textOf_of_isNested (v : Value) (h : v.IsNested) : textOf v = none := by
  cases v with
  | array | object => rfl
  | _ => cases h

theorem optionalTextOf_of_isNested (v : Value) (h : v.IsNested) : optionalTextOf v = none := by
  cases v with
  | array | object => rfl
  | _ => cases h

theorem truthOf_of_isNested (v : Value) (h : v.IsNested) : truthOf v = none := by
  cases v with
  | array | object => rfl
  | _ => cases h

theorem kind_of_isNested (v : Value) (h : v.IsNested) : (ShapeKind.ofHeld v).toOption = none := by
  cases v with
  | array | object => rfl
  | _ => cases h

section Congruence

variable {name name' package package' closed closed' alternatives alternatives' : Option Value}

theorem describe_eq (hname : SameUse .other name name') (hpackage : SameUse .other package package')
    (hclosed : SameUse .other closed closed')
    (halternatives : SameUse .alternatives alternatives alternatives') :
    describe name' package' closed' alternatives' = describe name package closed alternatives := by
  unfold describe
  rw [hname.bind_eq (read_eq_of_nested textOf_of_isNested),
    hpackage.orDefault_eq (read_eq_of_nested optionalTextOf_of_isNested),
    hclosed.orDefault_eq (read_eq_of_nested truthOf_of_isNested),
    halternatives.orDefault_eq fun _ _ h => h]

theorem describeField_eq {type type' : Option Value} (hname : SameUse .other name name')
    (htype : SameUse .other type type') : describeField name' type' = describeField name type := by
  unfold describeField
  rw [hname.bind_eq (read_eq_of_nested textOf_of_isNested),
    htype.bind_eq (read_eq_of_nested textOf_of_isNested)]

end Congruence

/-! ## Objects -/

section Objects

variable {ms ms' : Members}

theorem agrees_description_object (hms : (ms.map Prod.fst).Nodup)
    (hms' : (ms'.map Prod.fst).Nodup)
    (h : ∀ key, ¬ Place.description.Ignores ms key →
      SameUse (Place.description.member ms key) (ms.get? key) (ms'.get? key)) :
    Agrees .description (.object ms) (.object ms') := by
  rw [Agrees, toOption_description_object hms, toOption_description_object hms']
  apply describe_eq
  · exact h "name" (by simp [Place.Ignores])
  · exact h "package" (by simp [Place.Ignores])
  · exact h "closed" (by simp [Place.Ignores])
  · exact h "alternatives" (by simp [Place.Ignores])

theorem member_alternative_eq_other {key : String} (hfields : key ≠ "fields")
    (halternatives : key ≠ "alternatives") : Place.alternative.member ms key = .other := by
  simp only [Place.member, if_neg hfields, if_neg halternatives]
  split <;> rfl

/-- A shape is that of its kind, and of the fields or the alternatives as the kind has it. -/
theorem describeShape_eq
    (h : ∀ key, ¬ Place.alternative.Ignores ms key →
      SameUse (Place.alternative.member ms key) (ms.get? key) (ms'.get? key)) :
    describeShape (ms'.get? "kind") (ms'.get? "fields") (ms'.get? "alternatives") =
      describeShape (ms.get? "kind") (ms.get? "fields") (ms.get? "alternatives") := by
  have hkind := h "kind" (by simp [Place.Ignores])
  rw [member_alternative_eq_other (by decide) (by decide)] at hkind
  unfold describeShape
  rw [hkind.bind_eq (read_eq_of_nested kind_of_isNested)]
  show kindOf ms >>= _ = kindOf ms >>= _
  cases hk : kindOf ms with
  | none => rfl
  | some kind =>
    cases kind with
    | record =>
      have hfields := h "fields" (by simp [Place.Ignores, hk])
      rw [Place.member, hk] at hfields
      show (orDefault fieldsOf [] _ >>= _) = (orDefault fieldsOf [] _ >>= _)
      rw [hfields.orDefault_eq fun _ _ h => h]
    | sum =>
      have halternatives := h "alternatives" (by simp [Place.Ignores, hk])
      rw [Place.member, hk] at halternatives
      show (orDefault alternativesOf [] _ >>= _) = (orDefault alternativesOf [] _ >>= _)
      rw [halternatives.orDefault_eq fun _ _ h => h]
    | other => rfl

theorem agrees_alternative_object (hms : (ms.map Prod.fst).Nodup)
    (hms' : (ms'.map Prod.fst).Nodup)
    (h : ∀ key, ¬ Place.alternative.Ignores ms key →
      SameUse (Place.alternative.member ms key) (ms.get? key) (ms'.get? key)) :
    Agrees .alternative (.object ms) (.object ms') := by
  have hname := h "name" (by simp [Place.Ignores])
  rw [member_alternative_eq_other (by decide) (by decide)] at hname
  rw [Agrees, toOption_alternative_object hms, toOption_alternative_object hms',
    describeShape_eq h, hname.bind_eq (read_eq_of_nested textOf_of_isNested)]

theorem agrees_field_object (hms : (ms.map Prod.fst).Nodup) (hms' : (ms'.map Prod.fst).Nodup)
    (h : ∀ key, ¬ Place.field.Ignores ms key →
      SameUse (Place.field.member ms key) (ms.get? key) (ms'.get? key)) :
    Agrees .field (.object ms) (.object ms') := by
  rw [Agrees, toOption_field_object hms, toOption_field_object hms']
  apply describeField_eq
  · exact h "name" (by simp [Place.Ignores])
  · exact h "type" (by simp [Place.Ignores])

/-- Objects are read alike if what stands under the keys in use is. -/
theorem agrees_object (p : Place) (hms : (ms.map Prod.fst).Nodup) (hms' : (ms'.map Prod.fst).Nodup)
    (h : ∀ key, ¬ p.Ignores ms key → SameUse (p.member ms key) (ms.get? key) (ms'.get? key)) :
    Agrees p (.object ms) (.object ms') := by
  cases p with
  | description => exact agrees_description_object hms hms' h
  | alternative => exact agrees_alternative_object hms hms' h
  | field => exact agrees_field_object hms hms' h
  | descriptions | alternatives | fields => rfl
  | other => exact ⟨trivial, trivial⟩

end Objects

/-! ## Arrays -/

section Arrays

variable {before after : List Value} {v v' : Value}

theorem mapM_edited {α : Type} {read : Value → Option α} (h : read v' = read v) :
    (before ++ v' :: after).mapM read = (before ++ v :: after).mapM read := by
  rw [List.mapM_append, List.mapM_append, List.mapM_cons, List.mapM_cons, h]

theorem sameUse_getElem? {p : Place} (h : Agrees (p.item before.length) v v') (after : List Value)
    (index : Nat) :
    SameUse (p.item index) (before ++ v :: after)[index]? (before ++ v' :: after)[index]? := by
  rcases Nat.lt_trichotomy index before.length with hlt | rfl | hgt
  · rw [List.getElem?_append_left hlt, List.getElem?_append_left hlt]
    exact .same _
  · rw [List.getElem?_append_right (Nat.le_refl _), List.getElem?_append_right (Nat.le_refl _),
      Nat.sub_self, List.getElem?_cons_zero, List.getElem?_cons_zero]
    exact .edited h
  · obtain ⟨further, rfl⟩ := Nat.exists_eq_add_of_lt hgt
    rw [List.getElem?_append_right (by omega), List.getElem?_append_right (by omega),
      Nat.add_assoc, Nat.add_sub_cancel_left, List.getElem?_cons_succ, List.getElem?_cons_succ]
    exact .same _

/-- Arrays are read alike if they differ in one item, and that is read alike. -/
theorem agrees_array (p : Place) (h : Agrees (p.item before.length) v v') :
    Agrees p (.array (before ++ v :: after)) (.array (before ++ v' :: after)) := by
  have hlength : (before ++ v' :: after).length = (before ++ v :: after).length := by
    simp
  cases p with
  | descriptions =>
    have hlist : ∀ items : List Value, (Description.decodeList (.ofValue (.array items))).toOption =
        items.mapM fun v => (Description.decode (.ofValue v)).toOption :=
      toOption_asItems fun _ => rfl
    rw [Agrees, hlist, hlist]
    exact mapM_edited h
  | description =>
    have hitem := sameUse_getElem? h after
    rw [Agrees, toOption_description_array, toOption_description_array, hlength,
      describe_eq (hitem 0) (hitem 1) (hitem 2) (hitem 3)]
  | alternatives => exact mapM_edited h
  | alternative =>
    rw [Agrees, Shape.ofHeld.eq_def, Shape.ofHeld.eq_def]
    rfl
  | fields => exact mapM_edited h
  | field =>
    have hitem := sameUse_getElem? h after
    rw [Agrees, toOption_field_array, toOption_field_array, hlength,
      describeField_eq (hitem 0) (hitem 1)]
  | other => exact ⟨trivial, trivial⟩

end Arrays

/-! ## No edit matters -/

theorem sameUse_add {p : Place} {ms : Members} {added : String} {v : Value}
    (hadded : p.Ignores ms added) (key : String) (hkey : ¬ p.Ignores ms key) :
    SameUse (p.member ms key) (ms.get? key) (Members.get? (ms ++ [(added, v)]) key) := by
  have hne : added ≠ key := by
    rintro rfl
    exact hkey hadded
  rw [Members.get?_append, Members.get?, if_neg hne, Members.get?, Option.or_none]
  exact .same _

theorem sameUse_member {p : Place} {before after : Members} {edited : String} {v v' : Value}
    (h : Agrees (p.member (before ++ (edited, v) :: after) edited) v v') (key : String) :
    SameUse (p.member (before ++ (edited, v) :: after) key)
      (Members.get? (before ++ (edited, v) :: after) key)
      (Members.get? (before ++ (edited, v') :: after) key) := by
  rw [Members.get?_append, Members.get?_append, Members.get?, Members.get?]
  cases before.get? key with
  | some w => exact .same _
  | none =>
    by_cases hkey : edited = key
    · subst hkey
      rw [if_pos rfl, if_pos rfl]
      exact .edited h
    · rw [if_neg hkey, if_neg hkey]
      exact .same _

/-- An edit changes nothing of what is read of a value in which keys are distinct. -/
theorem Edit.agrees {p : Place} {v v' : Value} (h : Edit p v v') (hv : v.KeysDistinct) :
    Agrees p v v' := by
  have hv' := h.keysDistinct hv
  induction h with
  | reorder hperm =>
    apply agrees_object _ hv.1 hv'.1
    intro key _
    rw [Members.get?_of_perm hv.1 hperm]
    exact .same _
  | add hadded _ _ =>
    apply agrees_object _ hv.1 hv'.1
    exact sameUse_add hadded
  | member hedit ih =>
    have hold := Value.keysDistinctMembers_iff.1 hv.2 _ (List.mem_append_right _ List.mem_cons_self)
    apply agrees_object _ hv.1 hv'.1
    intro key _
    exact sameUse_member (ih hold (hedit.keysDistinct hold)) key
  | item hedit ih =>
    have hold := Value.keysDistinctItems_iff.1 hv _ (List.mem_append_right _ List.mem_cons_self)
    exact agrees_array _ (ih hold (hedit.keysDistinct hold))

/-! ## Documents -/

theorem Edit.place_eq {p : Place} {v v' : Value} (h : Edit p v v') : v'.place = v.place := by
  cases h <;> rfl

theorem Agrees.listOfValue_eq {v v' : Value} (h : Agrees v.place v v') (hplace : v'.place = v.place) :
    (Description.listOfValue v').toOption = (Description.listOfValue v).toOption := by
  have hsingle : ∀ w : Value, ((fun d => [d]) <$> Description.decode (.ofValue w)).toOption =
      (Description.decode (.ofValue w)).toOption.map fun d => [d] := fun w => toOption_map _ _
  cases v with
  | array items =>
    cases v' with
    | array items' => exact h
    | _ => cases hplace
  | _ =>
    cases v' with
    | array items' => cases hplace
    | _ => exact (hsingle _).trans ((congrArg _ h).trans (hsingle _).symm)

/-- Any number of edits keeps keys distinct and what a document is read as. -/
theorem listOfValue_eq_of_edits {v v' : Value} (hv : v.KeysDistinct)
    (h : Relation.ReflTransGen (Edit v.place) v v') :
    v'.KeysDistinct ∧ v'.place = v.place ∧
      (Description.listOfValue v').toOption = (Description.listOfValue v).toOption := by
  induction h with
  | refl => exact ⟨hv, rfl, rfl⟩
  | tail _ hedit ih =>
    obtain ⟨hkeys, hplace, hlist⟩ := ih
    have hagrees := hedit.agrees hkeys
    rw [← hplace] at hagrees
    exact ⟨hedit.keysDistinct hkeys, hedit.place_eq.trans hplace,
      (hagrees.listOfValue_eq hedit.place_eq).trans hlist⟩

/-- For every value in which no object repeats a key, and every value that comes of it by any number
of edits, which reorder the members of objects at any depth and add members that are not used to
descriptions, alternatives and fields: a list of descriptions is read of the one iff it is read of
the other. -/
theorem rearrangement_irrelevant {v v' : Value} (hv : v.KeysDistinct)
    (h : Relation.ReflTransGen (Edit v.place) v v') (ds : List Description) :
    Description.listOfValue v' = .ok ds ↔ Description.listOfValue v = .ok ds := by
  obtain ⟨-, -, hlist⟩ := listOfValue_eq_of_edits hv h
  rw [← toOption_eq_some_iff, ← toOption_eq_some_iff, hlist]

/-- A coin with an only alternative. -/
def coin (side : Members) : Value :=
  .object [("name", .string "a.Coin"), ("alternatives", .array [.object side])]

theorem edit_coin {side side' : Members} (h : Edit .alternative (.object side) (.object side')) :
    Edit .description (coin side) (coin side') := by
  have halternatives : Edit .alternatives (.array ([] ++ [.object side]))
      (.array ([] ++ [.object side'])) := .item h
  have hcoin : Edit .description
      (.object ([("name", .string "a.Coin")] ++ [("alternatives", .array [.object side])]))
      (.object ([("name", .string "a.Coin")] ++ [("alternatives", .array [.object side'])])) :=
    .member halternatives
  exact hcoin

/-- A side of a coin: a record without fields. -/
def side : Members := [("name", .string "S"), ("kind", .string "record"), ("fields", .array [])]

/-- A side with its kind behind the fields, and with alternatives that are no list. -/
def editedSide : Members :=
  [("fields", .array []), ("name", .string "S"), ("kind", .string "record"),
    ("alternatives", .bool true)]

theorem rearrangement_irrelevant_coin :
    (coin side).KeysDistinct ∧
      Relation.ReflTransGen (Edit (coin side).place) (coin side) (coin editedSide) ∧
      Description.listOfValue (coin editedSide) =
        .ok [⟨"a.Coin", none, true, [⟨"S", .record []⟩]⟩] := by
  have hkeys : (coin side).KeysDistinct := by
    simp [coin, side, Value.KeysDistinct, Value.KeysDistinctItems, Value.KeysDistinctMembers]
  have hperm : List.Perm
      [("fields", Value.array []), ("name", .string "S"), ("kind", .string "record")] side :=
    @List.perm_append_comm _ [("fields", Value.array [])] _
  have hunused : Place.alternative.Ignores
      [("fields", .array []), ("name", .string "S"), ("kind", .string "record")] "alternatives" := by
    refine ⟨by decide, fun hkey => absurd hkey (by decide), fun _ hkind => ?_⟩
    cases hkind
  have hadded : Edit .alternative
      (.object [("fields", .array []), ("name", .string "S"), ("kind", .string "record")])
      (.object editedSide) := .add hunused (by decide) trivial
  have hedits := (Relation.ReflTransGen.single (edit_coin (.reorder hperm))).tail (edit_coin hadded)
  refine ⟨hkeys, hedits, (rearrangement_irrelevant hkeys hedits _).2 ?_⟩
  cbv

end WideRow
