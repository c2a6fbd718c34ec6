import WideRow.Description.Wire
import WideRow.Proofs.Json.Determined
import WideRow.Proofs.RoundTrip
import WideRow.Proofs.Wire.RoundTrip

/-!
# Reading by keys

The readers of descriptions, alternatives and fields go through the members of an object one after
the other. What they make of an object whose keys are distinct is what is made of the values under
the keys that they know: each of these is looked up, and either has to be there or has a default.
Where an array stands for an object, the values are looked up by their places.

Main definitions:
* `describe`, `describeShape`, `describeField`: what is made of values that have been looked up.

Results:
* `Members.get?_of_perm`: what is found under a key does not depend on the order of the members;
* `toOption_description_object`, `toOption_description_array`: descriptions are read by looking up;
* `toOption_alternative_object`, `toOption_field_object`, `toOption_field_array`: so are alternatives
  and fields.
-/

namespace WideRow

open Json

/-! ## Looking up -/

section Lookup

variable {ms ms' : Members} {key : String} {v : Value}

theorem Json.Members.get?_eq_some_iff (h : (ms.map Prod.fst).Nodup) :
    ms.get? key = some v ↔ (key, v) ∈ ms := by
  induction ms with
  | nil => simp [Members.get?]
  | cons m ms ih =>
    obtain ⟨k, w⟩ := m
    obtain ⟨hnew, hms⟩ := List.nodup_cons.1 h
    rw [Members.get?, List.mem_cons, Prod.mk.injEq]
    by_cases hk : k = key
    · subst hk
      have hnot : (k, v) ∉ ms := fun hmem => hnew (List.mem_map.2 ⟨_, hmem, rfl⟩)
      simp [hnot, eq_comm]
    · rw [if_neg hk, ih hms]
      simp [Ne.symm hk]

/-- What is found under a key does not depend on the order of the members. -/
theorem Json.Members.get?_of_perm (h : (ms.map Prod.fst).Nodup) (hperm : ms'.Perm ms) :
    ms'.get? key = ms.get? key := by
  have h' : (ms'.map Prod.fst).Nodup := (hperm.map _).nodup_iff.2 h
  ext v
  rw [get?_eq_some_iff h', get?_eq_some_iff h, hperm.mem_iff]

theorem Json.Members.get?_append (ms rest : Members) :
    Members.get? (ms ++ rest) key = (ms.get? key).or (Members.get? rest key) := by
  induction ms with
  | nil => rfl
  | cons m ms ih =>
    obtain ⟨k, w⟩ := m
    rw [List.cons_append, Members.get?, Members.get?, ih]
    split
    · rfl
    · rfl

end Lookup

/-! ## What is made of the values -/

/-- A text. -/
def textOf : Value → Option String
  | .string s => some s
  | _ => none

/-- A text that may be `null`. -/
def optionalTextOf : Value → Option (Option String)
  | .null => some none
  | v => (textOf v).map some

/-- A truth value. -/
def truthOf : Value → Option Bool
  | .bool b => some b
  | _ => none

/-- The alternatives of a sum. -/
def alternativesOf : Value → Option (List AlternativeDescription)
  | .array items => items.mapM fun v => (Shape.ofHeld v).toOption
  | _ => none

/-- The fields of a record. -/
def fieldsOf : Value → Option (List FieldDescription)
  | .array items => items.mapM fun v => (FieldDescription.ofHeld v).toOption
  | _ => none

/-- What is read of a value, or the default if there is no value. -/
def orDefault {α : Type} (read : Value → Option α) (default : α) : Option Value → Option α
  | none => some default
  | some v => read v

/-- The description of its values. -/
def describe (name package closed alternatives : Option Value) : Option Description := do
  let name ← name.bind textOf
  let package ← orDefault optionalTextOf none package
  let closed ← orDefault truthOf true closed
  let alternatives ← orDefault alternativesOf [] alternatives
  return ⟨name, package, closed, alternatives⟩

/-- The shape of an alternative of its values: only those that its kind has are read. -/
def describeShape (kind fields alternatives : Option Value) : Option Shape := do
  match ← kind.bind fun v => (ShapeKind.ofHeld v).toOption with
  | .record => return .record (← orDefault fieldsOf [] fields)
  | .sum => return .sum (← orDefault alternativesOf [] alternatives)
  | .other => return .other

/-- The field of its values. -/
def describeField (name type : Option Value) : Option FieldDescription := do
  let name ← name.bind textOf
  let type ← type.bind textOf
  return ⟨name, type⟩

theorem toOption_asString (v : Value) : (Node.asString (.ofValue v)).toOption = textOf v := by
  cases v <;> rfl

theorem toOption_asOptionalString (v : Value) :
    (Node.asOptionalString (.ofValue v)).toOption = optionalTextOf v := by
  cases v <;> rfl

theorem toOption_asBool (v : Value) : (Node.asBool (.ofValue v)).toOption = truthOf v := by
  cases v <;> rfl

theorem toOption_shapedString (v : Value) : (shapedString v).toOption = textOf v := by
  cases v <;> rfl

/-- Items are read one after the other, up to the first that cannot be read. -/
theorem toOption_mapM {ε α : Type} (read : Value → Except ε α) (items : List Value) :
    (items.mapM read).toOption = items.mapM fun v => (read v).toOption := by
  induction items with
  | nil => rfl
  | cons v rest ih =>
    rw [List.mapM_cons, List.mapM_cons, toOption_bind]
    refine congrArg _ (funext fun a => ?_)
    rw [toOption_bind, ih]
    rfl

theorem toOption_shapedFields (v : Value) : (shapedFields v).toOption = fieldsOf v := by
  cases v with
  | array items => exact toOption_mapM FieldDescription.ofHeld items
  | _ => rfl

theorem toOption_ofHeldItems (items : List Value) :
    (Shape.ofHeldItems items).toOption = items.mapM fun v => (Shape.ofHeld v).toOption := by
  induction items with
  | nil =>
    rw [Shape.ofHeldItems]
    rfl
  | cons v rest ih =>
    rw [Shape.ofHeldItems, List.mapM_cons, toOption_bind]
    refine congrArg _ (funext fun a => ?_)
    rw [toOption_bind, ih]
    rfl

/-! ## Slots -/

/-- A slot that the value of a key is read into. -/
def fill {α : Type} (slot : Option α) (read : Value → Option α) : Option Value → Option (Option α)
  | none => some slot
  | some v => if slot.isSome then none else (read v).map some

section Fill

variable {α : Type}

@[simp] theorem fill_missing (slot : Option α) (read : Value → Option α) :
    fill slot read none = some slot := rfl

@[simp] theorem fill_empty (read : Value → Option α) (v : Value) :
    fill none read (some v) = (read v).map some := rfl

@[simp] theorem fill_again (a : α) (read : Value → Option α) (v : Value) :
    fill (some a) read (some v) = none := rfl

theorem fill_bind_self (read : Value → Option α) (x : Option Value) :
    ((fill none read x).bind fun slot => slot) = x.bind read := by
  cases x with
  | none => rfl
  | some v => cases h : read v <;> simp [h]

theorem fill_map_getD (read : Value → Option α) (default : α) (x : Option Value) :
    (fill none read x).map (·.getD default) = orDefault read default x := by
  cases x with
  | none => rfl
  | some v => cases h : read v <;> simp [h, orDefault]

end Fill

/-! ## Fields -/

/-- The members of a field fill its two slots. -/
theorem toOption_ofHeldMembers {ms : Members} (h : (ms.map Prod.fst).Nodup)
    (name type : Option String) :
    (FieldDescription.ofHeldMembers name type ms).toOption = do
      let name ← fill name textOf (ms.get? "name")
      let type ← fill type textOf (ms.get? "type")
      return ⟨← name, ← type⟩ := by
  induction ms generalizing name type with
  | nil => cases name <;> cases type <;> rfl
  | cons m rest ih =>
    obtain ⟨key, v⟩ := m
    obtain ⟨hnew, hrest⟩ := List.nodup_cons.1 h
    have hnone : Members.get? rest key = none := Members.get?_eq_none_of_notMem hnew
    rw [FieldDescription.ofHeldMembers.eq_def]
    dsimp only
    by_cases hname : key = "name"
    · subst hname
      cases name with
      | some name => rfl
      | none =>
        cases hread : textOf v <;>
          simp [toOption_bind, toOption_shapedString, ih hrest, Members.get?, hnone, hread]
    · by_cases htype : key = "type"
      · subst htype
        cases type with
        | some type => simp [Members.get?, Except.toOption]
        | none =>
          cases hread : textOf v <;>
            simp [toOption_bind, toOption_shapedString, ih hrest, Members.get?, hnone, hread]
      · simp [hname, htype, ih hrest, Members.get?]

theorem toOption_field_object {ms : Members} (h : (ms.map Prod.fst).Nodup) :
    (FieldDescription.ofHeld (.object ms)).toOption =
      describeField (ms.get? "name") (ms.get? "type") := by
  rw [FieldDescription.ofHeld, toOption_ofHeldMembers h, describeField, ← fill_bind_self,
    ← fill_bind_self]
  cases fill none textOf (ms.get? "name") with
  | none => rfl
  | some name =>
    cases fill none textOf (ms.get? "type") with
    | none => cases name <;> rfl
    | some type => rfl

theorem toOption_field_array (items : List Value) :
    (FieldDescription.ofHeld (.array items)).toOption =
      if items.length = 2 then describeField items[0]? items[1]? else none := by
  match items with
  | [] => rfl
  | [name] => cases name <;> rfl
  | [name, type] => cases name <;> cases type <;> rfl
  | name :: type :: third :: rest =>
    rw [if_neg (by simp)]
    cases name <;> cases type <;> rfl

/-! ## Alternatives -/

/-- A search for a key passes over members of other keys, and comes to what it reads of the value of
the only member of that key. -/
structure Searches {α : Type} (key : String) (read : Value → Shaped α)
    (search : Option α → List (String × Value) → Shaped α) : Prop where
  skip : ∀ {found other v rest}, other ≠ key → search found ((other, v) :: rest) = search found rest
  take : ∀ {v rest}, search none ((key, v) :: rest) = read v >>= fun a => search (some a) rest
  again : ∀ {a v rest}, search (some a) ((key, v) :: rest) = .error (.repeatedField key)
  finish : ∀ a, search (some a) [] = .ok a

section Searches

variable {α : Type} {key : String} {read : Value → Shaped α}
  {search : Option α → List (String × Value) → Shaped α} {ms : Members}

theorem Searches.eq_of_notMem (h : Searches key read search) (a : α)
    (hms : key ∉ ms.map Prod.fst) : search (some a) ms = .ok a := by
  induction ms with
  | nil => exact h.finish a
  | cons m rest ih =>
    rw [List.map_cons, List.mem_cons, not_or] at hms
    rw [h.skip (Ne.symm hms.1), ih hms.2]

/-- Where keys are distinct, the value of the key is looked up. -/
theorem Searches.toOption_eq (h : Searches key read search) (hms : (ms.map Prod.fst).Nodup) :
    (search none ms).toOption = match ms.get? key with
      | none => (search none []).toOption
      | some v => (read v).toOption := by
  induction ms with
  | nil => rfl
  | cons m rest ih =>
    obtain ⟨other, v⟩ := m
    obtain ⟨hnew, hrest⟩ := List.nodup_cons.1 hms
    rw [Members.get?]
    by_cases hkey : other = key
    · subst hkey
      rw [if_pos rfl, h.take, funext fun a => h.eq_of_notMem a hnew, toOption_bind]
      exact Option.bind_fun_some _
    · rw [if_neg hkey, h.skip hkey, ih hrest]

/-- Members of another key can be left out. -/
theorem Searches.filter_eq (h : Searches key read search) {other : String} (hne : other ≠ key)
    (found : Option α) (ms : Members) :
    search found (ms.filter fun m => m.1 ≠ other) = search found ms := by
  induction ms generalizing found with
  | nil => rfl
  | cons m rest ih =>
    obtain ⟨k, v⟩ := m
    by_cases hother : k = other
    · rw [List.filter_cons_of_neg (by simpa using hother), ih, h.skip (hother ▸ hne)]
    · rw [List.filter_cons_of_pos (by simpa using hother)]
      by_cases hkey : k = key
      · subst hkey
        cases found with
        | none =>
          rw [h.take, h.take]
          exact congrArg _ (funext fun a => ih (some a))
        | some a => rw [h.again, h.again]
      · rw [h.skip hkey, h.skip hkey, ih]

theorem searches_findName : Searches "name" shapedString findName where
  skip hne := if_neg hne
  take := rfl
  again := rfl
  finish _ := rfl

theorem searches_find : Searches "kind" ShapeKind.ofHeld ShapeKind.find where
  skip hne := if_neg hne
  take := rfl
  again := rfl
  finish _ := rfl

theorem searches_findFields : Searches "fields" shapedFields findFields where
  skip hne := if_neg hne
  take := rfl
  again := rfl
  finish _ := rfl

/-- The alternatives of a sum, from a held value. -/
def shapedAlternatives : Value → Shaped (List AlternativeDescription)
  | .array items => Shape.ofHeldItems items
  | v => .error (.wrongType (foundIn v) "a sequence")

theorem searches_findAlternatives :
    Searches "alternatives" shapedAlternatives Shape.findAlternatives where
  skip hne := Shape.findAlternatives_cons_of_ne hne _ _ _
  take {v rest} := by
    rw [Shape.findAlternatives.eq_def]
    dsimp only
    rw [if_pos rfl]
    cases v <;> rfl
  again {a v rest} := by
    rw [Shape.findAlternatives.eq_def]
    rfl
  finish a := by
    rw [Shape.findAlternatives, Option.getD_some]

theorem toOption_shapedAlternatives (v : Value) :
    (shapedAlternatives v).toOption = alternativesOf v := by
  cases v with
  | array items => exact toOption_ofHeldItems items
  | _ => rfl

theorem toOption_findName (h : (ms.map Prod.fst).Nodup) :
    (findName none ms).toOption = (ms.get? "name").bind textOf := by
  rw [searches_findName.toOption_eq h]
  cases ms.get? "name" with
  | none => rfl
  | some v => exact toOption_shapedString v

theorem toOption_find (h : (ms.map Prod.fst).Nodup) :
    (ShapeKind.find none ms).toOption =
      (ms.get? "kind").bind fun v => (ShapeKind.ofHeld v).toOption := by
  rw [searches_find.toOption_eq h]
  cases ms.get? "kind" <;> rfl

theorem toOption_findFields (h : (ms.map Prod.fst).Nodup) :
    (findFields none ms).toOption = orDefault fieldsOf [] (ms.get? "fields") := by
  rw [searches_findFields.toOption_eq h]
  cases ms.get? "fields" with
  | none => rfl
  | some v => exact toOption_shapedFields v

theorem toOption_findAlternatives (h : (ms.map Prod.fst).Nodup) :
    (Shape.findAlternatives none ms).toOption =
      orDefault alternativesOf [] (ms.get? "alternatives") := by
  rw [searches_findAlternatives.toOption_eq h]
  cases ms.get? "alternatives" with
  | none =>
    rw [Shape.findAlternatives]
    rfl
  | some v => exact toOption_shapedAlternatives v

/-- The shape of an alternative is that of the values under its keys. -/
theorem toOption_ofMembers (h : (ms.map Prod.fst).Nodup) :
    (Shape.ofMembers ms).toOption =
      describeShape (ms.get? "kind") (ms.get? "fields") (ms.get? "alternatives") := by
  rw [Shape.ofMembers, toOption_bind, toOption_find h, describeShape]
  refine congrArg _ (funext fun kind => ?_)
  cases kind with
  | record =>
    dsimp only
    rw [toOption_bind, toOption_findFields h]
    rfl
  | sum =>
    dsimp only
    rw [toOption_bind, toOption_findAlternatives h]
    rfl
  | other => rfl

theorem toOption_alternative_object (h : (ms.map Prod.fst).Nodup) :
    (Shape.ofHeld (.object ms)).toOption = do
      let name ← (ms.get? "name").bind textOf
      let shape ← describeShape (ms.get? "kind") (ms.get? "fields") (ms.get? "alternatives")
      return ⟨name, shape⟩ := by
  rw [Shape.ofHeld, toOption_bind, toOption_findName h]
  refine congrArg _ (funext fun name => ?_)
  rw [toOption_bind, toOption_ofMembers h]
  rfl

end Searches

/-! ### Two passes -/

/-- The shape of an alternative is not read from its name. -/
theorem ofMembers_filter_name (ms : Members) :
    Shape.ofMembers (ms.filter fun m => m.1 ≠ "name") = Shape.ofMembers ms := by
  rw [Shape.ofMembers, Shape.ofMembers, searches_find.filter_eq (by decide),
    searches_findFields.filter_eq (by decide), searches_findAlternatives.filter_eq (by decide)]

theorem toOption_takeOnce {α σ : Type} {decode : Node → Decoded α} {read : Value → Option α}
    (hread : ∀ v, (decode (.ofValue v)).toOption = read v) (key : Key) (slot : Option α)
    (put : α → σ) (v : Value) :
    (takeOnce key slot decode put >>= fun take => take (.ofValue v)).toOption =
      if slot.isSome then none else (read v).map put := by
  cases slot with
  | some a => rfl
  | none =>
    show (put <$> decode (.ofValue v)).toOption = (read v).map put
    rw [toOption_map, hread]

/-- The name of an alternative is read while its other members are held. -/
theorem toOption_walkMembers_alternative (ms : Members) (name : Option String)
    (others : List (String × Value)) :
    (walkMembers AlternativeDraft.take ⟨name, others⟩ (Node.ofMembers ms) .closed).toOption.bind
        (fun draft => draft.name.map fun name => (name, draft.others)) =
      (findName name ms).toOption.map fun name =>
        (name, others ++ ms.filter fun m => m.1 ≠ "name") := by
  induction ms generalizing name others with
  | nil =>
    cases name with
    | none => rfl
    | some name =>
      rw [List.filter_nil, List.append_nil]
      rfl
  | cons m rest ih =>
    obtain ⟨key, v⟩ := m
    by_cases hkey : key = "name"
    · subst hkey
      have hstep : AlternativeDraft.take ⟨name, others⟩ (.ofText "name") =
          takeOnce (.ofText "name") name Node.asString fun name => ⟨some name, others⟩ := if_pos rfl
      rw [Node.ofMembers, walkMembers_cons _ _ rfl, toOption_bind, hstep,
        toOption_takeOnce toOption_asString, List.filter_cons_of_neg (by simp)]
      cases name with
      | some name => rfl
      | none =>
        rw [searches_findName.take, toOption_bind, toOption_shapedString]
        cases textOf v with
        | none => rfl
        | some text => exact ih (some text) others
    · rw [(takes_other hkey name others).walkMembers_cons, ih, searches_findName.skip hkey,
        List.filter_cons_of_pos (by simpa using hkey), List.append_assoc, List.singleton_append]

/-- From the node of a value, an alternative is read as from the held value. -/
theorem toOption_decode_alternative (v : Value) :
    (AlternativeDescription.decode (.ofValue v)).toOption = (Shape.ofHeld v).toOption := by
  cases v with
  | object ms =>
    have hwalk := toOption_walkMembers_alternative ms none []
    have hsplit : (AlternativeDescription.decode (.ofValue (.object ms))).toOption =
        (walkMembers AlternativeDraft.take ⟨none, []⟩ (Node.ofMembers ms) .closed).toOption.bind
          fun draft => (draft.name.map fun name => (name, draft.others)).bind fun held =>
            (Shape.ofMembers held.2).toOption.map fun shape => ⟨held.1, shape⟩ := by
      rw [Node.ofValue, AlternativeDescription.decode, toOption_bind]
      refine congrArg _ (funext fun draft => ?_)
      obtain ⟨name, others⟩ := draft
      cases name with
      | none => rfl
      | some name =>
        dsimp only
        rw [toOption_bind, toOption_mapError, Option.map_some, Option.bind_some]
        cases Shape.ofMembers others <;> rfl
    rw [hsplit, ← Option.bind_assoc, hwalk, Shape.ofHeld, toOption_bind]
    cases findName none ms with
    | error e => rfl
    | ok name =>
      dsimp only [Except.toOption, Option.map_some, Option.bind_some]
      rw [List.nil_append, ofMembers_filter_name]
      cases Shape.ofMembers ms <;> rfl
  | _ =>
    rw [Shape.ofHeld.eq_def]
    rfl

/-- Items are decoded from nodes as they are read from their values. -/
theorem toOption_decodeItems {α : Type} {decode : Node → Decoded α} {read : Value → Option α}
    (hread : ∀ v, (decode (.ofValue v)).toOption = read v) (items : List Value) (index : Nat) :
    (decodeItems decode index (Node.ofItems items)).toOption = items.mapM read := by
  induction items generalizing index with
  | nil => rfl
  | cons v rest ih =>
    rw [Node.ofItems, decodeItems, List.mapM_cons, toOption_bind, toOption_within, hread]
    refine congrArg _ (funext fun a => ?_)
    rw [toOption_bind, ih]
    rfl

theorem toOption_asItems {α : Type} {decode : Node → Decoded α} {read : Value → Option α}
    (hread : ∀ v, (decode (.ofValue v)).toOption = read v) (items : List Value) :
    (Node.asItems decode (.ofValue (.array items))).toOption = items.mapM read := by
  rw [Node.ofValue, Node.asItems, toOption_bind, toOption_decodeItems hread]
  exact Option.bind_fun_some _

/-- A list of alternatives is read from a node as from the held value. -/
theorem toOption_decode_alternatives (v : Value) :
    (Node.asItems AlternativeDescription.decode (.ofValue v)).toOption = alternativesOf v := by
  cases v with
  | array items => exact toOption_asItems toOption_decode_alternative items
  | _ => rfl

/-! ## Descriptions -/

/-- The members of a description fill its four slots. -/
theorem toOption_walkMembers_description {ms : Members} (h : (ms.map Prod.fst).Nodup)
    (draft : DescriptionDraft) :
    (walkMembers DescriptionDraft.take draft (Node.ofMembers ms) .closed).toOption = do
      let name ← fill draft.name textOf (ms.get? "name")
      let package ← fill draft.package optionalTextOf (ms.get? "package")
      let closed ← fill draft.closed truthOf (ms.get? "closed")
      let alternatives ← fill draft.alternatives alternativesOf (ms.get? "alternatives")
      return ⟨name, package, closed, alternatives⟩ := by
  induction ms generalizing draft with
  | nil => rfl
  | cons m rest ih =>
    obtain ⟨key, v⟩ := m
    obtain ⟨hnew, hrest⟩ := List.nodup_cons.1 h
    have hnone : Members.get? rest key = none := Members.get?_eq_none_of_notMem hnew
    have hkey : (Key.ofText key).text = key := rfl
    rw [Node.ofMembers, walkMembers_cons _ _ rfl, toOption_bind]
    simp only [ih hrest]
    unfold DescriptionDraft.take
    simp only [hkey]
    split
    · rw [toOption_takeOnce toOption_asString]
      cases draft.name with
      | some name => rfl
      | none =>
        cases hread : textOf v <;>
          simp [Members.get?, hnone, hread]
    · rw [toOption_takeOnce toOption_asOptionalString]
      cases draft.package with
      | some package => simp [Members.get?]
      | none => cases hread : optionalTextOf v <;> simp [Members.get?, hnone, hread]
    · rw [toOption_takeOnce toOption_asBool]
      cases draft.closed with
      | some closed => simp [Members.get?]
      | none => cases hread : truthOf v <;> simp [Members.get?, hnone, hread]
    · rw [toOption_takeOnce toOption_decode_alternatives]
      cases draft.alternatives with
      | some alternatives => simp [Members.get?]
      | none => cases hread : alternativesOf v <;> simp [Members.get?, hnone, hread]
    · next hname hpackage hclosed halternatives =>
      have hpass : ((Node.ofValue v).pass >>= fun _ => pure draft) = .ok draft := by
        rw [Node.pass, (Node.held_ofValue v).passFault?_eq_none]
        rfl
      show ((Node.ofValue v).pass >>= fun _ => pure draft).toOption.bind _ = _
      rw [hpass]
      simp only [Members.get?, if_neg hname, if_neg hpackage, if_neg hclosed, if_neg halternatives]
      rfl

theorem toOption_description_object {ms : Members} (h : (ms.map Prod.fst).Nodup) :
    (Description.decode (.ofValue (.object ms))).toOption =
      describe (ms.get? "name") (ms.get? "package") (ms.get? "closed") (ms.get? "alternatives") := by
  rw [Node.ofValue, Description.decode, toOption_bind, toOption_walkMembers_description h,
    describe, ← fill_bind_self, ← fill_map_getD, ← fill_map_getD, ← fill_map_getD]
  show ((fill none _ _).bind fun name => (fill none _ _).bind fun package =>
    (fill none _ _).bind fun closed => (fill none _ _).bind fun alternatives => some _).bind _ = _
  rcases fill none textOf (ms.get? "name") with _ | _ | name <;>
    cases fill none optionalTextOf (ms.get? "package") <;>
    cases fill none truthOf (ms.get? "closed") <;>
    cases fill none alternativesOf (ms.get? "alternatives") <;> rfl

/-! ### Arrays -/

theorem toOption_bind_nextOrDefault {α β : Type} {decode : Node → Decoded α}
    {read : Value → Option α} (hread : ∀ v, (decode (.ofValue v)).toOption = read v) (default : α)
    (index : Nat) (items : List Value) (f : α × List Node → Decoded β) :
    (nextOrDefault decode default index (Node.ofItems items) none >>= f).toOption =
      (orDefault read default items.head?).bind fun a =>
        (f (a, Node.ofItems items.tail)).toOption := by
  cases items with
  | nil => rfl
  | cons v rest =>
    rw [Node.ofItems, nextOrDefault, bind_assoc, toOption_bind, toOption_within, hread]
    rfl

theorem toOption_beyondLast_ofItems (length : Nat) (items : List Value) :
    (beyondLast length (Node.ofItems items) none).toOption =
      if items = [] then some () else none := by
  cases items with
  | nil => rfl
  | cons v rest =>
    rw [if_neg (List.cons_ne_nil v rest), Node.ofItems, beyondLast]
    split <;> rfl

theorem toOption_description_array (items : List Value) :
    (Description.decode (.ofValue (.array items))).toOption =
      if items.length ≤ 4 then describe items[0]? items[1]? items[2]? items[3]? else none := by
  cases items with
  | nil => rfl
  | cons name rest =>
    rw [Node.ofValue, Node.ofItems, Description.decode, toOption_bind, toOption_within,
      toOption_asString]
    simp only [toOption_bind_nextOrDefault toOption_asOptionalString,
      toOption_bind_nextOrDefault toOption_asBool,
      toOption_bind_nextOrDefault toOption_decode_alternatives, toOption_bind,
      toOption_beyondLast_ofItems]
    have hpackage : rest.head? = (name :: rest)[1]? := List.head?_eq_getElem?
    have hclosed : rest.tail.head? = (name :: rest)[2]? := by
      rw [List.head?_eq_getElem?, List.getElem?_tail, List.getElem?_cons_succ]
    have halternatives : rest.tail.tail.head? = (name :: rest)[3]? := by
      rw [List.head?_eq_getElem?, List.getElem?_tail, List.getElem?_tail, List.getElem?_cons_succ]
    have hend : rest.tail.tail.tail = [] ↔ (name :: rest).length ≤ 4 := by
      rw [← List.length_eq_zero_iff, List.length_tail, List.length_tail, List.length_tail,
        List.length_cons]
      omega
    rw [hpackage, hclosed, halternatives]
    simp only [hend]
    by_cases hlength : (name :: rest).length ≤ 4
    · simp only [if_pos hlength]
      rfl
    · simp only [if_neg hlength, Option.bind_none, Option.bind_fun_none]

end WideRow
