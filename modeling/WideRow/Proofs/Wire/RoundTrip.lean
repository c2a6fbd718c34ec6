import WideRow.Proofs.Json.Brackets
import WideRow.Proofs.Wire.Agreement

/-!
# The round trip of descriptions

Descriptions that are written are read back, from the value that they are written as and from its
compact text.

Results:
* `Shape.induction`: what sums have if their alternatives have it, all shapes have;
* `Shape.ofMembers_members`: a shape is read off the members that it is written as;
* `decode_toJson`: a description is decoded from the value that it is written as;
* `numberFree_toJson`, `keysDistinct_toJson`, `Json.Value.read_compact`: that value is read from its
  compact text;
* `wire_round_trip`: lists of descriptions are read back from values and from texts.
-/

namespace WideRow

open Json

/-! ## Shapes -/

/-- What records have, opaque shapes have, and sums have if the shapes of their alternatives have it,
all shapes have. -/
@[elab_as_elim]
theorem Shape.induction {motive : Shape → Prop} (record : ∀ fields, motive (.record fields))
    (sum : ∀ alternatives : List (Named Shape), (∀ a ∈ alternatives, motive a.shape) →
      motive (.sum alternatives))
    (other : motive .other) (shape : Shape) : motive shape :=
  @Shape.rec motive (fun alternatives => ∀ a ∈ alternatives, motive a.shape)
    (fun a => motive a.shape) record sum other nofun
    (fun _ _ ha hrest => List.forall_mem_cons.2 ⟨ha, hrest⟩) (fun _ _ hshape => hshape) shape

theorem Shape.itemsOf_eq_map (alternatives : List (Named Shape)) :
    itemsOf alternatives = alternatives.map itemOf := by
  induction alternatives with
  | nil => rw [itemsOf, List.map_nil]
  | cons a rest ih => rw [itemsOf, ih, List.map_cons]

theorem Shape.itemOf_eq (a : Named Shape) :
    itemOf a = .object (("name", .string a.name) :: a.shape.members) := by
  obtain ⟨name, shape⟩ := a
  rw [itemOf]

theorem shapedFields_map_toJson (fields : List FieldDescription) :
    shapedFields (.array (fields.map FieldDescription.toJson)) = .ok fields := by
  have hfield : ∀ f : FieldDescription, FieldDescription.ofHeld f.toJson = .ok f := fun f => rfl
  rw [shapedFields]
  induction fields with
  | nil => rfl
  | cons f rest ih =>
    rw [List.map_cons, List.mapM_cons, hfield, ih]
    rfl

theorem Shape.findAlternatives_cons_of_ne {key : String} (hkey : key ≠ "alternatives")
    (found : Option (List (Named Shape))) (v : Value) (rest : List (String × Value)) :
    findAlternatives found ((key, v) :: rest) = findAlternatives found rest := by
  rw [findAlternatives.eq_def]
  exact if_neg hkey

/-- The name of an alternative says nothing about its shape. -/
theorem Shape.ofMembers_cons_name (v : Value) (members : List (String × Value)) :
    ofMembers (("name", v) :: members) = ofMembers members := by
  have hkind : ShapeKind.find none (("name", v) :: members) = ShapeKind.find none members :=
    if_neg (by decide)
  have hfields : findFields none (("name", v) :: members) = findFields none members :=
    if_neg (by decide)
  rw [ofMembers, ofMembers, hkind, hfields, findAlternatives_cons_of_ne (by decide)]

theorem Shape.name_notMem_members (shape : Shape) : ∀ m ∈ shape.members, m.1 ≠ "name" := by
  cases shape <;> simp [members]

theorem findName_members (name : String) (shape : Shape) :
    findName (some name) shape.members = .ok name := by
  cases shape <;> rw [Shape.members] <;> rfl

/-- An alternative is read off the object that it is written as, if its shape is. -/
theorem Shape.ofHeld_itemOf {a : Named Shape} (h : ofMembers a.shape.members = .ok a.shape) :
    ofHeld (itemOf a) = .ok a := by
  have hname : findName none (("name", .string a.name) :: a.shape.members) = .ok a.name :=
    findName_members a.name a.shape
  rw [itemOf_eq, ofHeld, hname, ofMembers_cons_name, h]
  rfl

theorem Shape.ofHeldItems_map {alternatives : List (Named Shape)}
    (h : ∀ a ∈ alternatives, ofMembers a.shape.members = .ok a.shape) :
    ofHeldItems (alternatives.map itemOf) = .ok alternatives := by
  induction alternatives with
  | nil => rw [List.map_nil, ofHeldItems]
  | cons a rest ih =>
    rw [List.forall_mem_cons] at h
    rw [List.map_cons, ofHeldItems, ofHeld_itemOf h.1, ih h.2]
    rfl

/-- A shape is read off the members that it is written as. -/
theorem Shape.ofMembers_members (shape : Shape) : ofMembers shape.members = .ok shape := by
  induction shape using Shape.induction with
  | record fields =>
    have hfields : findFields none (record fields).members =
        (do findFields (some (← shapedFields (.array (fields.map FieldDescription.toJson)))) []) :=
      rfl
    rw [shapedFields_map_toJson] at hfields
    rw [members] at hfields ⊢
    rw [ofMembers, hfields]
    rfl
  | sum alternatives ih =>
    have halternatives : findAlternatives none (sum alternatives).members = .ok alternatives := by
      rw [members, itemsOf_eq_map, findAlternatives_cons_of_ne (by decide), findAlternatives,
        if_pos rfl, ofHeldItems_map ih]
      show findAlternatives (some alternatives) [] = _
      rw [findAlternatives, Option.getD_some]
    rw [members] at halternatives ⊢
    rw [ofMembers, halternatives]
    rfl
  | other =>
    rw [members, ofMembers]
    rfl

/-! ## Nodes of values -/

/-- A member of a value is taken, and what has been made of the members is then another state. -/
def Takes {σ : Type} (step : MemberStep σ) (s : σ) (member : String × Value) (s' : σ) : Prop :=
  (step s (.ofText member.1) >>= fun take => take (.ofValue member.2)) = .ok s'

theorem Takes.walkMembers_cons {σ : Type} {step : MemberStep σ} {s s' : σ}
    {member : String × Value} (h : Takes step s member s') (rest : List (String × Value)) :
    walkMembers step s (Node.ofMembers (member :: rest)) .closed =
      walkMembers step s' (Node.ofMembers rest) .closed := by
  obtain ⟨take, hstep, htake⟩ := bind_eq_ok_iff.1 h
  have hflaw : (Key.ofText member.1).flaw = none := rfl
  rw [Node.ofMembers, walkMembers, hflaw, hstep]
  show (within _ (take (.ofValue member.2)) >>= fun s => walkMembers step s _ _) = _
  rw [within_eq_ok_iff.2 htake]
  rfl

/-- Items are decoded from what they are written as, if each of them is. -/
theorem asItems_ofValue_map {α : Type} {decode : Node → Decoded α} {write : α → Value}
    {items : List α} (h : ∀ a ∈ items, decode (.ofValue (write a)) = .ok a) :
    Node.asItems decode (.ofValue (.array (items.map write))) = .ok items := by
  have hitems : ∀ index, decodeItems decode index ((items.map write).map .ofValue) = .ok items := by
    induction items with
    | nil => exact fun _ => rfl
    | cons a rest ih =>
      intro index
      rw [List.forall_mem_cons] at h
      rw [List.map_cons, List.map_cons, decodeItems, within_eq_ok_iff.2 h.1, ih h.2]
      rfl
  rw [Node.ofValue, Node.ofItems_eq_map, Node.asItems, hitems 0]
  rfl

/-! ## Alternatives -/

theorem takes_other {member : String × Value} (h : member.1 ≠ "name") (name : Option String)
    (others : List (String × Value)) :
    Takes AlternativeDraft.take ⟨name, others⟩ member ⟨name, others ++ [member]⟩ := by
  have hstep : AlternativeDraft.take ⟨name, others⟩ (.ofText member.1) = .ok fun n => do
      let v ← n.held
      return ⟨name, others ++ [(member.1, v)]⟩ := if_neg h
  rw [Takes, hstep]
  show (Node.ofValue member.2).held >>= _ = _
  rw [Node.held_ofValue member.2]
  rfl

/-- Members of other keys are kept as they are. -/
theorem walkMembers_others (members others : List (String × Value)) (name : Option String)
    (h : ∀ m ∈ members, m.1 ≠ "name") :
    walkMembers AlternativeDraft.take ⟨name, others⟩ (Node.ofMembers members) .closed =
      .ok ⟨name, others ++ members⟩ := by
  induction members generalizing others with
  | nil =>
    rw [List.append_nil]
    rfl
  | cons m rest ih =>
    rw [List.forall_mem_cons] at h
    rw [(takes_other h.1 name others).walkMembers_cons, ih _ h.2, List.append_assoc,
      List.singleton_append]

/-- An alternative is decoded from the value that it is written as. -/
theorem decode_itemOf (a : AlternativeDescription) :
    AlternativeDescription.decode (.ofValue (Shape.itemOf a)) = .ok a := by
  have hname : Takes AlternativeDraft.take ⟨none, []⟩ ("name", .string a.name)
      ⟨some a.name, []⟩ := rfl
  rw [Shape.itemOf_eq, Node.ofValue, AlternativeDescription.decode, hname.walkMembers_cons,
    walkMembers_others _ _ _ a.shape.name_notMem_members, List.nil_append]
  show (do return ⟨a.name, ← (Shape.ofMembers a.shape.members).mapError _⟩ :
    Decoded AlternativeDescription) = .ok a
  rw [Shape.ofMembers_members]
  rfl

/-! ## Descriptions -/

theorem takes_alternatives (draft : DescriptionDraft) (hdraft : draft.alternatives = none)
    (alternatives : List AlternativeDescription) :
    Takes DescriptionDraft.take draft
      ("alternatives", .array (Shape.itemsOf alternatives))
      { draft with alternatives := some alternatives } := by
  have hstep : DescriptionDraft.take draft (.ofText "alternatives") = .ok fun n =>
      (fun v => { draft with alternatives := some v }) <$>
        n.asItems AlternativeDescription.decode := by
    show takeOnce _ draft.alternatives _ _ = _
    rw [hdraft]
    rfl
  have hitems := asItems_ofValue_map fun a (_ : a ∈ alternatives) => decode_itemOf a
  rw [Takes, hstep, Shape.itemsOf_eq_map]
  show _ <$> Node.asItems _ _ = _
  rw [hitems]
  rfl

/-- A description is decoded from the value that it is written as. -/
theorem decode_toJson (d : Description) : Description.decode (.ofValue d.toJson) = .ok d := by
  obtain ⟨name, package, closed, alternatives⟩ := d
  have hname : Takes DescriptionDraft.take .empty ("name", .string name)
      ⟨some name, none, none, none⟩ := rfl
  have hclosed : ∀ package, Takes DescriptionDraft.take ⟨some name, package, none, none⟩
      ("closed", .bool closed) ⟨some name, package, some closed, none⟩ := fun _ => rfl
  have halternatives := fun package =>
    takes_alternatives ⟨some name, package, some closed, none⟩ rfl alternatives
  -- a missing package has no member, and its place in the draft stays empty
  cases package with
  | none =>
    show Description.decode (.object _ (Node.ofMembers (_ :: _ :: _ :: [])) .closed) = _
    rw [Description.decode, hname.walkMembers_cons, (hclosed none).walkMembers_cons,
      (halternatives none).walkMembers_cons]
    rfl
  | some p =>
    have hpackage : Takes DescriptionDraft.take ⟨some name, none, none, none⟩
        ("package", .string p) ⟨some name, some (some p), none, none⟩ := rfl
    show Description.decode (.object _ (Node.ofMembers (_ :: _ :: _ :: _ :: [])) .closed) = _
    rw [Description.decode, hname.walkMembers_cons, hpackage.walkMembers_cons,
      (hclosed _).walkMembers_cons, (halternatives _).walkMembers_cons]
    rfl

/-! ## Documents -/

theorem Shape.numberFree_itemOf {a : Named Shape} (h : ∀ m ∈ a.shape.members, m.2.NumberFree) :
    (itemOf a).NumberFree := by
  rw [itemOf_eq, Value.NumberFree, Value.NumberFreeMembers, Value.numberFreeMembers_iff]
  exact ⟨trivial, h⟩

theorem numberFree_array_map {α : Type} {write : α → Value} {items : List α}
    (h : ∀ a ∈ items, (write a).NumberFree) : (Value.array (items.map write)).NumberFree := by
  rw [Value.NumberFree, Value.numberFreeItems_iff, List.forall_mem_map]
  exact h

/-- No shape is written with a number. -/
theorem Shape.numberFree_members (shape : Shape) : ∀ m ∈ shape.members, m.2.NumberFree := by
  induction shape using Shape.induction with
  | record fields =>
    have hfields : (Value.array (fields.map FieldDescription.toJson)).NumberFree :=
      numberFree_array_map fun f _ => ⟨trivial, trivial, trivial⟩
    rw [members, List.forall_mem_cons, List.forall_mem_singleton]
    exact ⟨trivial, hfields⟩
  | sum alternatives ih =>
    rw [members, itemsOf_eq_map, List.forall_mem_cons, List.forall_mem_singleton]
    exact ⟨trivial, numberFree_array_map fun a ha => numberFree_itemOf (ih a ha)⟩
  | other =>
    rw [members, List.forall_mem_singleton]
    trivial

/-- No description is written with a number. -/
theorem numberFree_toJson (d : Description) : d.toJson.NumberFree := by
  have halternatives : (Value.array (Shape.itemsOf d.alternatives)).NumberFree := by
    rw [Shape.itemsOf_eq_map]
    exact numberFree_array_map fun a _ => Shape.numberFree_itemOf a.shape.numberFree_members
  obtain ⟨name, package, closed, alternatives⟩ := d
  cases package with
  | none => exact ⟨trivial, trivial, halternatives, trivial⟩
  | some p => exact ⟨trivial, trivial, trivial, halternatives, trivial⟩

theorem numberFree_document (ds : List Description) :
    (Value.array (ds.map Description.toJson)).NumberFree :=
  numberFree_array_map fun d _ => numberFree_toJson d

theorem keysDistinct_array_map {α : Type} {write : α → Value} {items : List α}
    (h : ∀ a ∈ items, (write a).KeysDistinct) : (Value.array (items.map write)).KeysDistinct := by
  rw [Value.KeysDistinct, Value.keysDistinctItems_iff, List.forall_mem_map]
  exact h

theorem Shape.nodup_keys_members (shape : Shape) : (shape.members.map Prod.fst).Nodup := by
  cases shape <;> simp [members]

theorem Shape.keysDistinct_itemOf {a : Named Shape} (h : ∀ m ∈ a.shape.members, m.2.KeysDistinct) :
    (itemOf a).KeysDistinct := by
  have hname : "name" ∉ a.shape.members.map Prod.fst := by
    intro hmem
    obtain ⟨m, hm, hkey⟩ := List.mem_map.1 hmem
    exact a.shape.name_notMem_members m hm hkey
  rw [itemOf_eq, Value.KeysDistinct, Value.keysDistinctMembers_iff, List.map_cons,
    List.nodup_cons, List.forall_mem_cons]
  exact ⟨⟨hname, a.shape.nodup_keys_members⟩, trivial, h⟩

/-- No shape is written with a key twice. -/
theorem Shape.keysDistinct_members (shape : Shape) : ∀ m ∈ shape.members, m.2.KeysDistinct := by
  induction shape using Shape.induction with
  | record fields =>
    have hfield : ∀ f : FieldDescription, f.toJson.KeysDistinct := fun f =>
      ⟨by simp, trivial, trivial, trivial⟩
    rw [members, List.forall_mem_cons, List.forall_mem_singleton]
    exact ⟨trivial, keysDistinct_array_map fun f _ => hfield f⟩
  | sum alternatives ih =>
    rw [members, itemsOf_eq_map, List.forall_mem_cons, List.forall_mem_singleton]
    exact ⟨trivial, keysDistinct_array_map fun a ha => keysDistinct_itemOf (ih a ha)⟩
  | other =>
    rw [members, List.forall_mem_singleton]
    trivial

/-- No description is written with a key twice. -/
theorem keysDistinct_toJson (d : Description) : d.toJson.KeysDistinct := by
  have halternatives : (Value.array (Shape.itemsOf d.alternatives)).KeysDistinct := by
    rw [Shape.itemsOf_eq_map]
    exact keysDistinct_array_map fun a _ => Shape.keysDistinct_itemOf a.shape.keysDistinct_members
  obtain ⟨name, package, closed, alternatives⟩ := d
  cases package with
  | none => exact ⟨by simp, trivial, trivial, halternatives, trivial⟩
  | some p => exact ⟨by simp, trivial, trivial, trivial, halternatives, trivial⟩

/-- The compact text of a value without numbers and repeated keys holds that value and nothing
else. -/
theorem Json.Value.read_compact {v : Value} (hnumbers : v.NumberFree) (hkeys : v.KeysDistinct)
    (hdepth : v.depth ≤ deepest) : Value.read v.compact = .ok v := by
  obtain ⟨n, place, hread, hholds⟩ := exists_readFirst_compact hnumbers hdepth
  have hvalue : n.asValue = .ok v := map_eq_ok_iff.2 ⟨v, hholds, Value.merged_eq_self hkeys⟩
  rw [Value.read, decodeWhole, Node.readWhole, hread]
  dsimp only
  rw [hvalue]
  rfl

/-- A list of descriptions is read back from the value that it is written as. -/
theorem listOfValue_toJson (ds : List Description) :
    Description.listOfValue (.array (ds.map Description.toJson)) = .ok ds :=
  asItems_ofValue_map fun d _ => decode_toJson d

/-- A description that is written on its own is read back as the only one. -/
theorem listOfValue_toJson_single (d : Description) :
    Description.listOfValue d.toJson = .ok [d] := by
  show (fun d => [d]) <$> Description.decode (.ofValue d.toJson) = _
  rw [decode_toJson]
  rfl

/-- Every list of descriptions is read back from the value that it is written as, and from the
compact text of that value as long as the brackets of the text are nested at most 127 deep. -/
theorem wire_round_trip (ds : List Description) :
    Description.listOfValue (.array (ds.map Description.toJson)) = .ok ds ∧
      (bracketDepth (Value.array (ds.map Description.toJson)).compact ≤ 127 →
        Description.listOfText (Value.array (ds.map Description.toJson)).compact = .ok ds) := by
  have hvalue := listOfValue_toJson ds
  refine ⟨hvalue, fun hdepth => ?_⟩
  have hnumbers := numberFree_document ds
  rw [bracketDepth_compact hnumbers] at hdepth
  exact (listOfText_eq_ok_iff_of_holds (holds_read_compact hnumbers hdepth) ds).2 hvalue

/-- An open sum type without a package, and one with a package: a sum within a sum, names with
quotes, brackets and control characters, and no alternatives. -/
def nestedDescriptions : List Description :=
  [⟨"a.R", none, false,
    [⟨"\"[\n", .sum [⟨"B", .sum [⟨"é", .record [⟨"]x", "int"⟩, ⟨"", "\\"⟩]⟩]⟩, ⟨"C", .other⟩]⟩,
      ⟨"D", .record []⟩]⟩,
    ⟨"a.S", some "q", true, []⟩]

theorem wire_round_trip_nested :
    bracketDepth (Value.array (nestedDescriptions.map Description.toJson)).compact = 10 ∧
      Description.listOfText (Value.array (nestedDescriptions.map Description.toJson)).compact =
        .ok nestedDescriptions := by
  have hdepth : bracketDepth (Value.array (nestedDescriptions.map Description.toJson)).compact =
      10 := by
    rw [bracketDepth_compact (numberFree_document _)]
    rfl
  exact ⟨hdepth, (wire_round_trip nestedDescriptions).2 (by rw [hdepth]; decide)⟩

end WideRow
