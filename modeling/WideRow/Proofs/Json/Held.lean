import WideRow.Json.Decoding
import WideRow.Proofs.WellFormed

/-!
# Held values

Which nodes hold a value, and which value. A value without a repeated key is not changed by
merging, so what is held of a text without repeated keys is what is read of it.

Main definitions:
* `Value.KeysDistinct`: no object in a value has two members of one key.

Results:
* `Value.induction`: what arrays and objects have if their parts have it, all values have;
* `Node.Holds.cases`, `Node.held_ofValue`: the nodes that hold a value;
* `Value.merged_eq_self`: values without repeated keys are merged already.
-/

namespace WideRow.Json

/-! ## Induction on values -/

/-- What all values without parts have, and all arrays and objects whose parts have it, all values
have. -/
@[elab_as_elim]
theorem Value.induction {motive : Value → Prop} (null : motive .null)
    (bool : ∀ b, motive (.bool b)) (number : ∀ n, motive (.number n))
    (string : ∀ s, motive (.string s))
    (array : ∀ items : List Value, (∀ v ∈ items, motive v) → motive (.array items))
    (object : ∀ members : List (String × Value), (∀ m ∈ members, motive m.2) →
      motive (.object members)) (v : Value) : motive v :=
  @Value.rec motive (fun items => ∀ v ∈ items, motive v) (fun members => ∀ m ∈ members, motive m.2)
    (fun m => motive m.2) null bool number string array object nofun
    (fun _ _ hv hrest => List.forall_mem_cons.2 ⟨hv, hrest⟩) nofun
    (fun _ _ hm hrest => List.forall_mem_cons.2 ⟨hm, hrest⟩) (fun _ _ hv => hv) v

/-! ## Repeated keys -/

mutual

/-- No object in the value has two members of one key. -/
def Value.KeysDistinct : Value → Prop
  | .array items => Value.KeysDistinctItems items
  | .object members => (members.map Prod.fst).Nodup ∧ Value.KeysDistinctMembers members
  | _ => True

/-- `KeysDistinct` of every item. -/
def Value.KeysDistinctItems : List Value → Prop
  | [] => True
  | v :: rest => v.KeysDistinct ∧ KeysDistinctItems rest

/-- `KeysDistinct` of the value of every member. -/
def Value.KeysDistinctMembers : List (String × Value) → Prop
  | [] => True
  | (_, v) :: rest => v.KeysDistinct ∧ KeysDistinctMembers rest

end

theorem Value.keysDistinctItems_iff {items : List Value} :
    KeysDistinctItems items ↔ ∀ v ∈ items, v.KeysDistinct := by
  induction items with
  | nil => simp [KeysDistinctItems]
  | cons v rest ih => rw [KeysDistinctItems, ih, List.forall_mem_cons]

theorem Value.keysDistinctMembers_iff {members : List (String × Value)} :
    KeysDistinctMembers members ↔ ∀ m ∈ members, m.2.KeysDistinct := by
  induction members with
  | nil => simp [KeysDistinctMembers]
  | cons m rest ih => rw [KeysDistinctMembers, ih, List.forall_mem_cons]

theorem Value.mergedItems_eq_map (items : List Value) : mergedItems items = items.map merged := by
  induction items with
  | nil => rfl
  | cons v rest ih => rw [mergedItems, ih, List.map_cons]

theorem Value.mergedMembers_eq_map (members : List (String × Value)) :
    mergedMembers members = members.map fun m => (m.1, m.2.merged) := by
  induction members with
  | nil => rfl
  | cons m rest ih => rw [mergedMembers, ih, List.map_cons]

/-- Members whose keys are distinct are kept as they are. -/
theorem Members.ofList_eq_self {entries : List (String × Value)}
    (h : (entries.map Prod.fst).Nodup) : Members.ofList entries = entries := by
  have hfold : ∀ (rest ms : List (String × Value)), ((ms ++ rest).map Prod.fst).Nodup →
      rest.foldl (fun ms entry => Members.insert ms entry.1 entry.2) ms = ms ++ rest := by
    intro rest
    induction rest with
    | nil => intro ms _; simp
    | cons entry rest ih =>
      intro ms hnodup
      have hnew : entry.1 ∉ ms.map Prod.fst := by
        rw [List.map_append, List.map_cons, List.nodup_append] at hnodup
        exact fun hmem => hnodup.2.2 _ hmem _ List.mem_cons_self rfl
      rw [List.append_cons] at hnodup
      rw [List.foldl_cons, insert_of_notMem _ hnew, ih _ hnodup, ← List.append_cons]
  exact hfold entries [] h

/-- Values without repeated keys are merged already. -/
theorem Value.merged_eq_self {v : Value} (h : v.KeysDistinct) : v.merged = v := by
  induction v using Value.induction with
  | null => rfl
  | bool b => rfl
  | number n => rfl
  | string s => rfl
  | array items ih =>
    rw [KeysDistinct, keysDistinctItems_iff] at h
    rw [merged, mergedItems_eq_map, List.map_congr_left fun v hv => ih v hv (h v hv), List.map_id']
  | object members ih =>
    rw [KeysDistinct, keysDistinctMembers_iff] at h
    have hself : members.map (fun m => (m.1, m.2.merged)) = members := by
      refine (List.map_congr_left fun m hm => ?_).trans (List.map_id' members)
      rw [ih m hm (h.2 m hm)]
    rw [merged, mergedMembers_eq_map, hself, Members.ofList_eq_self h.1]

/-! ## Nodes that hold a value -/

/-- The value of the node can be held. -/
def Node.Holds (n : Node) (v : Value) : Prop := n.held = .ok v

/-- The member has a key without a flaw, and a value that can be held. -/
def Node.HoldsMember (m : Key × Node) (e : String × Value) : Prop :=
  m.1.flaw = none ∧ m.1.text = e.1 ∧ m.2.Holds e.2

theorem within_eq_ok_iff {α : Type} {step : Step} {d : Decoded α} {a : α} :
    within step d = .ok a ↔ d = .ok a := by
  cases d <;> simp [within, Except.mapError]

theorem map_eq_ok_iff {ε α β : Type} {f : α → β} {x : Except ε α} {b : β} :
    f <$> x = .ok b ↔ ∃ a, x = .ok a ∧ f a = b := by
  cases x <;> simp [Functor.map, Except.map]

theorem Node.heldItems_eq_ok {ending : Option Break} {index : Nat} {items : List Node}
    {vs : List Value} (h : Node.heldItems ending index items = .ok vs) :
    ending = none ∧ List.Forall₂ Node.Holds items vs := by
  induction items generalizing index vs with
  | nil =>
    cases ending with
    | none =>
      cases h
      exact ⟨rfl, .nil⟩
    | some b => cases h
  | cons n rest ih =>
    simp only [heldItems, bind_eq_ok_iff, within_eq_ok_iff, pure_eq_ok_iff] at h
    obtain ⟨v, hv, others, hothers, rfl⟩ := h
    exact ⟨(ih hothers).1, .cons hv (ih hothers).2⟩

theorem Node.heldMembers_eq_ok {ending : Ending} {members : List (Key × Node)}
    {es : List (String × Value)} (h : Node.heldMembers ending members = .ok es) :
    ending = .closed ∧ List.Forall₂ Node.HoldsMember members es := by
  induction members generalizing es with
  | nil =>
    cases ending with
    | closed =>
      cases h
      exact ⟨rfl, .nil⟩
    | broken b => cases h
    | noColon key b =>
      cases hflaw : key.flaw with
      | none => simp [heldMembers, hflaw] at h
      | some flaw => simp [heldMembers, hflaw] at h
  | cons m rest ih =>
    obtain ⟨key, n⟩ := m
    cases hflaw : key.flaw with
    | some flaw =>
      rw [heldMembers, hflaw] at h
      cases h
    | none =>
      rw [heldMembers, hflaw] at h
      simp only [bind_eq_ok_iff, within_eq_ok_iff, pure_eq_ok_iff] at h
      obtain ⟨v, hv, others, hothers, rfl⟩ := h
      exact ⟨(ih hothers).1, .cons ⟨hflaw, rfl, hv⟩ (ih hothers).2⟩

/-- A node that holds a value is a scalar, a closed array or a closed object. -/
theorem Node.Holds.cases {n : Node} {v : Value} (h : n.Holds v) :
    (∃ span s, n = .scalar span s ∧ v = s.value) ∨
    (∃ span items vs, n = .array span items none ∧ v = .array vs ∧
      List.Forall₂ Node.Holds items vs) ∨
    ∃ span members es, n = .object span members .closed ∧ v = .object es ∧
      List.Forall₂ Node.HoldsMember members es := by
  cases n with
  | scalar span s => exact .inl ⟨span, s, rfl, (Except.ok.inj h).symm⟩
  | unheld span complaint => cases h
  | broken start b => cases h
  | array span items ending =>
    obtain ⟨vs, hvs, rfl⟩ := map_eq_ok_iff.1 h
    obtain ⟨rfl, hitems⟩ := heldItems_eq_ok hvs
    exact .inr (.inl ⟨span, items, vs, rfl, rfl, hitems⟩)
  | object span members ending =>
    obtain ⟨es, hes, rfl⟩ := map_eq_ok_iff.1 h
    obtain ⟨rfl, hmembers⟩ := heldMembers_eq_ok hes
    exact .inr (.inr ⟨span, members, es, rfl, rfl, hmembers⟩)

/-! ## Nodes of values -/

theorem Node.ofItems_eq_map (items : List Value) : ofItems items = items.map ofValue := by
  induction items with
  | nil => rfl
  | cons v rest ih => rw [ofItems, ih, List.map_cons]

theorem Node.ofMembers_eq_map (members : List (String × Value)) :
    ofMembers members = members.map fun m => (.ofText m.1, ofValue m.2) := by
  induction members with
  | nil => rfl
  | cons m rest ih => rw [ofMembers, ih, List.map_cons]

theorem Node.heldItems_of_holds {items : List Node} {vs : List Value}
    (h : List.Forall₂ Node.Holds items vs) (index : Nat) :
    Node.heldItems none index items = .ok vs := by
  induction h generalizing index with
  | nil => rfl
  | cons hv hrest ih =>
    rw [heldItems, hv, ih]
    rfl

theorem Node.heldMembers_of_holds {members : List (Key × Node)} {es : List (String × Value)}
    (h : List.Forall₂ Node.HoldsMember members es) :
    Node.heldMembers .closed members = .ok es := by
  induction h with
  | nil => rfl
  | cons hm hrest ih =>
    obtain ⟨hflaw, htext, hv⟩ := hm
    rw [heldMembers, hflaw, hv, ih, htext]
    rfl

/-- The node of a value holds it. -/
theorem Node.held_ofValue (v : Value) : (Node.ofValue v).Holds v := by
  induction v using Value.induction with
  | null => rfl
  | bool b => rfl
  | number n => rfl
  | string s => rfl
  | array items ih =>
    rw [Holds, ofValue, held, ofItems_eq_map, heldItems_of_holds]
    · rfl
    · exact List.forall₂_map_left_iff.2 (List.forall₂_same.2 ih)
  | object members ih =>
    rw [Holds, ofValue, held, ofMembers_eq_map, heldMembers_of_holds]
    · rfl
    · exact List.forall₂_map_left_iff.2 (List.forall₂_same.2 fun m hm => ⟨rfl, rfl, ih m hm⟩)

end WideRow.Json
