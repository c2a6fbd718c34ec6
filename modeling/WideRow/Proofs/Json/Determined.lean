import WideRow.Proofs.Json.Held

/-!
# Decoders that go by the value

A node may come from a text, with places and faults, or from a value, without any. Where a node
holds a value, the decoders make the same of it as of the node of that value, up to the wording of
their faults.

Main definitions:
* `Determined`: a decoder goes by the value that a node holds;
* `DeterminedStep`: the same for what is done with a member.

Results:
* `Determined.asItems`, `bind_nextOrDefault`, `toOption_walkMembers`: arrays and objects are decoded
  by their values if their parts are.
-/

namespace WideRow.Json

/-! ## Outcomes without faults -/

section

variable {ε ε' α β : Type}

theorem toOption_eq_some_iff {x : Except ε α} {a : α} : x.toOption = some a ↔ x = .ok a := by
  cases x <;> simp [Except.toOption]

theorem toOption_bind (x : Except ε α) (f : α → Except ε β) :
    (x >>= f).toOption = x.toOption.bind fun a => (f a).toOption := by
  cases x <;> rfl

theorem toOption_map (f : α → β) (x : Except ε α) : (f <$> x).toOption = x.toOption.map f := by
  cases x <;> rfl

theorem toOption_mapError (f : ε → ε') (x : Except ε α) :
    (x.mapError f).toOption = x.toOption := by
  cases x <;> rfl

theorem toOption_within (step : Step) (d : Decoded α) : (within step d).toOption = d.toOption :=
  toOption_mapError _ d

/-- Stages with the same outcomes make runs with the same outcome. -/
theorem toOption_bind_congr {x y : Except ε α} {f g : α → Except ε β}
    (hxy : x.toOption = y.toOption) (hfg : ∀ a, (f a).toOption = (g a).toOption) :
    (x >>= f).toOption = (y >>= g).toOption := by
  rw [toOption_bind, toOption_bind, hxy, funext hfg]

end

/-! ## Decoders -/

variable {α σ : Type}

/-- What the decoder makes of a node that holds a value, it makes of the node of the value. -/
def Determined (decode : Node → Decoded α) : Prop :=
  ∀ n v, n.Holds v → (decode n).toOption = (decode (.ofValue v)).toOption

/-- Who takes nothing but scalars, and those wherever they stand, goes by the value. -/
theorem determined_of_scalars {decode : Node → Decoded α}
    (hscalar : ∀ span s,
      (decode (.scalar span s)).toOption = (decode (.scalar .nowhere s)).toOption)
    (harray : ∀ span items ending, (decode (.array span items ending)).toOption = none)
    (hobject : ∀ span members ending, (decode (.object span members ending)).toOption = none) :
    Determined decode := by
  intro n v h
  rcases h.cases with ⟨span, s, rfl, rfl⟩ | ⟨span, items, vs, rfl, rfl, -⟩ |
    ⟨span, members, es, rfl, rfl, -⟩
  · rw [hscalar]
    cases s <;> rfl
  · rw [harray, Node.ofValue, harray]
  · rw [hobject, Node.ofValue, hobject]

theorem determined_asString : Determined Node.asString :=
  determined_of_scalars (fun _ s => by cases s <;> rfl) (fun _ _ _ => rfl) fun _ _ _ => rfl

theorem determined_asOptionalString : Determined Node.asOptionalString :=
  determined_of_scalars (fun _ s => by cases s <;> rfl) (fun _ _ _ => rfl) fun _ _ _ => rfl

theorem determined_asBool : Determined Node.asBool :=
  determined_of_scalars (fun _ s => by cases s <;> rfl) (fun _ _ _ => rfl) fun _ _ _ => rfl

/-! ## Arrays -/

section

variable {decode : Node → Decoded α} {items : List Node} {vs : List Value}

theorem Determined.decodeItems (hdecode : Determined decode) (h : List.Forall₂ Node.Holds items vs)
    (index : Nat) :
    (Json.decodeItems decode index items).toOption =
      (Json.decodeItems decode index (vs.map .ofValue)).toOption := by
  induction h generalizing index with
  | nil => rfl
  | cons hv hrest ih =>
    rw [List.map_cons, Json.decodeItems, Json.decodeItems]
    refine toOption_bind_congr ?_ fun first => toOption_bind_congr (ih _) fun others => rfl
    rw [toOption_within, toOption_within, hdecode _ _ hv]

theorem Determined.asItems (hdecode : Determined decode) : Determined (Node.asItems decode) := by
  intro n v h
  rcases h.cases with ⟨span, s, rfl, rfl⟩ | ⟨span, items, vs, rfl, rfl, hitems⟩ |
    ⟨span, members, es, rfl, rfl, -⟩
  · cases s <;> rfl
  · rw [Node.ofValue, Node.ofItems_eq_map, Node.asItems, Node.asItems]
    exact toOption_bind_congr (hdecode.decodeItems hitems 0) fun decoded => rfl
  · rfl

/-- The next item is decoded by its value, and what is done with the items after it goes by their
values. -/
theorem Determined.bind_nextOrDefault {β : Type} (hdecode : Determined decode)
    (h : List.Forall₂ Node.Holds items vs) (default : α) (index : Nat)
    {f g : α × List Node → Decoded β}
    (hfg : ∀ a rest vs', List.Forall₂ Node.Holds rest vs' →
      (f (a, rest)).toOption = (g (a, vs'.map .ofValue)).toOption) :
    (nextOrDefault decode default index items none >>= f).toOption =
      (nextOrDefault decode default index (vs.map .ofValue) none >>= g).toOption := by
  cases h with
  | nil => exact hfg default [] [] .nil
  | @cons n v rest vs' hv hrest =>
    have hnext : (within (.index index) (decode n)).toOption =
        (within (.index index) (decode (.ofValue v))).toOption := by
      rw [toOption_within, toOption_within, hdecode _ _ hv]
    rw [List.map_cons, nextOrDefault, nextOrDefault, bind_assoc, bind_assoc]
    exact toOption_bind_congr hnext fun a => hfg a rest vs' hrest

theorem toOption_beyondLast (h : List.Forall₂ Node.Holds items vs) (length : Nat) :
    (beyondLast length items none).toOption =
      (beyondLast length (vs.map .ofValue) none).toOption := by
  cases h with
  | nil => rfl
  | cons hv hrest =>
    rw [List.map_cons, beyondLast, beyondLast]
    split <;> split <;> rfl

end

/-! ## Objects -/

/-- What is done with a member goes by the text of its key and by the value that its node holds. -/
def DeterminedStep (step : MemberStep σ) : Prop :=
  ∀ s key key' n v, key.text = key'.text → n.Holds v →
    (step s key >>= fun take => take n).toOption =
      (step s key' >>= fun take => take (.ofValue v)).toOption

theorem Determined.takeOnce {decode : Node → Decoded α} (hdecode : Determined decode)
    (key key' : Key) (slot : Option α) (fill : α → σ) {n : Node} {v : Value} (h : n.Holds v) :
    (Json.takeOnce key slot decode fill >>= fun take => take n).toOption =
      (Json.takeOnce key' slot decode fill >>= fun take => take (.ofValue v)).toOption := by
  cases slot with
  | some a => rfl
  | none =>
    show (fill <$> decode n).toOption = (fill <$> decode (.ofValue v)).toOption
    rw [toOption_map, toOption_map, hdecode n v h]

theorem walkMembers_cons (step : MemberStep σ) (s : σ) {key : Key} (hflaw : key.flaw = none)
    (value : Node) (rest : List (Key × Node)) (ending : Ending) :
    (walkMembers step s ((key, value) :: rest) ending).toOption =
      ((step s key >>= fun take => take value) >>= fun s =>
        walkMembers step s rest ending).toOption := by
  rw [walkMembers, hflaw]
  simp only [toOption_bind, toOption_within, Option.bind_assoc]

theorem toOption_walkMembers {step : MemberStep σ} (hstep : DeterminedStep step) (s : σ)
    {members : List (Key × Node)} {es : List (String × Value)}
    (h : List.Forall₂ Node.HoldsMember members es) :
    (walkMembers step s members .closed).toOption =
      (walkMembers step s (Node.ofMembers es) .closed).toOption := by
  induction h generalizing s with
  | nil => rfl
  | @cons m e members es hm hrest ih =>
    obtain ⟨hflaw, htext, hv⟩ := hm
    rw [Node.ofMembers, walkMembers_cons step s hflaw, walkMembers_cons step s rfl]
    exact toOption_bind_congr (hstep s m.1 (.ofText e.1) m.2 e.2 htext hv) ih

/-! ## Values passed over -/

theorem passItems_of_holds {items : List Node} {vs : List Value}
    (h : List.Forall₂ Node.Holds items vs)
    (hpass : ∀ v ∈ vs, ∀ n : Node, n.Holds v → n.passFault? = none) :
    Node.passItems none items = none := by
  induction h with
  | nil => rfl
  | cons hv hrest ih =>
    rw [List.forall_mem_cons] at hpass
    rw [Node.passItems, hpass.1 _ hv, ih hpass.2]
    rfl

theorem passMembers_of_holds {members : List (Key × Node)} {es : List (String × Value)}
    (h : List.Forall₂ Node.HoldsMember members es)
    (hpass : ∀ e ∈ es, ∀ n : Node, n.Holds e.2 → n.passFault? = none) :
    Node.passMembers .closed members = none := by
  induction h with
  | nil => rfl
  | cons hm hrest ih =>
    rw [List.forall_mem_cons] at hpass
    rw [Node.passMembers, hpass.1 _ hm.2.2, ih hpass.2]
    rfl

/-- Who passes over a node that holds a value meets no fault. -/
theorem Node.Holds.passFault?_eq_none {n : Node} {v : Value} (h : n.Holds v) :
    n.passFault? = none := by
  induction v using Value.induction generalizing n with
  | null | bool | number | string =>
    rcases h.cases with ⟨span, s, rfl, -⟩ | ⟨span, items, vs, rfl, hv, -⟩ |
      ⟨span, members, es, rfl, hv, -⟩
    · rfl
    · cases hv
    · cases hv
  | array vs ih =>
    rcases h.cases with ⟨span, s, rfl, -⟩ | ⟨span, items, vs', rfl, hv, hitems⟩ |
      ⟨span, members, es, rfl, hv, -⟩
    · rfl
    · cases hv
      exact passItems_of_holds hitems fun v hv n hn => ih v hv hn
    · cases hv
  | object es ih =>
    rcases h.cases with ⟨span, s, rfl, -⟩ | ⟨span, items, vs, rfl, hv, -⟩ |
      ⟨span, members, es', rfl, hv, hmembers⟩
    · rfl
    · cases hv
    · cases hv
      exact passMembers_of_holds hmembers fun e he n hn => ih e he hn

theorem determined_pass : Determined Node.pass := by
  intro n v h
  rw [Node.pass, Node.pass, h.passFault?_eq_none, (Node.held_ofValue v).passFault?_eq_none]

end WideRow.Json
