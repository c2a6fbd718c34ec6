import WideRow.Proofs.Candidates

/-!
# The row of an instance

The row that an instance is laid out in, said column by column: the cell of a field holds the value
of the instance if the alternative has that very field, name and type, and is absent otherwise.

Results:
* `Planner.cellAt_of`: the cell at the position of a field;
* `Definition.WellFormed.project_eq_ok`: the row of an instance that carries only fields of its
  alternative;
* `Alternative.completedIn_rowOver_iff`: the alternatives that a full row completes.
-/

namespace WideRow

open Json

/-! ## Instances of an alternative -/

namespace Instance

/-- The value of a field; absent if the instance does not carry it. -/
def valueOf (i : Instance) (f : Field) : Value := (i.fields.get? f.name).getD .null

/-- The instance is one of the alternative and carries no other fields than its own. -/
def BelongsTo (i : Instance) (a : Alternative) : Prop :=
  i.alternative = a.name ∧ ∀ entry ∈ i.fields, ∃ f ∈ a.fields, f.name = entry.1

/-- The instance has a value for every field of the alternative. -/
def Fills (i : Instance) (a : Alternative) : Prop := ∀ f ∈ a.fields, (i.valueOf f).isNull = false

instance (i : Instance) (a : Alternative) : Decidable (i.BelongsTo a) :=
  inferInstanceAs (Decidable (_ ∧ ∀ entry ∈ i.fields, ∃ f ∈ a.fields, f.name = entry.1))

instance (i : Instance) (a : Alternative) : Decidable (i.Fills a) :=
  inferInstanceAs (Decidable (∀ f ∈ a.fields, _))

end Instance

/-- The row with a value for every column. -/
def Schema.layOut (s : Schema) (value : Field → Value) : Row := ⟨s.fields.toList.map value⟩

/-- The row with the values of an instance in the columns of an alternative. -/
def Alternative.rowOver (a : Alternative) (s : Schema) (i : Instance) : Row :=
  ⟨s.fields.toList.map fun f => if f ∈ a.fields then i.valueOf f else .null⟩

/-! ## Cells -/

theorem Schema.cellOf_layOut {s : Schema} {f : Field} (hf : f ∈ s.fields) (value : Field → Value) :
    s.cellOf (s.layOut value) f = value f := by
  obtain ⟨k, hk⟩ := Schema.exists_positionOf? hf
  rw [Schema.cellOf_eq _ hk, Schema.layOut, List.getElem?_map,
    Schema.positionOf?_eq_some_iff.1 hk, Option.map_some, Option.getD_some]

theorem Alternative.width_rowOver (a : Alternative) (s : Schema) (i : Instance) :
    (a.rowOver s i).width = s.width := List.length_map _

theorem Alternative.cellOf_rowOver {a : Alternative} {s : Schema} {f : Field} (hf : f ∈ s.fields)
    (i : Instance) :
    s.cellOf (a.rowOver s i) f = if f ∈ a.fields then i.valueOf f else .null :=
  Schema.cellOf_layOut hf _

/-- The cell at the position of a field holds the value of that field and of no other. -/
theorem Planner.cellAt_of {s : Schema} {a : Alternative} {f : Field} {k : Nat} (i : Instance)
    (hk : s.positionOf? f = some k) :
    Planner.cellAt (.of s a) i.fields k = if f ∈ a.fields then i.valueOf f else .null := by
  rw [Planner.cellAt]
  cases hfind : (Candidate.of s a).slots.find? (·.2 == k) with
  | none =>
    rw [if_neg]
    intro hf
    have := List.find?_eq_none.1 hfind (f, k) (Candidate.mem_slots_iff.2 ⟨hf, hk⟩)
    simp at this
  | some slot =>
    obtain ⟨g, k'⟩ := slot
    obtain ⟨hg, hgk⟩ := Candidate.mem_slots_iff.1 (List.mem_of_find?_eq_some hfind)
    have hk' : k' = k := by simpa using List.find?_some hfind
    rw [Schema.positionOf?_injective hk (hk' ▸ hgk), if_pos hg]
    rfl

/-! ## Projection -/

theorem Definition.WellFormed.candidate?_name {d : Definition} (h : d.WellFormed) {a : Alternative}
    (ha : a ∈ d.alternatives) : d.planner.candidate? a.name = some (.of d.schema a) := by
  rw [Planner.candidate?]
  cases hfind : d.planner.order.find? (·.name = a.name) with
  | none =>
    have := List.find?_eq_none.1 hfind _ (mem_order_iff.2 ⟨a, ha, rfl⟩)
    simp at this
  | some c =>
    obtain ⟨b, hb, rfl⟩ := mem_order_iff.1 (List.mem_of_find?_eq_some hfind)
    have hname := List.find?_some hfind
    rw [decide_eq_true_eq, Candidate.of_name] at hname
    rw [h.eq_of_name_eq hb ha hname]

/-- An instance that carries only fields of its alternative has a row. -/
theorem Definition.WellFormed.project_eq_ok {d : Definition} (h : d.WellFormed) {a : Alternative}
    (ha : a ∈ d.alternatives) {i : Instance} (hi : i.BelongsTo a) :
    d.planner.project i = .ok (a.rowOver d.schema i) := by
  have hstray : i.fields.find? (fun entry => (a.field? entry.1).isNone) = none := by
    rw [List.find?_eq_none]
    intro entry hentry
    obtain ⟨f, hf, hname⟩ := hi.2 entry hentry
    rw [Option.isNone_iff_eq_none, Alternative.field?, List.find?_eq_none]
    exact fun hall => hall f hf (decide_eq_true hname)
  rw [Planner.project, hi.1, h.candidate?_name ha]
  dsimp only
  rw [Candidate.of_alternative, hstray]
  refine congrArg (fun cells => Except.ok (Row.mk cells)) (List.ext_getElem ?_ fun k hk hk' => ?_)
  · rw [List.length_map, List.length_map, List.length_range]
    rfl
  · rw [List.getElem_map, List.getElem_map, List.getElem_range]
    refine Planner.cellAt_of i (Schema.positionOf?_eq_some_iff.2 ?_)
    exact List.getElem?_eq_getElem _

/-- The row of a full instance completes the alternatives inside its own. -/
theorem Alternative.completedIn_rowOver_iff {a b : Alternative} {s : Schema} {i : Instance}
    (hfull : i.Fills a) (hb : s.Covers b) :
    b.CompletedIn s (a.rowOver s i) ↔ b.fieldSet ⊆ a.fieldSet := by
  rw [Alternative.fieldSet_subset_iff]
  refine forall₂_congr fun f hf => ?_
  rw [Alternative.cellOf_rowOver (hb f hf)]
  split_ifs with hfa
  · exact iff_of_true (hfull f hfa) hfa
  · exact iff_of_false (by simp [Value.isNull]) hfa

end WideRow
