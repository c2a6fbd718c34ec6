import WideRow.Proofs.Adapter.Parts
import WideRow.Proofs.Adapter.Readability
import WideRow.Proofs.Java.Evaluation
import WideRow.Proofs.RoundTrip

/-!
# Running the property at an index

The body that gives the property of a component at an index asks for the class of the component and
then switches over the positions of that alternative. The planner lays out the whole row at once.
Both give the same cells.

Results:
* `Candidate.slotsByPosition_pairwise`: the positions of a candidate, in strictly ascending order;
* `execAll_propertyBranches`: the branches end at that of the class of the component;
* `property_refines_project`: the body and the planner agree on every index.
-/

namespace WideRow

open Java Json

/-! ## Positions -/

namespace Candidate

/-- No two slots of a candidate have one position. -/
theorem positions_nodup {s : Schema} {a : Alternative} (ha : a.WellFormed) (hcovers : s.Covers a) :
    ((of s a).slots.map Prod.snd).Nodup := by
  have hfields : ((of s a).slots.map Prod.fst).Nodup := by
    rw [map_fst_slots hcovers]
    exact ha.fields_nodup
  refine List.Nodup.map_on ?_ (List.Nodup.of_map _ hfields)
  rintro ⟨f, k⟩ hf ⟨g, k'⟩ hg (rfl : k = k')
  rw [Schema.positionOf?_injective (mem_slots_iff.1 hf).2 (mem_slots_iff.1 hg).2]

/-- The positions of a candidate ascend strictly. -/
theorem slotsByPosition_pairwise {s : Schema} {a : Alternative} (ha : a.WellFormed)
    (hcovers : s.Covers a) : ((of s a).slotsByPosition.map Prod.snd).Pairwise (· < ·) := by
  have hnodup : ((of s a).slotsByPosition.map Prod.snd).Nodup :=
    ((slotsByPosition_perm _).map _).nodup_iff.2 (positions_nodup ha hcovers)
  rw [List.pairwise_map]
  rw [List.Nodup, List.pairwise_map] at hnodup
  exact (pairwise_slotsByPosition _).imp₂ (fun _ _ hle hne => Nat.lt_of_le_of_ne hle hne) hnodup

end Candidate

/-! ## Components -/

/-- The component that an instance is: its class is that of the alternative, and each accessor gives
what the instance has for the field. -/
def Instance.asComponent (i : Instance) (a : Alternative) : Component :=
  ⟨a.name, a.fields.map fun f => (f.name, i.valueOf f)⟩

/-- The parameters of the method. -/
def propertyScope (c : Component) (k : Nat) : Scope :=
  [("component", .component c), ("index", .number k)]

section Branches

variable {c : Component} {k : Nat} {x : String}

theorem lookup_propertyScope (hx : x ∉ avoidedNames) : (propertyScope c k).lookup x = none := by
  have hcomponent : x ≠ "component" := fun e => hx (e ▸ by decide)
  have hindex : x ≠ "index" := fun e => hx (e ▸ by decide)
  rw [propertyScope, List.lookup_cons, beq_eq_false_iff_ne.2 hcomponent, List.lookup_cons,
    beq_eq_false_iff_ne.2 hindex, List.lookup_nil]

/-- A branch for one class. -/
theorem exec_isInstance (hx : x ∉ avoidedNames) (className : String)
    (body otherwise : List Statement) :
    (Statement.conditional (BranchTest.isInstance className x).asExpression body otherwise).exec
      (propertyScope c k) =
      if c.className = className then execAll body ((x, .component c) :: propertyScope c k)
      else execAll otherwise (propertyScope c k) := by
  have hcomponent : (Expression.name "component").eval (propertyScope c k) =
      some (.component c) := rfl
  have htest : (BranchTest.isInstance className x).asExpression.eval (propertyScope c k) =
      some (.truth (c.className = className)) := by
    rw [BranchTest.asExpression, Expression.eval, lookup_propertyScope hx, hcomponent]
    rfl
  have hbinding : (BranchTest.isInstance className x).asExpression.binding (propertyScope c k) =
      [(x, .component c)] := by
    rw [BranchTest.asExpression, Expression.binding, hcomponent]
  rw [Statement.exec, htest, hbinding]
  by_cases hclass : c.className = className
  · simp [hclass]
  · simp [hclass]

/-- A case of the switch calls the accessor. -/
theorem eval_accessor (access : AccessCase) {v : Value}
    (hv : c.properties.lookup access.accessor = some v) :
    (access.asExpression x).eval ((x, .component c) :: propertyScope c k) = some (.ofValue v) := by
  simp [AccessCase.asExpression, Expression.eval, evalAll, Datum.invoke, hv]

/-- The switch gives the property of the slot at the index, and null if there is none. -/
theorem exec_returnSwitch {slots : List (Field × Nat)} {value : Field → Value}
    (hvalue : ∀ slot ∈ slots, c.properties.lookup slot.1.name = some (value slot.1))
    (hx : x ∉ avoidedNames) :
    (Final.returnSwitch x (slots.map fun slot => ⟨slot.2, slot.1.name⟩)).asStatement.exec
      ((x, .component c) :: propertyScope c k) =
      some (.returned (match slots.find? (·.2 == k) with
        | some slot => .ofValue (value slot.1)
        | none => .null)) := by
  have hindex : "index" ≠ x := fun e => hx (e ▸ by decide)
  have hsubject : (Expression.name "index").eval ((x, .component c) :: propertyScope c k) =
      some (.number k) := by
    rw [Expression.eval, List.lookup_cons, beq_eq_false_iff_ne.2 hindex]
    rfl
  have hcases := evalCase_map ((x, .component c) :: propertyScope c k) k Prod.snd
    (fun slot => (AccessCase.mk slot.2 slot.1.name).asExpression x) slots
  rw [Final.asStatement, List.map_map, Statement.exec, Expression.eval, hsubject]
  simp only [Option.bind_eq_bind, Option.bind_some, Function.comp_def]
  rw [hcases]
  cases hfind : slots.find? (·.2 == k) with
  | none => rfl
  | some slot =>
    have hcall := eval_accessor (c := c) (k := k) (x := x) ⟨slot.2, slot.1.name⟩
      (hvalue slot (List.mem_of_find?_eq_some hfind))
    rw [Option.map_some]
    dsimp only
    rw [hcall]
    rfl

end Branches

/-! ## Cells -/

/-- The slot at an index holds what the row of the instance has there. -/
theorem Candidate.property_eq_cell (s : Schema) (a : Alternative) (i : Instance) (k : Nat) :
    (match (of s a).slotsByPosition.find? (·.2 == k) with
      | some slot => Datum.ofValue (i.valueOf slot.1)
      | none => .null) = .ofValue ((a.rowOver s i).cells[k]?.getD .null) := by
  have hslot : ∀ slot, (of s a).slotsByPosition.find? (·.2 == k) = some slot →
      slot.1 ∈ a.fields ∧ s.fields.toList[k]? = some slot.1 := by
    rintro ⟨g, k'⟩ hfind
    have hmem := mem_slots_iff.1 (mem_slotsByPosition.1 (List.mem_of_find?_eq_some hfind))
    have hk : k' = k := by simpa using List.find?_some hfind
    rw [hk, Schema.positionOf?_eq_some_iff] at hmem
    exact hmem
  rw [Alternative.rowOver, List.getElem?_map]
  cases hfind : (of s a).slotsByPosition.find? (·.2 == k) with
  | some slot =>
    obtain ⟨hf, hcell⟩ := hslot slot hfind
    rw [hcell, Option.map_some, Option.getD_some, if_pos hf]
  | none =>
    cases hcell : s.fields.toList[k]? with
    | none => rfl
    | some f =>
      have hf : f ∉ a.fields := by
        intro hf
        have hmem := mem_slots_iff.2 ⟨hf, Schema.positionOf?_eq_some_iff.2 hcell⟩
        have := List.find?_eq_none.1 hfind (f, k) (mem_slotsByPosition.2 hmem)
        simp at this
      rw [Option.map_some, Option.getD_some, if_neg hf]
      rfl

/-! ## Branches -/

section Cascade

variable {d : Definition} {v : Alternative}

theorem get?_eq_lookup (ms : Members) (key : String) : ms.get? key = ms.lookup key := by
  induction ms with
  | nil => rfl
  | cons m ms ih =>
    obtain ⟨k, value⟩ := m
    rw [Members.get?, List.lookup_cons]
    by_cases hkey : k = key
    · simp [hkey]
    · rw [if_neg hkey, ih, beq_eq_false_iff_ne.2 (Ne.symm hkey)]

/-- An accessor gives what the instance has for the field. -/
theorem Alternative.WellFormed.lookup_asComponent (hv : v.WellFormed) (i : Instance) {f : Field}
    (hf : f ∈ v.fields) : (i.asComponent v).properties.lookup f.name = some (i.valueOf f) := by
  have hget := get?_map_fields i.valueOf hv.fieldNames_nodup hf
  rwa [get?_eq_lookup] at hget

/-- The body of the branch for the class of the component. -/
theorem execAll_propertyBranch (hv : v.WellFormed) (s : Schema) (i : Instance) (k : Nat) :
    execAll ((propertyBranch (.of s v)).guards.map Guard.asStatement ++
      [(propertyBranch (.of s v)).final.asStatement])
      ((localName v.name, .component (i.asComponent v)) :: propertyScope (i.asComponent v) k) =
      some (.returned (.ofValue ((v.rowOver s i).cells[k]?.getD .null))) := by
  have hx := localName_notMem_avoidedNames hv.name_qualified
  have hvalue : ∀ slot ∈ (Candidate.of s v).slotsByPosition,
      (i.asComponent v).properties.lookup slot.1.name = some (i.valueOf slot.1) :=
    fun slot hslot => hv.lookup_asComponent i
      (Candidate.mem_slots_iff.1 (Candidate.mem_slotsByPosition.1 hslot)).1
  rw [← Candidate.property_eq_cell]
  unfold propertyBranch
  dsimp only
  rw [List.map_nil, List.nil_append, execAll_singleton]
  split_ifs with hempty
  · have hnil : (Candidate.of s v).slotsByPosition = [] := by
      simpa [List.isEmpty_iff] using hempty
    rw [hnil]
    rfl
  · exact exec_returnSwitch hvalue hx

/-- The branches end at that of the class of the component. -/
theorem Definition.WellFormed.execAll_propertyBranches (h : d.WellFormed) (hv : v ∈ d.alternatives)
    (i : Instance) (k : Nat) {cs : List Candidate} (hcs : cs ⊆ d.planner.order)
    (hmem : Candidate.of d.schema v ∈ cs) :
    execAll (branchStatements .componentClass (cs.map propertyBranch))
      (propertyScope (i.asComponent v) k) =
      some (.returned (.ofValue ((v.rowOver d.schema i).cells[k]?.getD .null))) := by
  induction cs with
  | nil => cases hmem
  | cons c later ih =>
    obtain ⟨hc, hlater⟩ := List.cons_subset.1 hcs
    obtain ⟨a, ha, rfl⟩ := mem_order_iff.1 hc
    have hx := localName_notMem_avoidedNames (h.alternative_wellFormed a ha).name_qualified
    have hexec := exec_isInstance (c := i.asComponent v) (k := k) hx a.name
      ((propertyBranch (.of d.schema a)).guards.map Guard.asStatement ++
        [(propertyBranch (.of d.schema a)).final.asStatement])
      (branchStatements .componentClass (later.map propertyBranch))
    rw [List.map_cons, branchStatements, List.foldr_cons, execAll_singleton]
    refine hexec.trans ?_
    split_ifs with hclass
    · cases h.eq_of_name_eq hv ha hclass
      exact execAll_propertyBranch (h.alternative_wellFormed v hv) d.schema i k
    · refine ih hlater ((List.mem_cons.1 hmem).resolve_left fun e => hclass ?_)
      exact congrArg Candidate.name e

end Cascade

/-! ## Labels -/

section Labels

variable {d : Definition}

/-- The labels of all switches in the body ascend: those of one switch are the positions of a
candidate. -/
theorem Definition.WellFormed.labelsAscend_propertyBranches (h : d.WellFormed)
    {cs : List Candidate} (hcs : cs ⊆ d.planner.order) :
    ∀ e ∈ partsOfBlock (branchStatements .componentClass (cs.map propertyBranch)),
      e.LabelsAscend := by
  intro e he
  cases e with
  | choose subject cases otherwise =>
    obtain ⟨c, hc, hchoose⟩ := choose_mem_propertyBranches.1 he
    obtain ⟨a, ha, rfl⟩ := mem_order_iff.1 (hcs hc)
    obtain ⟨-, -, rfl, -⟩ := choose_mem_propertyBranch.1 hchoose
    have hlabels := Candidate.slotsByPosition_pairwise (h.alternative_wellFormed a ha)
      (covers_of_mem ha)
    rw [Expression.LabelsAscend, List.map_map]
    exact hlabels
  | _ => trivial

/-- For a built definition, an instance of one of its alternatives that carries no other fields, and
any index: the text of the body that gives a property, run as Java on a component of the class of
the alternative, returns the cell of the row of the instance at the index, and null beyond the
schema. The labels of every switch in the text ascend strictly. -/
theorem property_refines_project {description : Description} (h : description.build = .ok d)
    {v : Alternative} (hv : v ∈ d.alternatives) {i : Instance} (hi : i.BelongsTo v) :
    ∃ row, d.planner.project i = .ok row ∧
      (∀ k, k < d.schema.width → ∃ cell, row.cells[k]? = some cell ∧
        runBody (propertyCascade d.planner).write.text
          [("component", .component (i.asComponent v)), ("index", .number k)] =
            some (.returned (.ofValue cell))) ∧
      (∀ k, d.schema.width ≤ k →
        runBody (propertyCascade d.planner).write.text
          [("component", .component (i.asComponent v)), ("index", .number k)] =
            some (.returned .null)) ∧
      ∃ body, Java.read (propertyCascade d.planner).write.text = some body ∧
        ∀ e ∈ partsOfBlock body, e.LabelsAscend := by
  have hwf := Description.build_wellFormed h
  have hread := Cascade.read_text hwf.readable_propertyCascade
  have hrun : ∀ k, runBody (propertyCascade d.planner).write.text
      [("component", .component (i.asComponent v)), ("index", .number k)] =
      some (.returned (.ofValue ((v.rowOver d.schema i).cells[k]?.getD .null))) := by
    intro k
    rw [runBody, hread]
    exact hwf.execAll_propertyBranches hv i k (List.Subset.refl _)
      (Definition.mem_order_iff.2 ⟨v, hv, rfl⟩)
  have hwidth : (v.rowOver d.schema i).cells.length = d.schema.width :=
    Alternative.width_rowOver v d.schema i
  refine ⟨_, hwf.project_eq_ok hv hi, fun k hk => ?_, fun k hk => ?_, _, hread,
    hwf.labelsAscend_propertyBranches (List.Subset.refl _)⟩
  · have hcell := List.getElem?_eq_getElem (hwidth ▸ hk)
    refine ⟨_, hcell, ?_⟩
    rw [hrun, hcell, Option.getD_some]
  · rw [hrun, List.getElem?_eq_none (hwidth ▸ hk)]
    rfl

theorem property_overlapping :
    overlapping.build = .ok overlappingDefinition ∧
      overlappingLeft ∈ overlappingDefinition.alternatives ∧
      overlappingInstance.BelongsTo overlappingLeft ∧
      runBody (propertyCascade overlappingDefinition.planner).write.text
        [("component", .component (overlappingInstance.asComponent overlappingLeft)),
          ("index", .number 1)] = some (.returned (.value (.ofNat 2))) := by
  have hmem : overlappingLeft ∈ overlappingDefinition.alternatives := by
    decide
  have hbelongs : overlappingInstance.BelongsTo overlappingLeft := by
    decide
  have hwidth : 1 < overlappingDefinition.schema.width := by
    decide
  have hcell : (overlappingLeft.rowOver overlappingDefinition.schema
      overlappingInstance).cells[1]? = some (.ofNat 2) := by
    rfl
  have hproject := (Description.build_wellFormed overlapping_build).project_eq_ok hmem hbelongs
  obtain ⟨row, hrow, hinside, -⟩ := property_refines_project overlapping_build hmem hbelongs
  obtain ⟨cell, hfound, hrun⟩ := hinside 1 hwidth
  cases hproject.symm.trans hrow
  cases hcell.symm.trans hfound
  exact ⟨overlapping_build, hmem, hbelongs, hrun⟩

end Labels

end WideRow
