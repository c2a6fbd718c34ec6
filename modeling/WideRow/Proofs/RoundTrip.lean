import WideRow.Proofs.Projection
import WideRow.Proofs.Reconstruction

/-!
# Instances read back

The row of a full instance completes the alternatives inside its own and no others, whatever the
alternatives are. So it is read back as the same instance, unless another alternative has the very
same fields: then all alternatives with these fields are named.

Results:
* `Definition.decides_rowOver`: the alternative that the row of a full instance belongs to;
* `Definition.WellFormed.resolve_rowOver_of_shared`: the ambiguity of a shared field set;
* `Definition.WellFormed.reconstruct_rowOver`: the instance that the row of a full one is read as;
* `reconstruct_project`: the round trip, and its exact limit.
-/

namespace WideRow

open Json

/-- The search is ambiguous among the candidates of equal positions if no other is in the way. -/
theorem Planner.resolve_eq_ties {p : Planner} {row : Row} {winner : Candidate}
    {later : List Candidate} (hwidth : row.width = p.width)
    (hfirst : firstFit row p.order = some (winner, later))
    (hlater : ∀ c ∈ later, c.fits row → winner.beyond c = [])
    (hties : 1 < (p.tiesOf winner).length) :
    p.resolve row = .error (.ambiguous ((p.tiesOf winner).map (·.name))) := by
  rcases resolve_of_firstFit hwidth hfirst with ⟨hrivals, -⟩ | ⟨-, -, he⟩ | ⟨-, hle, -⟩
  · exact absurd (Candidate.rivalsIn_eq_nil_iff.2 hlater) hrivals
  · exact he
  · exact absurd hties (Nat.not_lt_of_le hle)

namespace Definition

variable {d : Definition} {a : Alternative} {i : Instance}

/-- The names of the alternatives with a given field set, in the order in which they are tried. -/
def namesSharing (d : Definition) (fields : FieldSet) : List String :=
  ((d.planner.order.map (·.alternative)).filter (·.fieldSet = fields)).map (·.name)

/-- The row of a full instance belongs to its alternative, if no other has its field set. -/
theorem decides_rowOver (ha : a ∈ d.alternatives) (hfull : i.Fills a)
    (halone : ∀ b ∈ d.alternatives, b.fieldSet = a.fieldSet → b = a) :
    d.Decides (a.rowOver d.schema i) a := by
  refine ⟨a.width_rowOver _ i, ?_, fun b hb hne hcompleted => ?_⟩
  · rw [Alternative.completedIn_rowOver_iff hfull (covers_of_mem ha)]
    exact fun _ => id
  · rw [Alternative.completedIn_rowOver_iff hfull (covers_of_mem hb)] at hcompleted
    exact FieldSet.ssubset_iff_subset_ne.2 ⟨hcompleted, fun e => hne (halone b hb e)⟩

theorem map_name_tiesOf (ha : a ∈ d.alternatives) :
    (d.planner.tiesOf (.of d.schema a)).map (·.name) = d.namesSharing a.fieldSet := by
  rw [namesSharing, List.filter_map, List.map_map, Planner.tiesOf]
  refine congrArg _ (List.filter_congr fun c hc => ?_)
  obtain ⟨b, hb, rfl⟩ := mem_order_iff.1 hc
  rw [Bool.eq_iff_iff, Candidate.ties_iff (covers_of_mem ha) (covers_of_mem hb),
    Function.comp_apply, decide_eq_true_eq]
  exact eq_comm

/-- The row of a full instance of a shared field set is ambiguous, and just the alternatives with
that field set are named. -/
theorem WellFormed.resolve_rowOver_of_shared (h : d.WellFormed) (ha : a ∈ d.alternatives)
    (hfull : i.Fills a) {b : Alternative} (hb : b ∈ d.alternatives) (hne : b ≠ a)
    (hshared : b.fieldSet = a.fieldSet) :
    d.planner.resolve (a.rowOver d.schema i) =
      .error (.ambiguous (d.namesSharing a.fieldSet)) := by
  have hfits : ∀ {c : Alternative}, c ∈ d.alternatives →
      ((Candidate.of d.schema c).fits (a.rowOver d.schema i) ↔ c.fieldSet ⊆ a.fieldSet) := by
    intro c hc
    rw [Candidate.fits_iff (covers_of_mem hc),
      Alternative.completedIn_rowOver_iff hfull (covers_of_mem hc)]
  have hafits := (hfits ha).2 fun _ => id
  have hamem := mem_order_iff.2 ⟨a, ha, rfl⟩
  obtain ⟨winner, later, hfirst⟩ := Planner.exists_firstFit_of_fits hamem hafits
  obtain ⟨hmem, hwinner⟩ := Planner.mem_of_firstFit hfirst
  obtain ⟨w, hw, rfl⟩ := mem_order_iff.1 hmem
  -- the first candidate that fits has the field set of the instance's alternative
  have hsub := (hfits hw).1 hwinner
  have hset : w.fieldSet = a.fieldSet := by
    by_contra hneset
    have hlt := (h.alternative_wellFormed w hw).arity_lt_of_ssubset
      (FieldSet.ssubset_iff_subset_ne.2 ⟨hsub, hneset⟩)
    have hle : a.arity ≤ w.arity := WellFormed.arity_le_of_firstFit hfirst hamem hafits
    omega
  have hwidth : (a.rowOver d.schema i).width = d.planner.width := a.width_rowOver _ i
  rw [Planner.resolve_eq_ties hwidth hfirst, map_name_tiesOf hw, hset]
  · intro c hc hcfits
    obtain ⟨e, he, rfl⟩ := mem_order_iff.1 (Planner.mem_of_mem_later hfirst hc)
    rw [Candidate.beyond_eq_nil_iff (covers_of_mem he), hset]
    exact (hfits he).1 hcfits
  · by_contra hle
    have halone := (h.length_tiesOf_le_one_iff hw).1 (by omega)
    exact hne ((halone b hb (hset.trans hshared.symm)).trans (halone a ha hset).symm)

end Definition

/-! ## Fields read back -/

/-- Members listed field by field hold under each name the value of its field. -/
theorem get?_map_fields {fields : List Field} (value : Field → Value)
    (hnodup : (fields.map (·.name)).Nodup) {f : Field} (hf : f ∈ fields) :
    Members.get? (fields.map fun f => (f.name, value f)) f.name = some (value f) := by
  induction fields with
  | nil => cases hf
  | cons g rest ih =>
    rw [List.map_cons, List.nodup_cons] at hnodup
    rw [List.map_cons, Members.get?]
    rcases List.mem_cons.1 hf with rfl | hf
    · rw [if_pos rfl]
    · have hne : g.name ≠ f.name := fun e => hnodup.1 (e ▸ List.mem_map_of_mem hf)
      rw [if_neg hne, ih hnodup.2 hf]

/-- Read back field by field, a full instance has the members that it had. -/
theorem Instance.Fills.get?_valueOf {i : Instance} {a : Alternative} (hfull : i.Fills a)
    (hi : i.BelongsTo a) (ha : a.WellFormed) (name : String) :
    Members.get? (a.fields.map fun f => (f.name, i.valueOf f)) name = i.fields.get? name := by
  by_cases hname : ∃ f ∈ a.fields, f.name = name
  · obtain ⟨f, hf, rfl⟩ := hname
    rw [get?_map_fields i.valueOf ha.fieldNames_nodup hf]
    have := hfull f hf
    rw [Instance.valueOf] at this ⊢
    cases hget : i.fields.get? f.name with
    | none => rw [hget] at this; cases this
    | some v => rfl
  · rw [Members.get?_eq_none_of_notMem, Members.get?_eq_none_of_notMem]
    · rintro hmem
      obtain ⟨entry, hentry, rfl⟩ := List.mem_map.1 hmem
      exact hname (hi.2 entry hentry)
    · rintro hmem
      obtain ⟨_, hentry, rfl⟩ := List.mem_map.1 hmem
      obtain ⟨f, hf, rfl⟩ := List.mem_map.1 hentry
      exact hname ⟨f, hf, rfl⟩

/-- An instance of the alternative with a value for every field. -/
def Alternative.filled (a : Alternative) : Instance :=
  ⟨a.name, a.fields.map fun f => (f.name, .bool true)⟩

theorem Alternative.keys_filled (a : Alternative) :
    a.filled.fields.map Prod.fst = a.fields.map (·.name) := by
  rw [filled, List.map_map]
  rfl

theorem Alternative.filled_belongsTo (a : Alternative) : a.filled.BelongsTo a := by
  refine ⟨rfl, fun entry hentry => ?_⟩
  obtain ⟨f, hf, rfl⟩ := List.mem_map.1 hentry
  exact ⟨f, hf, rfl⟩

theorem Alternative.WellFormed.filled_fills {a : Alternative} (h : a.WellFormed) :
    a.filled.Fills a := by
  intro f hf
  rw [Instance.valueOf, Alternative.filled, get?_map_fields (fun _ => .bool true)
    h.fieldNames_nodup hf]
  rfl

/-- The row of a full instance is read back as the instance of the same values, in the order in
which the alternative declares its fields, if no other alternative has the same field set. -/
theorem Definition.WellFormed.reconstruct_rowOver {d : Definition} (h : d.WellFormed)
    {a : Alternative} (ha : a ∈ d.alternatives) {i : Instance} (hfull : i.Fills a)
    (halone : ∀ b ∈ d.alternatives, b.fieldSet = a.fieldSet → b = a) :
    d.planner.reconstruct (a.rowOver d.schema i) =
      .ok ⟨a.name, a.fields.map fun f => (f.name, i.valueOf f)⟩ := by
  refine h.reconstruct_eq_ok_iff.2 ⟨a, ha, decides_rowOver ha hfull halone, ?_⟩
  refine congrArg (Instance.mk a.name) (List.map_congr_left fun f hf => ?_)
  rw [Alternative.cellOf_rowOver (covers_of_mem ha f hf), if_pos hf]

/-! ## The round trip -/

/-- For a built definition, the row of an instance with a value for every field of its alternative,
and no other field, is read back as an instance of the same name and with the same members if no
other alternative has the same field set. If one has, the row is ambiguous, and the alternatives
with that field set are named, in the order in which they are tried. -/
theorem reconstruct_project {description : Description} {d : Definition}
    (h : description.build = .ok d) {v : Alternative} (hv : v ∈ d.alternatives) {i : Instance}
    (hi : i.BelongsTo v) (hfull : i.Fills v) :
    ∃ row, d.planner.project i = .ok row ∧
      ((∀ a ∈ d.alternatives, a ≠ v → a.fieldSet ≠ v.fieldSet) →
        ∃ j, d.planner.reconstruct row = .ok j ∧ j.alternative = v.name ∧
          ∀ name, j.fields.get? name = i.fields.get? name) ∧
      ((∃ a ∈ d.alternatives, a ≠ v ∧ a.fieldSet = v.fieldSet) →
        d.planner.reconstruct row = .error (.ambiguous (d.namesSharing v.fieldSet))) := by
  have hwf := Description.build_wellFormed h
  refine ⟨_, hwf.project_eq_ok hv hi, fun halone => ?_, fun hshared => ?_⟩
  · have hdecides := Definition.decides_rowOver hv hfull fun a ha e =>
      by_contra fun hne => halone a ha hne e
    refine ⟨_, hwf.reconstruct_eq_ok_iff.2 ⟨v, hv, hdecides, rfl⟩, rfl, fun name => ?_⟩
    rw [← hfull.get?_valueOf hi (hwf.alternative_wellFormed v hv)]
    refine congrArg (Members.get? · name) (List.map_congr_left fun f hf => ?_)
    rw [Alternative.cellOf_rowOver (Definition.covers_of_mem hv f hf), if_pos hf]
  · obtain ⟨a, ha, hne, hset⟩ := hshared
    exact Planner.reconstruct_eq_error_iff.2 (hwf.resolve_rowOver_of_shared hv hfull ha hne hset)

/-- A full instance of the alternative `Left`. -/
def overlappingInstance : Instance := ⟨"a.Pick.Left", [("y", .ofNat 2), ("x", .ofNat 1)]⟩

theorem reconstruct_project_overlapping :
    overlapping.build = .ok overlappingDefinition ∧
      overlappingLeft ∈ overlappingDefinition.alternatives ∧
      overlappingInstance.BelongsTo overlappingLeft ∧ overlappingInstance.Fills overlappingLeft ∧
      ∃ row j, overlappingDefinition.planner.project overlappingInstance = .ok row ∧
        overlappingDefinition.planner.reconstruct row = .ok j ∧ j.alternative = "a.Pick.Left" ∧
        ∀ name, j.fields.get? name = overlappingInstance.fields.get? name := by
  have hmem : overlappingLeft ∈ overlappingDefinition.alternatives := by decide
  have hbelongs : overlappingInstance.BelongsTo overlappingLeft := by decide
  have hfills : overlappingInstance.Fills overlappingLeft := by decide
  have halone : ∀ a ∈ overlappingDefinition.alternatives, a ≠ overlappingLeft →
      a.fieldSet ≠ overlappingLeft.fieldSet := by decide
  obtain ⟨row, hrow, hback, -⟩ := reconstruct_project overlapping_build hmem hbelongs hfills
  obtain ⟨j, hj, hname, hmembers⟩ := hback halone
  exact ⟨overlapping_build, hmem, hbelongs, hfills, row, j, hrow, hj, hname, hmembers⟩

end WideRow
