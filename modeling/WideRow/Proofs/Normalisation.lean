import WideRow.Proofs.RoundTrip

/-!
# Rows laid out again

A row may have cells that belong to no alternative that it completes. The instance that is read off
it does not hold them, so laying that instance out gives a row without them, and this row is read
back as the same instance: with fewer cells no alternative is completed that was not completed
before.

Results:
* `Definition.WellFormed.rowOver_readOff`: the row of an instance that was read off another row;
* `Definition.Decides.alone`: a row belongs only to an alternative with a field set of its own;
* `project_reconstruct`: what is kept of a row, and that it stays.
-/

namespace WideRow

open Json

/-! ## Rows with cells left out -/

namespace Row

/-- The row with the cells at some positions kept and all others absent. -/
def keeping (row : Row) (kept : Nat → Bool) : Row :=
  ⟨row.cells.mapIdx fun k cell => if kept k then cell else .null⟩

theorem isPopulated_of_getElem {row : Row} {k : Nat} (hk : k < row.cells.length) :
    row.isPopulated k = !row.cells[k].isNull := by
  rw [isPopulated_eq, List.getElem?_eq_getElem hk, Option.getD_some]

/-- Nothing is left out iff no cell outside the kept positions holds a value. -/
theorem keeping_eq_self_iff {row : Row} {kept : Nat → Bool} :
    row.keeping kept = row ↔ ∀ k, row.isPopulated k → kept k := by
  obtain ⟨cells⟩ := row
  rw [keeping, mk.injEq]
  constructor
  · intro heq k hpopulated
    by_contra hkept
    have hk : k < cells.length := by
      by_contra hk
      rw [isPopulated_eq, List.getElem?_eq_none (Nat.le_of_not_lt hk)] at hpopulated
      cases hpopulated
    have hcell : Value.null = cells[k] := by
      have := List.getElem_of_eq heq (by rwa [List.length_mapIdx])
      rwa [List.getElem_mapIdx, if_neg hkept] at this
    rw [isPopulated_of_getElem hk, ← hcell] at hpopulated
    cases hpopulated
  · intro hall
    refine List.ext_getElem List.length_mapIdx fun k hk hk' => ?_
    rw [List.getElem_mapIdx]
    split_ifs with hkept
    · rfl
    · have habsent := mt (hall k) hkept
      rw [isPopulated_of_getElem hk'] at habsent
      cases hcell : cells[k] with
      | null => rfl
      | _ => simp [hcell, Value.isNull] at habsent

end Row

/-- The row of the instance that a row is read as. -/
def Planner.normalize (p : Planner) (row : Row) : Except PlanError Row := do
  let i ← p.reconstruct row
  p.project i

/-! ## The instance that is read off -/

section ReadOff

variable {d : Definition} {a : Alternative} {row : Row}

/-- The instance that the cells of a row give for an alternative. -/
def Alternative.readOff (a : Alternative) (s : Schema) (row : Row) : Instance :=
  ⟨a.name, a.fields.map fun f => (f.name, s.cellOf row f)⟩

theorem Alternative.readOff_belongsTo (a : Alternative) (s : Schema) (row : Row) :
    (a.readOff s row).BelongsTo a := by
  refine ⟨rfl, fun entry hentry => ?_⟩
  obtain ⟨f, hf, rfl⟩ := List.mem_map.1 hentry
  exact ⟨f, hf, rfl⟩

theorem Alternative.WellFormed.valueOf_readOff (h : a.WellFormed) (s : Schema) (row : Row)
    {f : Field} (hf : f ∈ a.fields) : (a.readOff s row).valueOf f = s.cellOf row f := by
  rw [Instance.valueOf, Alternative.readOff, get?_map_fields (s.cellOf row) h.fieldNames_nodup hf,
    Option.getD_some]

theorem Alternative.WellFormed.readOff_fills (h : a.WellFormed) {s : Schema}
    (hcompleted : a.CompletedIn s row) : (a.readOff s row).Fills a := fun f hf => by
  rw [h.valueOf_readOff s row hf]
  exact hcompleted f hf

/-- Laid out again, the instance that is read off a row gives the row with the cells of its
alternative only. -/
theorem Definition.WellFormed.rowOver_readOff (h : d.WellFormed) (ha : a ∈ d.alternatives)
    (hwidth : row.width = d.schema.width) :
    a.rowOver d.schema (a.readOff d.schema row) =
      row.keeping (Candidate.of d.schema a).occupies := by
  refine congrArg Row.mk (List.ext_getElem ?_ fun k hk hk' => ?_)
  · rw [List.length_map, List.length_mapIdx]
    exact hwidth.symm
  · rw [List.length_map] at hk
    rw [List.length_mapIdx] at hk'
    have hposition : d.schema.positionOf? d.schema.fields.toList[k] = some k :=
      Schema.positionOf?_eq_some_iff.2 (List.getElem?_eq_getElem hk)
    have howned := Candidate.occupies_position_iff (a := a) hposition
    rw [List.getElem_map, List.getElem_mapIdx]
    by_cases hf : d.schema.fields.toList[k] ∈ a.fields
    · rw [if_pos hf, if_pos (howned.2 hf),
        (h.alternative_wellFormed a ha).valueOf_readOff _ _ hf, Schema.cellOf_eq row hposition,
        List.getElem?_eq_getElem hk', Option.getD_some]
    · rw [if_neg hf, if_neg (mt howned.1 hf)]

end ReadOff

/-! ## Rows without spare cells -/

/-- The alternative that a row belongs to shares its field set with no other. -/
theorem Definition.Decides.alone {d : Definition} {row : Row} {c : Alternative}
    (h : d.Decides row c) : ∀ a ∈ d.alternatives, a.fieldSet = c.fieldSet → a = c := by
  intro a ha heq
  by_contra hne
  have hcompleted : a.CompletedIn d.schema row :=
    h.2.1.of_subset (heq ▸ FieldSet.subset_refl _)
  exact (FieldSet.ssubset_iff_subset_ne.1 (h.2.2 a ha hne hcompleted)).2 heq

/-- For a built definition and a row that is read as an instance, the row of that instance has the
cells of its alternative and no others, and it is read as the same instance, field by field. So a
second normalisation changes nothing, and the first changes nothing iff the row has no value outside
the cells of the alternative. -/
theorem project_reconstruct {description : Description} {d : Definition}
    (h : description.build = .ok d) {row : Row} {j : Instance}
    (hj : d.planner.reconstruct row = .ok j) :
    ∃ v ∈ d.alternatives, j.alternative = v.name ∧ ∃ row',
      d.planner.project j = .ok row' ∧
      row' = row.keeping (Candidate.of d.schema v).occupies ∧
      d.planner.reconstruct row' = .ok j ∧
      d.planner.normalize row = .ok row' ∧ d.planner.normalize row' = .ok row' ∧
      (row' = row ↔ ∀ k, row.isPopulated k → (Candidate.of d.schema v).occupies k) := by
  have hwf := Description.build_wellFormed h
  obtain ⟨v, hv, hdecides, rfl⟩ := hwf.reconstruct_eq_ok_iff.1 hj
  have hvwf := hwf.alternative_wellFormed v hv
  have hrow := hwf.rowOver_readOff hv hdecides.1
  have hproject : d.planner.project (v.readOff d.schema row) =
      .ok (row.keeping (Candidate.of d.schema v).occupies) := by
    rw [hwf.project_eq_ok hv (v.readOff_belongsTo d.schema row), hrow]
  have hback : d.planner.reconstruct (row.keeping (Candidate.of d.schema v).occupies) =
      .ok (v.readOff d.schema row) := by
    rw [← hrow, hwf.reconstruct_rowOver hv (hvwf.readOff_fills hdecides.2.1) hdecides.alone]
    refine congrArg (fun fields => Except.ok (Instance.mk v.name fields)) ?_
    exact List.map_congr_left fun f hf => by rw [hvwf.valueOf_readOff d.schema row hf]
  refine ⟨v, hv, rfl, _, hproject, rfl, hback, ?_, ?_, Row.keeping_eq_self_iff⟩
  · rw [Planner.normalize, hj]
    exact hproject
  · rw [Planner.normalize, hback]
    exact hproject

/-- A point on a line or in space. -/
def points : Description :=
  { name := "a.Point", package := none, closed := true
    alternatives :=
      [⟨"a.Point.Line", .record [⟨"x", "int"⟩]⟩,
        ⟨"a.Point.Space", .record [⟨"z", "int"⟩, ⟨"x", "int"⟩, ⟨"y", "int"⟩]⟩] }

/-- The alternative of the points on a line. -/
def pointsLine : Alternative := ⟨"a.Point.Line", [.of "x" "int"]⟩

/-- The definition of a point. -/
def pointsDefinition : Definition :=
  ⟨"a.Point", none,
    [pointsLine, ⟨"a.Point.Space", [.of "z" "int", .of "x" "int", .of "y" "int"]⟩]⟩

theorem points_build : points.build = .ok pointsDefinition := by
  decide

/-- A point on a line does not keep its third coordinate. -/
theorem project_reconstruct_points :
    points.build = .ok pointsDefinition ∧
      ∃ j, pointsDefinition.planner.reconstruct ⟨[.ofNat 1, .null, .ofNat 3]⟩ = .ok j ∧
        pointsDefinition.planner.project j = .ok ⟨[.ofNat 1, .null, .null]⟩ ∧
        pointsDefinition.planner.reconstruct ⟨[.ofNat 1, .null, .null]⟩ = .ok j := by
  have hdecides : pointsDefinition.Decides ⟨[.ofNat 1, .null, .ofNat 3]⟩ pointsLine := by
    decide
  have hmem : pointsLine ∈ pointsDefinition.alternatives := by
    decide
  have hread := (Description.build_wellFormed points_build).reconstruct_eq_ok_iff.2
    ⟨pointsLine, hmem, hdecides, rfl⟩
  obtain ⟨v, hv, hname, row', hproject, hkept, hback, -⟩ := project_reconstruct points_build hread
  have hline : v = pointsLine :=
    (Description.build_wellFormed points_build).eq_of_name_eq hv hmem hname.symm
  have hcells : row' = ⟨[.ofNat 1, .null, .null]⟩ := by
    rw [hkept, hline]
    rfl
  rw [hcells] at hproject hback
  exact ⟨points_build, _, hread, hproject, hback⟩

end WideRow
