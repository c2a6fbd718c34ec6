import WideRow.Proofs.Normalisation
import WideRow.Proofs.ProjectedRow

/-!
# Instances with fields left out

An instance may lack some fields of its alternative, or hold `null` for them. Its row completes just
those alternatives all of whose fields the instance has a value for, name and type. So what is read
back is part of the instance, and it keeps its name only if nothing was left out.

Results:
* `Alternative.completedIn_rowOver_iff_valued`: the alternatives that the row of any instance
  completes;
* `reconstruct_project_partial`: what a partial instance is read back as.
-/

namespace WideRow

open Json

/-- The row of an instance completes the alternatives all of whose fields are fields of its own
alternative and have a value. -/
theorem Alternative.completedIn_rowOver_iff_valued {a b : Alternative} {s : Schema}
    (hb : s.Covers b) (i : Instance) :
    b.CompletedIn s (a.rowOver s i) ↔
      ∀ f ∈ b.fields, f ∈ a.fields ∧ (i.valueOf f).isNull = false := by
  refine forall₂_congr fun f hf => ?_
  rw [Alternative.cellOf_rowOver (hb f hf)]
  by_cases hfa : f ∈ a.fields
  · rw [if_pos hfa]
    exact (and_iff_right hfa).symm
  · rw [if_neg hfa]
    exact iff_of_false nofun fun h => hfa h.1

/-- The row of an instance belongs to the alternative of the instance iff that is filled, whatever
alternative the row belongs to. -/
theorem Definition.Decides.eq_iff_fills {d : Definition} {a b : Alternative} {i : Instance}
    (ha : a ∈ d.alternatives) (hb : b ∈ d.alternatives)
    (h : d.Decides (a.rowOver d.schema i) b) : b = a ↔ i.Fills a := by
  have hvalued := (Alternative.completedIn_rowOver_iff_valued (covers_of_mem hb) i).1 h.2.1
  constructor
  · rintro rfl
    exact fun f hf => (hvalued f hf).2
  · intro hfull
    by_contra hne
    -- a filled alternative is completed, so it would lie strictly inside one of its own parts
    have hcompleted : a.CompletedIn d.schema (a.rowOver d.schema i) :=
      (Alternative.completedIn_rowOver_iff_valued (covers_of_mem ha) i).2 fun f hf =>
        ⟨hf, hfull f hf⟩
    have hinside := h.2.2 a ha (Ne.symm hne) hcompleted
    exact hinside.2 (Alternative.fieldSet_subset_iff.2 fun f hf => (hvalued f hf).1)

/-- For a built definition and an instance that has a row, fields left out or not: what the row is
read back as has only fields of the alternative of the instance for which the instance has a value,
and carries just these values. It is an instance of the same alternative iff the instance has a value
for every field of that alternative. -/
theorem reconstruct_project_partial {description : Description} {d : Definition}
    (h : description.build = .ok d) {i j : Instance} {row : Row}
    (hrow : d.planner.project i = .ok row) (hj : d.planner.reconstruct row = .ok j) :
    ∃ a ∈ d.alternatives, ∃ b ∈ d.alternatives,
      i.alternative = a.name ∧ j.alternative = b.name ∧
      (∀ f ∈ b.fields, f ∈ a.fields ∧ (i.valueOf f).isNull = false) ∧
      j.fields = b.fields.map (fun f => (f.name, i.valueOf f)) ∧
      (∀ f ∈ b.fields, j.fields.get? f.name = i.fields.get? f.name) ∧
      (b = a ↔ ∀ f ∈ a.fields, (i.valueOf f).isNull = false) := by
  have hwf := Description.build_wellFormed h
  obtain ⟨a, ha, hbelongs, rfl⟩ := hwf.project_eq_ok_iff.1 hrow
  obtain ⟨b, hb, hdecides, rfl⟩ := hwf.reconstruct_eq_ok_iff.1 hj
  have hvalued :=
    (Alternative.completedIn_rowOver_iff_valued (Definition.covers_of_mem hb) i).1 hdecides.2.1
  have hfields : b.fields.map (fun f => (f.name, d.schema.cellOf (a.rowOver d.schema i) f)) =
      b.fields.map fun f => (f.name, i.valueOf f) := by
    refine List.map_congr_left fun f hf => ?_
    rw [Alternative.cellOf_rowOver (Definition.covers_of_mem hb f hf), if_pos (hvalued f hf).1]
  refine ⟨a, ha, b, hb, hbelongs.1, rfl, hvalued, hfields, fun f hf => ?_,
    hdecides.eq_iff_fills ha hb⟩
  dsimp only
  rw [hfields, get?_map_fields i.valueOf (hwf.alternative_wellFormed b hb).fieldNames_nodup hf]
  have hvalue := (hvalued f hf).2
  rw [Instance.valueOf] at hvalue ⊢
  cases hget : i.fields.get? f.name with
  | none =>
    rw [hget] at hvalue
    cases hvalue
  | some v => rfl

/-- A point in space of which only one coordinate is known. -/
def partialPoint : Instance := ⟨"a.Point.Space", [("y", .null), ("x", .ofNat 1)]⟩

/-- The alternative of the points in space. -/
def pointsSpace : Alternative := ⟨"a.Point.Space", [.of "z" "int", .of "x" "int", .of "y" "int"]⟩

/-- A point in space of which only one coordinate is known is read back as a point on a line. -/
theorem reconstruct_project_partial_points :
    points.build = .ok pointsDefinition ∧
      ∃ row j, pointsDefinition.planner.project partialPoint = .ok row ∧
        pointsDefinition.planner.reconstruct row = .ok j ∧ j.alternative ≠ "a.Point.Space" ∧
        j.fields.get? "x" = some (.ofNat 1) := by
  have hwf := Description.build_wellFormed points_build
  have hspace : pointsSpace ∈ pointsDefinition.alternatives := by
    decide
  have hline : pointsLine ∈ pointsDefinition.alternatives := by
    decide
  have hrow := hwf.project_eq_ok hspace (i := partialPoint) (by decide)
  have hdecides : pointsDefinition.Decides
      (pointsSpace.rowOver pointsDefinition.schema partialPoint) pointsLine := by
    decide
  have hj := hwf.reconstruct_eq_ok_iff.2 ⟨pointsLine, hline, hdecides, rfl⟩
  obtain ⟨a, ha, b, hb, haname, hbname, -, -, hvalues, hkept⟩ :=
    reconstruct_project_partial points_build hrow hj
  obtain rfl : a = pointsSpace := hwf.eq_of_name_eq ha hspace haname.symm
  obtain rfl : b = pointsLine := hwf.eq_of_name_eq hb hline hbname.symm
  refine ⟨points_build, _, _, hrow, hj, ?_, hvalues (.of "x" "int") (by decide)⟩
  rw [hbname]
  decide

end WideRow
