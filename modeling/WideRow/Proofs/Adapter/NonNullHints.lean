import WideRow.Proofs.Adapter.ColumnAgreement
import WideRow.Proofs.RoundTrip

/-!
# Hints that a column is never null

A field that all alternatives have may be declared with the hint that its column is never null. The
hint is taken from the intersection of the field sets, and what it promises is about rows: a full
instance, of whatever alternative, leaves no null in the column. Both come to the same, as the row
of a full instance is null in the columns of the fields that its alternative lacks, and in no
others.

Main definitions:
* `CarriesHint`: the line of a declaration carries the hint;
* `Schema.NeverNull`: no full instance leaves a null at a position.

Results:
* `carriesHint_fieldDeclaration_iff`: which declarations carry the hint;
* `Definition.WellFormed.neverNull_iff`: which positions are never null;
* `non_null_hints_exact`: the hints are on the columns that are never null.
-/

namespace WideRow

/-! ## Declarations -/

/-- The line carries the hint that the column is not null. -/
def CarriesHint (line : String) : Prop :=
  ∃ before after, line = before ++ "@Column(nullable = false)" ++ after

theorem CarriesHint.at_mem {line : String} (h : CarriesHint line) : '@' ∈ line.toList := by
  obtain ⟨before, after, rfl⟩ := h
  have hhint : '@' ∈ "@Column(nullable = false)".toList := by
    decide
  rw [String.toList_append, String.toList_append]
  exact List.mem_append_left _ (List.mem_append_right _ hhint)

/-- Neither the type nor the name has an annotation. -/
def Field.IsUnannotated (f : Field) : Prop := '@' ∉ f.type.text.toList ∧ '@' ∉ f.name.toList

/-- A field is declared with the hint iff hints are asked for and the field is common. -/
theorem carriesHint_fieldDeclaration_iff {f : Field} (hf : f.IsUnannotated) (common : FieldSet)
    (nonNullHints : Bool) :
    CarriesHint (fieldDeclaration common nonNullHints f) ↔ nonNullHints ∧ f ∈ common := by
  have hcondition : (nonNullHints && decide (f ∈ common)) = true ↔ nonNullHints ∧ f ∈ common := by
    rw [Bool.and_eq_true, decide_eq_true_eq]
  unfold fieldDeclaration
  dsimp only
  rw [← hcondition]
  split_ifs with hhint
  · refine iff_of_true ⟨"", " " ++ (f.type.text ++ " " ++ f.name ++ ";"), ?_⟩ hhint
    rw [← String.toList_inj]
    simp
  · refine iff_of_false (fun hcarries => ?_) hhint
    have hat := hcarries.at_mem
    simp [hf.1, hf.2] at hat

/-- No type of the definition has an annotation. -/
def Definition.HasUnannotatedTypes (d : Definition) : Prop :=
  ∀ a ∈ d.alternatives, ∀ f ∈ a.fields, '@' ∉ f.type.text.toList

instance (d : Definition) : Decidable d.HasUnannotatedTypes :=
  inferInstanceAs (Decidable (∀ a ∈ d.alternatives, ∀ f ∈ a.fields, '@' ∉ f.type.text.toList))

/-- Names have no annotations anyway. -/
theorem Definition.WellFormed.isUnannotated {d : Definition} (h : d.WellFormed)
    (htypes : d.HasUnannotatedTypes) {f : Field} (hf : f ∈ d.schema.fields) :
    f.IsUnannotated := by
  obtain ⟨a, ha, hf⟩ := mem_schema_iff.1 hf
  refine ⟨htypes a ha f hf, fun hat => ?_⟩
  have hname := (h.alternative_wellFormed a ha).name_free hf
  exact absurd (Name.isInner_of_mem_identifier hname.1 hat) (by decide)

/-! ## Columns -/

/-- In the row of a full instance the cells of the fields of its alternative hold values, and the
others do not. -/
theorem Alternative.isPopulated_rowOver_iff {a : Alternative} {s : Schema} {f : Field} {k : Nat}
    (hk : s.positionOf? f = some k) {i : Instance} (hfull : i.Fills a) :
    (a.rowOver s i).isPopulated k ↔ f ∈ a.fields := by
  have hf : f ∈ s.fields := List.mem_of_getElem? (Schema.positionOf?_eq_some_iff.1 hk)
  rw [Row.isPopulated_eq, ← Schema.cellOf_eq _ hk, cellOf_rowOver hf]
  split_ifs with hfa
  · rw [hfull f hfa]
    exact iff_of_true rfl hfa
  · exact iff_of_false (by decide) hfa

/-- Every full instance, of whatever alternative, has a row with a value at the position. -/
def Definition.NeverNull (d : Definition) (k : Nat) : Prop :=
  ∀ a ∈ d.alternatives, ∀ i : Instance, i.BelongsTo a → i.Fills a →
    ∃ row, d.planner.project i = .ok row ∧ row.isPopulated k

/-- The column of a field is never null iff the field is common. -/
theorem Definition.WellFormed.neverNull_iff {d : Definition} (h : d.WellFormed) {f : Field}
    {k : Nat} (hk : d.schema.positionOf? f = some k) : d.NeverNull k ↔ f ∈ d.commonFields := by
  rw [mem_commonFields_iff]
  constructor
  · refine fun hnever => ⟨h.alternatives_ne_nil, fun a ha => ?_⟩
    have hfills := (h.alternative_wellFormed a ha).filled_fills
    obtain ⟨row, hrow, hpopulated⟩ := hnever a ha a.filled a.filled_belongsTo hfills
    cases (h.project_eq_ok ha a.filled_belongsTo).symm.trans hrow
    exact (Alternative.isPopulated_rowOver_iff hk hfills).1 hpopulated
  · rintro ⟨-, hall⟩ a ha i hbelongs hfills
    exact ⟨_, h.project_eq_ok ha hbelongs,
      (Alternative.isPopulated_rowOver_iff hk hfills).2 (hall a ha)⟩

/-- For a built definition without annotations in its types: at each position the row type declares
the field of the column, and if hints are asked for, the declaration carries the hint iff every
instance with a value for each field of its alternative has a row with a value at the position. If
they are not asked for, no declaration carries it. -/
theorem non_null_hints_exact {description : Description} {d : Definition}
    (h : description.build = .ok d) (htypes : d.HasUnannotatedTypes) :
    (∀ k < d.schema.width, ∃ line f,
      (embeddableContent d.unify true).lines.toList[k]? = some line ∧
        d.schema.positionOf? f = some k ∧ Declares line f ∧ (CarriesHint line ↔ d.NeverNull k)) ∧
    ∀ line ∈ (embeddableContent d.unify false).lines.toList, ¬ CarriesHint line := by
  have hwf := Description.build_wellFormed h
  constructor
  · intro k hk
    have hf := List.getElem?_eq_getElem hk
    have hposition := Schema.positionOf?_eq_some_iff.2 hf
    refine ⟨_, _, ?_, hposition, declares_fieldDeclaration d.commonFields true _, ?_⟩
    · rw [lines_embeddableContent, List.getElem?_map]
      exact congrArg (Option.map _) hf
    · have hunannotated := hwf.isUnannotated htypes (List.mem_of_getElem? hf)
      rw [carriesHint_fieldDeclaration_iff hunannotated, hwf.neverNull_iff hposition]
      exact and_iff_right rfl
  · intro line hline hcarries
    rw [lines_embeddableContent] at hline
    obtain ⟨f, hf, rfl⟩ := List.mem_map.1 hline
    have hunannotated := hwf.isUnannotated htypes hf
    exact Bool.false_ne_true ((carriesHint_fieldDeclaration_iff hunannotated _ _).1 hcarries).1

/-- Of the overlapping alternatives all have the first column and not all have the second. -/
theorem non_null_hints_overlapping :
    overlapping.build = .ok overlappingDefinition ∧ overlappingDefinition.HasUnannotatedTypes ∧
      ∃ first second,
        (embeddableContent overlappingDefinition.unify true).lines.toList[0]? = some first ∧
        Declares first (.of "x" "int") ∧ CarriesHint first ∧
        (embeddableContent overlappingDefinition.unify true).lines.toList[1]? = some second ∧
        Declares second (.of "y" "int") ∧ ¬ CarriesHint second := by
  have htypes : overlappingDefinition.HasUnannotatedTypes := by
    decide
  have hwf := Description.build_wellFormed overlapping_build
  have hx : overlappingDefinition.schema.positionOf? (.of "x" "int") = some 0 := by
    decide
  have hy : overlappingDefinition.schema.positionOf? (.of "y" "int") = some 1 := by
    decide
  obtain ⟨hhints, -⟩ := non_null_hints_exact overlapping_build htypes
  obtain ⟨first, f, hfirst, hf, hdeclares, hcarries⟩ := hhints 0 (by decide)
  obtain ⟨second, g, hsecond, hg, hdeclares', hcarries'⟩ := hhints 1 (by decide)
  cases Schema.positionOf?_injective hx hf
  cases Schema.positionOf?_injective hy hg
  refine ⟨overlapping_build, htypes, first, second, hfirst, hdeclares, hcarries.2 ?_, hsecond,
    hdeclares', fun hhint => ?_⟩
  · rw [hwf.neverNull_iff hx]
    decide
  · have hcommon := (hwf.neverNull_iff hy).1 (hcarries'.1 hhint)
    exact absurd hcommon (by decide)

end WideRow
