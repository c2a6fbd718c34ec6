import WideRow.Proofs.RoundTrip

/-!
# Sum types without ambiguous rows

A row is read back if one of the alternatives that it completes strictly includes all others.
Whether this holds of every row is seen from the field sets alone: they differ from each other, and
the union of any two of them is one of them again. The alternative that includes all completed ones
is then made by joining these one after the other.

Results:
* `Definition.UnionClosed.exists_completed_including`: a completed alternative that includes others;
* `Definition.WellFormed.exists_greatest_inside`: what the row of a set of fields tells of the set;
* `every_row_known_iff`: when no row is ambiguous.
-/

namespace WideRow

open Json

/-! ## Rows of sets of fields -/

/-- The row in which just the fields of a set have a value. -/
def Schema.rowOf (s : Schema) (fields : FieldSet) : Row :=
  s.layOut fun f => if f ∈ fields then .bool true else .null

theorem Schema.width_rowOf (s : Schema) (fields : FieldSet) : (s.rowOf fields).width = s.width :=
  List.length_map _

/-- The row of a set of fields completes the alternatives inside the set. -/
theorem Alternative.completedIn_rowOf_iff {a : Alternative} {s : Schema} {fields : FieldSet}
    (h : s.Covers a) : a.CompletedIn s (s.rowOf fields) ↔ a.fieldSet ⊆ fields := by
  simp only [FieldSet.subset_def, Alternative.mem_fieldSet]
  refine forall₂_congr fun f hf => ?_
  rw [Schema.rowOf, Schema.cellOf_layOut (h f hf)]
  split_ifs with hmem
  · exact iff_of_true rfl hmem
  · exact iff_of_false (by simp [Value.isNull]) hmem

/-! ## Families of field sets -/

namespace Definition

/-- No two alternatives have the same field set. -/
def DistinctFieldSets (d : Definition) : Prop := (d.alternatives.map Alternative.fieldSet).Nodup

/-- The union of any two field sets is the field set of an alternative. -/
def UnionClosed (d : Definition) : Prop :=
  ∀ a ∈ d.alternatives, ∀ b ∈ d.alternatives,
    ∃ c ∈ d.alternatives, c.fieldSet = a.fieldSet.union b.fieldSet

/-- Of any two alternatives, one has all fields of the other and more. -/
def IsChain (d : Definition) : Prop :=
  ∀ a ∈ d.alternatives, ∀ b ∈ d.alternatives, a ≠ b →
    a.fieldSet ⊂ b.fieldSet ∨ b.fieldSet ⊂ a.fieldSet

/-- Every row of the width of the schema that completes an alternative is read back. -/
def KnowsEveryRow (d : Definition) : Prop :=
  ∀ row : Row, row.width = d.schema.width →
    (∃ a ∈ d.alternatives, a.CompletedIn d.schema row) → ∃ i, d.planner.reconstruct row = .ok i

instance (d : Definition) : Decidable d.DistinctFieldSets :=
  inferInstanceAs (Decidable (List.Nodup _))

instance (d : Definition) : Decidable d.UnionClosed :=
  inferInstanceAs (Decidable (∀ a ∈ d.alternatives, ∀ b ∈ d.alternatives, ∃ c ∈ d.alternatives, _))

instance (d : Definition) : Decidable d.IsChain :=
  inferInstanceAs (Decidable (∀ a ∈ d.alternatives, ∀ b ∈ d.alternatives, a ≠ b → _))

variable {d : Definition} {a b c : Alternative} {row : Row}

theorem WellFormed.distinctFieldSets_iff (h : d.WellFormed) :
    d.DistinctFieldSets ↔
      ∀ a ∈ d.alternatives, ∀ b ∈ d.alternatives, a.fieldSet = b.fieldSet → a = b :=
  List.nodup_map_iff_inj_on (.of_map _ h.names_nodup)

/-! ### Chains -/

theorem WellFormed.distinctFieldSets_of_isChain (h : d.WellFormed) (hchain : d.IsChain) :
    d.DistinctFieldSets := by
  refine h.distinctFieldSets_iff.2 fun a ha b hb heq => by_contra fun hne => ?_
  rcases hchain a ha b hb hne with hab | hba
  · exact (FieldSet.ssubset_iff_subset_ne.1 hab).2 heq
  · exact (FieldSet.ssubset_iff_subset_ne.1 hba).2 heq.symm

theorem IsChain.subset_or_subset (h : d.IsChain) (ha : a ∈ d.alternatives)
    (hb : b ∈ d.alternatives) : a.fieldSet ⊆ b.fieldSet ∨ b.fieldSet ⊆ a.fieldSet := by
  by_cases hne : a = b
  · exact .inl (hne ▸ fun _ => id)
  · exact (h a ha b hb hne).imp And.left And.left

/-- In a chain the union of two field sets is the larger one. -/
theorem IsChain.unionClosed (h : d.IsChain) : d.UnionClosed := by
  intro a ha b hb
  rcases h.subset_or_subset ha hb with hab | hba
  · exact ⟨b, hb, (FieldSet.union_eq_right hab).symm⟩
  · exact ⟨a, ha, (FieldSet.union_eq_left hba).symm⟩

/-! ## From field sets to rows -/

/-- A row completes the alternative whose field set joins those of two completed ones. -/
theorem completedIn_of_fieldSet_eq_union {s : Schema} (ha : a.CompletedIn s row)
    (hb : b.CompletedIn s row) (h : c.fieldSet = a.fieldSet.union b.fieldSet) :
    c.CompletedIn s row := by
  intro f hf
  rw [← Alternative.mem_fieldSet, h, FieldSet.mem_union, Alternative.mem_fieldSet,
    Alternative.mem_fieldSet] at hf
  exact hf.elim (ha f) (hb f)

/-- Completed alternatives lie inside one that is completed too. -/
theorem UnionClosed.exists_completed_including (h : d.UnionClosed) {completed : List Alternative}
    (hall : ∀ b ∈ completed, b ∈ d.alternatives ∧ b.CompletedIn d.schema row)
    (ha : a ∈ d.alternatives) (hacompleted : a.CompletedIn d.schema row) :
    ∃ c ∈ d.alternatives, c.CompletedIn d.schema row ∧ a.fieldSet ⊆ c.fieldSet ∧
      ∀ b ∈ completed, b.fieldSet ⊆ c.fieldSet := by
  -- `a` grows by one completed alternative at a time
  induction completed generalizing a with
  | nil => exact ⟨a, ha, hacompleted, fun _ => id, by simp⟩
  | cons b rest ih =>
    obtain ⟨⟨hb, hbcompleted⟩, hrest⟩ := List.forall_mem_cons.1 hall
    obtain ⟨joined, hjoined, hunion⟩ := h a ha b hb
    obtain ⟨c, hc, hccompleted, hsub, hincludes⟩ := ih hrest hjoined
      (completedIn_of_fieldSet_eq_union hacompleted hbcompleted hunion)
    rw [hunion] at hsub
    exact ⟨c, hc, hccompleted, FieldSet.subset_trans FieldSet.subset_union_left hsub,
      List.forall_mem_cons.2 ⟨FieldSet.subset_trans FieldSet.subset_union_right hsub, hincludes⟩⟩

theorem WellFormed.knowsEveryRow (h : d.WellFormed) (hdistinct : d.DistinctFieldSets)
    (hclosed : d.UnionClosed) : d.KnowsEveryRow := by
  rintro row hwidth ⟨a, ha, hacompleted⟩
  have hall : ∀ b ∈ d.alternatives.filter (·.CompletedIn d.schema row),
      b ∈ d.alternatives ∧ b.CompletedIn d.schema row := by
    simp [List.mem_filter]
  obtain ⟨c, hc, hccompleted, -, hincludes⟩ :=
    hclosed.exists_completed_including hall ha hacompleted
  have hdecides : d.Decides row c := by
    refine ⟨hwidth, hccompleted, fun b hb hne hbcompleted => ?_⟩
    have hsub := hincludes b (List.mem_filter.2 ⟨hb, decide_eq_true hbcompleted⟩)
    refine FieldSet.ssubset_iff_subset_ne.2 ⟨hsub, fun heq => hne ?_⟩
    exact h.distinctFieldSets_iff.1 hdistinct b hb c hc heq
  exact ⟨_, h.reconstruct_eq_ok_iff.2 ⟨c, hc, hdecides, rfl⟩⟩

/-! ## From rows to field sets -/

/-- Of the alternatives inside a set of fields one is the greatest: the one that the row of the set
belongs to. -/
theorem WellFormed.exists_greatest_inside (h : d.WellFormed) (hknows : d.KnowsEveryRow)
    {fields : FieldSet} (ha : a ∈ d.alternatives) (hsub : a.fieldSet ⊆ fields) :
    ∃ c ∈ d.alternatives, c.fieldSet ⊆ fields ∧
      ∀ b ∈ d.alternatives, b.fieldSet ⊆ fields → b = c ∨ b.fieldSet ⊂ c.fieldSet := by
  have hcompleted : ∀ {b}, b ∈ d.alternatives →
      (b.CompletedIn d.schema (d.schema.rowOf fields) ↔ b.fieldSet ⊆ fields) :=
    fun hb => Alternative.completedIn_rowOf_iff (covers_of_mem hb)
  obtain ⟨i, hi⟩ := hknows (d.schema.rowOf fields) (d.schema.width_rowOf fields)
    ⟨a, ha, (hcompleted ha).2 hsub⟩
  obtain ⟨c, hc, ⟨-, hccompleted, hgreatest⟩, -⟩ := h.reconstruct_eq_ok_iff.1 hi
  refine ⟨c, hc, (hcompleted hc).1 hccompleted, fun b hb hbsub => ?_⟩
  by_cases hne : b = c
  · exact .inl hne
  · exact .inr (hgreatest b hb hne ((hcompleted hb).2 hbsub))

theorem WellFormed.distinctFieldSets (h : d.WellFormed) (hknows : d.KnowsEveryRow) :
    d.DistinctFieldSets := by
  refine h.distinctFieldSets_iff.2 fun a ha b hb heq => ?_
  obtain ⟨c, -, hsub, hgreatest⟩ := h.exists_greatest_inside hknows ha fun _ => id
  -- nothing inside the field set of `a` can strictly include it
  have heqc : ∀ e ∈ d.alternatives, e.fieldSet = a.fieldSet → e = c := by
    intro e he heset
    refine (hgreatest e he (heset ▸ fun _ => id)).resolve_right fun hstrict => ?_
    exact (FieldSet.ssubset_def.1 hstrict).2 (heset ▸ hsub)
  exact (heqc a ha rfl).trans (heqc b hb heq.symm).symm

theorem WellFormed.unionClosed (h : d.WellFormed) (hknows : d.KnowsEveryRow) : d.UnionClosed := by
  intro a ha b hb
  obtain ⟨c, hc, hsub, hgreatest⟩ :=
    h.exists_greatest_inside hknows ha (FieldSet.subset_union_left (t := b.fieldSet))
  have hinside : ∀ e ∈ d.alternatives, e.fieldSet ⊆ a.fieldSet.union b.fieldSet →
      e.fieldSet ⊆ c.fieldSet := by
    intro e he hesub
    rcases hgreatest e he hesub with rfl | hstrict
    · exact fun _ => id
    · exact hstrict.1
  refine ⟨c, hc, FieldSet.eq_of_subset_of_subset hsub (FieldSet.union_subset ?_ ?_)⟩
  · exact hinside a ha FieldSet.subset_union_left
  · exact hinside b hb FieldSet.subset_union_right

/-! ## Ambiguous rows -/

theorem knowsEveryRow_iff_never_ambiguous :
    d.KnowsEveryRow ↔
      ∀ row matched, d.planner.reconstruct row ≠ .error (.ambiguous matched) := by
  constructor
  · intro hknows row matched hambiguous
    obtain ⟨hwidth, hsome⟩ := (WellFormed.ambiguous_iff_of_error
      (Planner.reconstruct_eq_error_iff.1 hambiguous)).1 ⟨matched, rfl⟩
    obtain ⟨i, hi⟩ := hknows row hwidth hsome
    cases hambiguous.symm.trans hi
  · intro hnever row hwidth hsome
    cases hback : d.planner.reconstruct row with
    | ok i => exact ⟨i, rfl⟩
    | error e =>
      obtain ⟨matched, rfl⟩ := (WellFormed.ambiguous_iff_of_error
        (Planner.reconstruct_eq_error_iff.1 hback)).2 ⟨hwidth, hsome⟩
      exact absurd hback (hnever row matched)

end Definition

/-! ## Built definitions -/

/-- For a built definition, every row of the width of the schema that completes an alternative is
read back, and no row is ambiguous, iff the field sets differ from each other and the union of any
two of them is the field set of an alternative. So it is for every chain of field sets. -/
theorem every_row_known_iff {description : Description} {d : Definition}
    (h : description.build = .ok d) :
    (d.KnowsEveryRow ↔ d.DistinctFieldSets ∧ d.UnionClosed) ∧
      (d.KnowsEveryRow ↔
        ∀ row matched, d.planner.reconstruct row ≠ .error (.ambiguous matched)) ∧
      (d.IsChain → d.KnowsEveryRow) := by
  have hwf := Description.build_wellFormed h
  refine ⟨⟨fun hknows => ?_, fun hsets => ?_⟩, Definition.knowsEveryRow_iff_never_ambiguous,
    fun hchain => ?_⟩
  · exact ⟨hwf.distinctFieldSets hknows, hwf.unionClosed hknows⟩
  · exact hwf.knowsEveryRow hsets.1 hsets.2
  · exact hwf.knowsEveryRow (hwf.distinctFieldSets_of_isChain hchain) hchain.unionClosed

/-- The overlapping alternatives have no alternative for the union of `Left` and `Right`. -/
theorem overlapping_not_every_row_known :
    overlapping.build = .ok overlappingDefinition ∧ ¬ overlappingDefinition.KnowsEveryRow := by
  refine ⟨overlapping_build, fun hknows => ?_⟩
  have hclosed := ((every_row_known_iff overlapping_build).1.1 hknows).2
  exact absurd hclosed (by decide)

end WideRow
