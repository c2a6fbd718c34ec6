import Mathlib.Data.List.Nodup
import WideRow.Schema

/-!
# Columns of a definition

Sets of fields are compared by inclusion, the position of a field is the place at which the schema
lists it, and the schema of a definition lists exactly the fields of its alternatives.

Results:
* `FieldSet.eq_of_subset_of_subset`: sets that include each other are equal;
* `Schema.positionOf?_eq_some_iff`: positions and fields determine each other;
* `Definition.mem_schema_iff`: the fields of the schema;
* `Definition.mem_commonFields_iff`: the fields that all alternatives have.
-/

namespace WideRow

/-! ## Inclusion of field sets -/

instance : HasSubset FieldSet := ⟨fun s t => ∀ f ∈ s, f ∈ t⟩

instance : HasSSubset FieldSet := ⟨fun s t => s ⊆ t ∧ ¬ t ⊆ s⟩

instance (s t : FieldSet) : Decidable (s ⊆ t) :=
  inferInstanceAs (Decidable (∀ f ∈ s.toList, f ∈ t))

instance (s t : FieldSet) : Decidable (s ⊂ t) := inferInstanceAs (Decidable (s ⊆ t ∧ ¬ t ⊆ s))

namespace FieldSet

variable {s t u : FieldSet}

theorem subset_def : s ⊆ t ↔ ∀ f ∈ s, f ∈ t := Iff.rfl

theorem ssubset_def : s ⊂ t ↔ s ⊆ t ∧ ¬ t ⊆ s := Iff.rfl

theorem subset_refl (s : FieldSet) : s ⊆ s := fun _ => id

theorem subset_trans (h : s ⊆ t) (h' : t ⊆ u) : s ⊆ u := fun f hf => h' f (h f hf)

theorem eq_of_subset_of_subset (h : s ⊆ t) (h' : t ⊆ s) : s = t :=
  ext fun f => ⟨h f, h' f⟩

theorem ssubset_iff_subset_ne : s ⊂ t ↔ s ⊆ t ∧ s ≠ t := by
  rw [ssubset_def]
  constructor
  · rintro ⟨hst, hts⟩
    exact ⟨hst, fun e => hts (e ▸ fun _ => id)⟩
  · rintro ⟨hst, hne⟩
    exact ⟨hst, fun hts => hne (eq_of_subset_of_subset hst hts)⟩

theorem union_eq_left (h : t ⊆ s) : s.union t = s :=
  ext fun f => mem_union.trans (or_iff_left_of_imp (h f))

theorem union_eq_right (h : s ⊆ t) : s.union t = t :=
  ext fun f => mem_union.trans (or_iff_right_of_imp (h f))

theorem subset_union_left : s ⊆ s.union t := fun _ hf => mem_union.2 (.inl hf)

theorem subset_union_right : t ⊆ s.union t := fun _ hf => mem_union.2 (.inr hf)

theorem union_subset (hs : s ⊆ u) (ht : t ⊆ u) : s.union t ⊆ u := fun f hf =>
  (mem_union.1 hf).elim (hs f) (ht f)

theorem toList_nodup (s : FieldSet) : s.toList.Nodup := by
  refine s.increasing.imp ?_
  rintro a _ hlt rfl
  exact Field.lt_irrefl a hlt

end FieldSet

theorem Alternative.mem_fieldSet {a : Alternative} {f : Field} :
    f ∈ a.fieldSet ↔ f ∈ a.fields := FieldSet.mem_ofList

theorem Alternative.fieldSet_subset_iff {a b : Alternative} :
    a.fieldSet ⊆ b.fieldSet ↔ ∀ f ∈ a.fields, f ∈ b.fields := by
  simp only [FieldSet.subset_def, Alternative.mem_fieldSet]

/-! ## Positions -/

namespace Schema

variable {s : Schema} {f g : Field} {k : Nat}

/-- The position of a field is the place at which the schema lists it. -/
theorem positionOf?_eq_some_iff : s.positionOf? f = some k ↔ s.fields.toList[k]? = some f := by
  rw [positionOf?, List.idxOf?_eq_some_iff]
  constructor
  · rintro ⟨hk, rfl, -⟩
    exact List.getElem?_eq_getElem hk
  · intro h
    obtain ⟨hk, rfl⟩ := List.getElem?_eq_some_iff.1 h
    refine ⟨hk, rfl, fun j hj e => ?_⟩
    have := (s.fields.toList_nodup.getElem_inj_iff).1 e
    omega

theorem lt_width_of_positionOf? (h : s.positionOf? f = some k) : k < s.width := by
  rw [positionOf?_eq_some_iff] at h
  exact (List.getElem?_eq_some_iff.1 h).1

/-- No two fields share a position. -/
theorem positionOf?_injective (hf : s.positionOf? f = some k) (hg : s.positionOf? g = some k) :
    f = g := by
  rw [positionOf?_eq_some_iff] at hf hg
  exact Option.some.inj (hf.symm.trans hg)

theorem exists_positionOf? (h : f ∈ s.fields) : ∃ k, s.positionOf? f = some k := by
  obtain ⟨k, hk⟩ := List.mem_iff_getElem?.1 h
  exact ⟨k, positionOf?_eq_some_iff.2 hk⟩

end Schema

/-! ## The schema of a definition -/

theorem mem_foldl_union {sets : List FieldSet} {s : FieldSet} {f : Field} :
    f ∈ sets.foldl FieldSet.union s ↔ f ∈ s ∨ ∃ t ∈ sets, f ∈ t := by
  induction sets generalizing s with
  | nil => simp
  | cons t sets ih =>
    rw [List.foldl_cons, ih, FieldSet.mem_union]
    simp only [List.mem_cons, exists_eq_or_imp]
    exact or_assoc

/-- The schema lists the fields of the alternatives and no others. -/
theorem Definition.mem_schema_iff {d : Definition} {f : Field} :
    f ∈ d.schema.fields ↔ ∃ a ∈ d.alternatives, f ∈ a.fields := by
  have hempty : f ∉ FieldSet.empty := List.not_mem_nil
  simp [Definition.schema, mem_foldl_union, hempty, Alternative.mem_fieldSet]

/-! ## The common fields of a definition -/

theorem mem_foldl_inter {sets : List FieldSet} {s : FieldSet} {f : Field} :
    f ∈ sets.foldl FieldSet.inter s ↔ f ∈ s ∧ ∀ t ∈ sets, f ∈ t := by
  induction sets generalizing s with
  | nil => simp
  | cons t sets ih => rw [List.foldl_cons, ih, FieldSet.mem_inter, List.forall_mem_cons, and_assoc]

/-- The common fields are those of all alternatives, if there are any. -/
theorem Definition.mem_commonFields_iff {d : Definition} {f : Field} :
    f ∈ d.commonFields ↔ d.alternatives ≠ [] ∧ ∀ a ∈ d.alternatives, f ∈ a.fields := by
  unfold commonFields
  cases d.alternatives with
  | nil =>
    have hempty : f ∉ FieldSet.empty := List.not_mem_nil
    simp [hempty]
  | cons a rest => simp [mem_foldl_inter, Alternative.mem_fieldSet]

end WideRow
