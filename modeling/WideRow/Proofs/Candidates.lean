import Mathlib.Data.List.Perm.Subperm
import WideRow.Planner
import WideRow.Proofs.Columns
import WideRow.Proofs.WellFormed

/-!
# Candidates and field sets

Over the schema of its own definition a candidate loses no field, so that what it says of positions
can be said of field sets: a candidate covers another if its field set includes that of the other,
and it fits a row if the row has a value for every field.

Results:
* `Candidate.isCoveredBy_iff`, `Candidate.ties_iff`, `Candidate.beyond_eq_nil_iff`: positions
  compare like field sets;
* `Candidate.fits_iff`: a candidate fits the rows that complete its alternative;
* `Definition.mem_order_iff`, `Definition.order_pairwise`: the order in which candidates are tried.
-/

namespace WideRow

open Json

/-! ## Cells of fields -/

/-- The cell of a field in a row over the schema; absent for a field without a column. -/
def Schema.cellOf (s : Schema) (row : Row) (f : Field) : Value :=
  match s.positionOf? f with
  | some k => row.cells[k]?.getD .null
  | none => .null

/-- The row has a value for every field of the alternative. -/
def Alternative.CompletedIn (a : Alternative) (s : Schema) (row : Row) : Prop :=
  ∀ f ∈ a.fields, (s.cellOf row f).isNull = false

instance (a : Alternative) (s : Schema) (row : Row) : Decidable (a.CompletedIn s row) :=
  inferInstanceAs (Decidable (∀ f ∈ a.fields, _))

/-- A row that completes an alternative completes all that lie inside it. -/
theorem Alternative.CompletedIn.of_subset {a b : Alternative} {s : Schema} {row : Row}
    (ha : a.CompletedIn s row) (h : b.fieldSet ⊆ a.fieldSet) : b.CompletedIn s row :=
  fun f hf => ha f (Alternative.fieldSet_subset_iff.1 h f hf)

/-- Every field of the alternative has a column. -/
def Schema.Covers (s : Schema) (a : Alternative) : Prop := ∀ f ∈ a.fields, f ∈ s.fields

theorem Row.isPopulated_eq (row : Row) (k : Nat) :
    row.isPopulated k = !(row.cells[k]?.getD .null).isNull := by
  rw [Row.isPopulated]
  cases row.cells[k]? <;> rfl

theorem Schema.cellOf_eq {s : Schema} {f : Field} {k : Nat} (row : Row)
    (h : s.positionOf? f = some k) : s.cellOf row f = row.cells[k]?.getD .null := by
  rw [Schema.cellOf, h]

/-! ## Slots -/

namespace Candidate

variable {s : Schema} {a b : Alternative} {f : Field} {k : Nat}

@[simp] theorem of_alternative : (of s a).alternative = a := rfl

@[simp] theorem of_name : (of s a).name = a.name := rfl

theorem mem_slots_iff : (f, k) ∈ (of s a).slots ↔ f ∈ a.fields ∧ s.positionOf? f = some k := by
  rw [of, List.mem_filterMap]
  constructor
  · rintro ⟨g, hg, e⟩
    obtain ⟨k', hk', e⟩ := Option.map_eq_some_iff.1 e
    cases e
    exact ⟨hg, hk'⟩
  · rintro ⟨hf, hk⟩
    exact ⟨f, hf, by rw [hk, Option.map_some]⟩

theorem exists_mem_slots (h : s.Covers a) (hf : f ∈ a.fields) :
    ∃ k, s.positionOf? f = some k ∧ (f, k) ∈ (of s a).slots := by
  obtain ⟨k, hk⟩ := Schema.exists_positionOf? (h f hf)
  exact ⟨k, hk, mem_slots_iff.2 ⟨hf, hk⟩⟩

/-- No field is left out. -/
theorem map_fst_slots (h : s.Covers a) : (of s a).slots.map Prod.fst = a.fields := by
  have hslots : ∀ fields : List Field, (∀ f ∈ fields, f ∈ s.fields) →
      (fields.filterMap fun f => (s.positionOf? f).map fun k => (f, k)).map Prod.fst = fields := by
    intro fields hfields
    induction fields with
    | nil => rfl
    | cons f rest ih =>
      rw [List.forall_mem_cons] at hfields
      obtain ⟨k, hk⟩ := Schema.exists_positionOf? hfields.1
      rw [List.filterMap_cons_some (by rw [hk, Option.map_some]), List.map_cons, ih hfields.2]
  exact hslots a.fields h

theorem occupies_iff : (of s a).occupies k ↔ ∃ f ∈ a.fields, s.positionOf? f = some k := by
  rw [occupies, List.any_eq_true]
  constructor
  · rintro ⟨⟨f, k'⟩, hslot, e⟩
    obtain ⟨hf, hk⟩ := mem_slots_iff.1 hslot
    exact ⟨f, hf, hk.trans (congrArg some (beq_iff_eq.1 e))⟩
  · rintro ⟨f, hf, hk⟩
    exact ⟨(f, k), mem_slots_iff.2 ⟨hf, hk⟩, beq_self_eq_true k⟩

/-- The position of a field belongs to the candidates that have the field. -/
theorem occupies_position_iff (hk : s.positionOf? f = some k) :
    (of s a).occupies k ↔ f ∈ a.fields := by
  rw [occupies_iff]
  constructor
  · rintro ⟨g, hg, hgk⟩
    rwa [Schema.positionOf?_injective hk hgk]
  · exact fun hf => ⟨f, hf, hk⟩

theorem isCoveredBy_iff (h : s.Covers a) :
    (of s a).isCoveredBy (of s b) ↔ a.fieldSet ⊆ b.fieldSet := by
  rw [isCoveredBy, List.all_eq_true, Alternative.fieldSet_subset_iff]
  constructor
  · intro hall f hf
    obtain ⟨k, hk, hslot⟩ := exists_mem_slots h hf
    exact (occupies_position_iff hk).1 (hall _ hslot)
  · rintro hall ⟨f, k⟩ hslot
    obtain ⟨hf, hk⟩ := mem_slots_iff.1 hslot
    exact (occupies_position_iff hk).2 (hall f hf)

theorem ties_iff (ha : s.Covers a) (hb : s.Covers b) :
    (of s a).ties (of s b) ↔ a.fieldSet = b.fieldSet := by
  rw [ties, Bool.and_eq_true, isCoveredBy_iff ha, isCoveredBy_iff hb]
  constructor
  · exact fun h => FieldSet.eq_of_subset_of_subset h.1 h.2
  · exact fun h => ⟨h ▸ fun _ => id, h ▸ fun _ => id⟩

theorem mem_slotsByPosition {c : Candidate} {slot : Field × Nat} :
    slot ∈ c.slotsByPosition ↔ slot ∈ c.slots := List.mem_mergeSort

theorem pairwise_slotsByPosition (c : Candidate) :
    c.slotsByPosition.Pairwise fun x y => x.2 ≤ y.2 := by
  have htrans : ∀ x y z : Field × Nat, decide (x.2 ≤ y.2) → decide (y.2 ≤ z.2) →
      decide (x.2 ≤ z.2) := by
    intro x y z hxy hyz
    exact decide_eq_true (Nat.le_trans (of_decide_eq_true hxy) (of_decide_eq_true hyz))
  have htotal : ∀ x y : Field × Nat, decide (x.2 ≤ y.2) || decide (y.2 ≤ x.2) := by
    intro x y
    rw [Bool.or_eq_true, decide_eq_true_eq, decide_eq_true_eq]
    exact Nat.le_total x.2 y.2
  exact (List.pairwise_mergeSort htrans htotal c.slots).imp of_decide_eq_true

theorem slotsByPosition_perm (c : Candidate) : c.slotsByPosition.Perm c.slots :=
  List.mergeSort_perm _ _

theorem mem_slots_of_mem_beyond {c e : Candidate} {slot : Field × Nat} (h : slot ∈ c.beyond e) :
    slot ∈ e.slots :=
  mem_slotsByPosition.1 (List.mem_of_mem_filter h)

/-- Rivals are later candidates, with the slots beyond the first. -/
theorem exists_of_mem_rivals {c : Candidate} {later : List Candidate}
    {rival : Candidate × List (Field × Nat)} (h : rival ∈ c.rivals later) :
    ∃ e ∈ later, rival = (e, c.beyond e) := by
  obtain ⟨e, he, hrival⟩ := List.mem_map.1 (List.mem_of_mem_filter h)
  exact ⟨e, he, hrival.symm⟩

theorem beyond_eq_nil_iff (hb : s.Covers b) :
    (of s a).beyond (of s b) = [] ↔ b.fieldSet ⊆ a.fieldSet := by
  rw [beyond, List.filter_eq_nil_iff, Alternative.fieldSet_subset_iff]
  constructor
  · intro hall f hf
    obtain ⟨k, hk, hslot⟩ := exists_mem_slots hb hf
    have := hall _ (mem_slotsByPosition.2 hslot)
    exact (occupies_position_iff hk).1 (by simpa using this)
  · rintro hall ⟨f, k⟩ hslot
    obtain ⟨hf, hk⟩ := mem_slots_iff.1 (mem_slotsByPosition.1 hslot)
    simpa using (occupies_position_iff hk).2 (hall f hf)

/-- A candidate fits the rows that complete its alternative. -/
theorem fits_iff {row : Row} (h : s.Covers a) : (of s a).fits row ↔ a.CompletedIn s row := by
  rw [fits, List.all_eq_true]
  constructor
  · intro hall f hf
    obtain ⟨k, hk, hslot⟩ := exists_mem_slots h hf
    have := hall _ hslot
    rw [Row.isPopulated_eq, ← Schema.cellOf_eq row hk] at this
    simpa using this
  · rintro hall ⟨f, k⟩ hslot
    obtain ⟨hf, hk⟩ := mem_slots_iff.1 hslot
    rw [Row.isPopulated_eq, ← Schema.cellOf_eq row hk, hall f hf, Bool.not_false]

end Candidate

/-! ## The order of the candidates -/

namespace Candidate

theorem precedes_iff {c d : Candidate} :
    c.precedes d ↔ d.arity < c.arity ∨ (c.arity = d.arity ∧ c.name ≤ d.name) := by
  simp [precedes]

theorem precedes_trans (c d e : Candidate) (h : c.precedes d) (h' : d.precedes e) :
    c.precedes e := by
  rw [precedes_iff] at *
  rcases h with h | ⟨h, hn⟩ <;> rcases h' with h' | ⟨h', hn'⟩
  · exact .inl (by omega)
  · exact .inl (by omega)
  · exact .inl (by omega)
  · exact .inr ⟨by omega, String.le_trans hn hn'⟩

theorem precedes_total (c d : Candidate) : c.precedes d || d.precedes c := by
  rw [Bool.or_eq_true, precedes_iff, precedes_iff]
  rcases Nat.lt_trichotomy c.arity d.arity with h | h | h
  · exact .inr (.inl h)
  · exact (String.le_total c.name d.name).imp (fun hn => .inr ⟨h, hn⟩) fun hn => .inr ⟨h.symm, hn⟩
  · exact .inl (.inl h)

end Candidate

namespace Definition

variable {d : Definition}

/-- The planner of a definition over its own schema. -/
abbrev planner (d : Definition) : Planner := .of d d.schema

theorem covers_of_mem {a : Alternative} (ha : a ∈ d.alternatives) : d.schema.Covers a :=
  fun _ hf => mem_schema_iff.2 ⟨a, ha, hf⟩

theorem order_perm (d : Definition) :
    d.planner.order.Perm (d.alternatives.map (Candidate.of d.schema)) :=
  List.mergeSort_perm _ _

theorem mem_order_iff {c : Candidate} :
    c ∈ d.planner.order ↔ ∃ a ∈ d.alternatives, Candidate.of d.schema a = c := by
  rw [d.order_perm.mem_iff, List.mem_map]

/-- A candidate is tried after those that precede it. -/
theorem order_pairwise (d : Definition) :
    d.planner.order.Pairwise fun c c' => c.precedes c' :=
  List.pairwise_mergeSort Candidate.precedes_trans Candidate.precedes_total _

/-- Alternatives that are declared in the order of their candidates are tried as declared. -/
theorem order_eq_of_pairwise
    (h : (d.alternatives.map (Candidate.of d.schema)).Pairwise fun c c' => c.precedes c') :
    d.planner.order = d.alternatives.map (Candidate.of d.schema) :=
  List.mergeSort_of_pairwise h

theorem WellFormed.order_names_nodup (h : d.WellFormed) :
    (d.planner.order.map (·.name)).Nodup := by
  rw [(d.order_perm.map _).nodup_iff, List.map_map]
  exact h.names_nodup

theorem WellFormed.order_nodup (h : d.WellFormed) : d.planner.order.Nodup :=
  .of_map _ h.order_names_nodup

end Definition

/-! ## Arity -/

/-- More fields cannot fit into a smaller alternative. -/
theorem Alternative.WellFormed.arity_lt_of_ssubset {a b : Alternative} (ha : a.WellFormed)
    (h : a.fieldSet ⊂ b.fieldSet) : a.arity < b.arity := by
  obtain ⟨hsub, hnot⟩ := FieldSet.ssubset_def.1 h
  rw [Alternative.fieldSet_subset_iff] at hsub hnot
  have hle : a.fields.Subperm b.fields := List.subperm_of_subset ha.fields_nodup hsub
  refine Nat.lt_of_le_of_ne hle.length_le fun e => hnot ?_
  have hperm := hle.perm_of_length_le (Nat.le_of_eq e.symm)
  exact fun f hf => hperm.mem_iff.2 hf

end WideRow
