import WideRow.Proofs.ProjectedRow
import WideRow.Proofs.Unification

/-!
# The order of fields

The order in which the fields of an alternative are declared is that of the constructor, and a
candidate keeps it. All that the planner makes of a candidate, however, can be read off its sorted
form, with the slots in the order of positions: how large it is and where it stands, which rows it
fits and which other candidates it covers. So definitions that differ in the order of fields only
have planners of the same sorted form, and these make the same choices.

Main definitions:
* `Definition.PermutesFields`: definitions that differ in the order of fields only;
* `Candidate.sorted`, `Planner.sorted`: the sorted forms.

Results:
* `Planner.ambiguousPairs_sorted`, `Planner.resolve_sorted`: a planner does what its sorted form
  does;
* `Definition.PermutesFields.planner_sorted`: the order of fields is not seen in the sorted form;
* `Definition.PermutesFields.project_eq`: it is not seen in the rows of instances.
-/

namespace WideRow

open Json

/-! ## Permuted fields -/

/-- The alternatives have one name and declare the same fields, each as often, in whatever order. -/
structure Alternative.PermutesFields (b a : Alternative) : Prop where
  name_eq : b.name = a.name
  fields_perm : b.fields.Perm a.fields

/-- The definitions differ at most in the order in which each alternative declares its fields. -/
structure Definition.PermutesFields (e d : Definition) : Prop where
  name_eq : e.name = d.name
  package_eq : e.package = d.package
  alternatives_permute : List.Forall₂ Alternative.PermutesFields e.alternatives d.alternatives

/-- The alternative with its fields in increasing order. -/
def Alternative.sorted (a : Alternative) : Alternative :=
  ⟨a.name, a.fields.mergeSort fun f g => !decide (g < f)⟩

theorem Alternative.sorted_perm (a : Alternative) : a.sorted.fields.Perm a.fields :=
  List.mergeSort_perm _ _

theorem Alternative.pairwise_sorted (a : Alternative) :
    a.sorted.fields.Pairwise fun f g => ¬ g < f := by
  have htrans : ∀ f g k : Field, !decide (g < f) → !decide (k < g) → !decide (k < f) := by
    intro f g k hfg hgk
    rw [Bool.not_eq_true', decide_eq_false_iff_not] at *
    intro hkf
    rcases Field.lt_trichotomy g f with hlt | rfl | hlt
    · exact hfg hlt
    · exact hgk hkf
    · exact hgk (Field.lt_trans hkf hlt)
  have htotal : ∀ f g : Field, !decide (g < f) || !decide (f < g) := by
    intro f g
    rw [Bool.or_eq_true, Bool.not_eq_true', Bool.not_eq_true', decide_eq_false_iff_not,
      decide_eq_false_iff_not]
    by_contra hboth
    push Not at hboth
    exact Field.lt_irrefl f (Field.lt_trans hboth.2 hboth.1)
  refine (List.pairwise_mergeSort htrans htotal a.fields).imp fun h => ?_
  rwa [Bool.not_eq_true', decide_eq_false_iff_not] at h

/-- Sorting leaves no choice, as the order of fields is total. -/
theorem Alternative.PermutesFields.sorted_eq {a b : Alternative} (h : b.PermutesFields a) :
    b.sorted = a.sorted := by
  have hperm := b.sorted_perm.trans (h.fields_perm.trans a.sorted_perm.symm)
  refine congrArg₂ Alternative.mk h.name_eq
    (hperm.eq_of_pairwise ?_ b.pairwise_sorted a.pairwise_sorted)
  intro f g _ _ hfg hgf
  rcases Field.lt_trichotomy f g with hlt | heq | hlt
  · exact absurd hlt hgf
  · exact heq
  · exact absurd hlt hfg

/-! ## Sorted candidates -/

namespace Candidate

variable {c e : Candidate} {s : Schema} {a b : Alternative}

/-- The candidate with its fields in increasing order and its slots in the order of positions. -/
def sorted (c : Candidate) : Candidate := ⟨c.alternative.sorted, c.slotsByPosition⟩

@[simp] theorem name_sorted : c.sorted.name = c.name := rfl

@[simp] theorem slots_sorted : c.sorted.slots = c.slotsByPosition := rfl

@[simp] theorem arity_sorted : c.sorted.arity = c.arity := List.length_mergeSort _

@[simp] theorem slotsByPosition_sorted : c.sorted.slotsByPosition = c.slotsByPosition :=
  List.mergeSort_of_pairwise (c.pairwise_slotsByPosition.imp decide_eq_true)

@[simp] theorem occupies_sorted (k : Nat) : c.sorted.occupies k = c.occupies k :=
  c.slotsByPosition_perm.any_eq

@[simp] theorem isCoveredBy_sorted : c.sorted.isCoveredBy e.sorted = c.isCoveredBy e := by
  rw [isCoveredBy, slots_sorted, c.slotsByPosition_perm.all_eq]
  simp only [occupies_sorted, isCoveredBy]

@[simp] theorem ties_sorted : c.sorted.ties e.sorted = c.ties e := by
  rw [ties, isCoveredBy_sorted, isCoveredBy_sorted, ties]

@[simp] theorem fits_sorted (row : Row) : c.sorted.fits row = c.fits row :=
  c.slotsByPosition_perm.all_eq

@[simp] theorem beyond_sorted : c.sorted.beyond e.sorted = c.beyond e := by
  simp only [beyond, slotsByPosition_sorted, occupies_sorted]

@[simp] theorem precedes_sorted : c.sorted.precedes e.sorted = c.precedes e := by
  rw [Bool.eq_iff_iff, precedes_iff, precedes_iff, arity_sorted, arity_sorted, name_sorted,
    name_sorted]

theorem rivals_map_sorted (later : List Candidate) :
    c.sorted.rivals (later.map sorted) =
      (c.rivals later).map fun rival => (rival.1.sorted, rival.2) := by
  simp only [rivals, List.map_map, List.filter_map, Function.comp_def, beyond_sorted]

/-- Slots at one position are one slot, so that sorting by position leaves no choice. -/
theorem slotsByPosition_of_perm (h : b.fields.Perm a.fields) :
    (of s b).slotsByPosition = (of s a).slotsByPosition := by
  have hslots : (of s b).slots.Perm (of s a).slots := h.filterMap _
  have hperm := (of s b).slotsByPosition_perm.trans
    (hslots.trans (of s a).slotsByPosition_perm.symm)
  refine hperm.eq_of_pairwise ?_ (pairwise_slotsByPosition _) (pairwise_slotsByPosition _)
  rintro ⟨f, k⟩ ⟨g, k'⟩ hf hg hle hle'
  obtain rfl : k = k' := Nat.le_antisymm hle hle'
  have hfk := (mem_slots_iff.1 (mem_slotsByPosition.1 hf)).2
  have hgk := (mem_slots_iff.1 (mem_slotsByPosition.1 hg)).2
  rw [Schema.positionOf?_injective hfk hgk]

theorem sorted_of_permutesFields (h : b.PermutesFields a) : (of s b).sorted = (of s a).sorted :=
  congrArg₂ Candidate.mk h.sorted_eq (slotsByPosition_of_perm h.fields_perm)

/-- Candidates of one sorted form are those of the same fields. -/
theorem perm_of_sorted_eq (h : (of s b).sorted = (of s a).sorted) : b.fields.Perm a.fields := by
  have hfields : b.sorted.fields = a.sorted.fields := congrArg (·.alternative.fields) h
  exact b.sorted_perm.symm.trans (hfields ▸ a.sorted_perm)

end Candidate

/-! ## Sorted planners -/

namespace Planner

variable {p : Planner}

/-- The planner with all candidates sorted. -/
def sorted (p : Planner) : Planner := ⟨p.schema, p.order.map Candidate.sorted⟩

theorem candidate?_sorted (name : String) :
    p.sorted.candidate? name = (p.candidate? name).map Candidate.sorted := by
  rw [candidate?, sorted, List.find?_map]
  rfl

theorem tiesOf_sorted (c : Candidate) :
    p.sorted.tiesOf c.sorted = (p.tiesOf c).map Candidate.sorted := by
  simp only [tiesOf, sorted, List.filter_map, Function.comp_def, Candidate.ties_sorted]

theorem pairsFrom_map_sorted (order : List Candidate) :
    pairsFrom (order.map Candidate.sorted) =
      (pairsFrom order).map fun pair => (pair.1.sorted, pair.2.sorted) := by
  induction order with
  | nil => rfl
  | cons c later ih =>
    simp only [List.map_cons, pairsFrom, ih, List.takeWhile_map, List.filter_map, List.map_append,
      List.map_map, Function.comp_def, Candidate.arity_sorted, Candidate.ties_sorted]

theorem ambiguousPairs_sorted : p.sorted.ambiguousPairs = p.ambiguousPairs := by
  rw [ambiguousPairs, sorted, pairsFrom_map_sorted, List.map_map]
  rfl

theorem firstFit_map_sorted (row : Row) (order : List Candidate) :
    firstFit row (order.map Candidate.sorted) =
      (firstFit row order).map fun found => (found.1.sorted, found.2.map Candidate.sorted) := by
  induction order with
  | nil => rfl
  | cons c later ih =>
    rw [List.map_cons, firstFit, firstFit, Candidate.fits_sorted]
    split_ifs
    · rfl
    · exact ih

/-- A sorted planner decides as the planner does, and gives the sorted candidate. -/
theorem resolve_sorted (row : Row) :
    p.sorted.resolve row = (p.resolve row).map Candidate.sorted := by
  rw [resolve, resolve]
  have hwidth : p.sorted.width = p.width := rfl
  rw [hwidth]
  split_ifs
  · rfl
  · have horder : p.sorted.order = p.order.map Candidate.sorted := rfl
    rw [horder, firstFit_map_sorted]
    cases firstFit row p.order with
    | none => rfl
    | some found =>
      obtain ⟨winner, later⟩ := found
      simp only [Option.map_some, Candidate.rivals_map_sorted, tiesOf_sorted, List.map_map,
        List.filter_map, List.length_map, List.isEmpty_map, Function.comp_def,
        Candidate.fits_sorted, Candidate.name_sorted]
      split_ifs <;> rfl

@[simp] theorem readOff_alternative (c : Candidate) (row : Row) :
    (readOff c row).alternative = c.name := by
  have hset : ∀ (slots : List (Field × Nat)) (i : Instance),
      (slots.foldl (fun i slot => i.set slot.1.name (row.cells[slot.2]?.getD .null)) i).alternative =
        i.alternative := by
    intro slots
    induction slots with
    | nil => exact fun _ => rfl
    | cons slot slots ih => exact fun i => ih _
  exact hset c.slots (.empty c.name)

/-- The instance that is read off a row is one of the alternative that the row belongs to. -/
theorem map_alternative_reconstruct (row : Row) :
    (p.reconstruct row).map (·.alternative) = (p.resolve row).map (·.name) := by
  rw [reconstruct]
  cases p.resolve row with
  | error _ => rfl
  | ok c => exact congrArg Except.ok (readOff_alternative c row)

end Planner

/-! ## What does not depend on the order of fields -/

namespace Definition.PermutesFields

variable {e d : Definition}

theorem sameFieldSets (h : e.PermutesFields d) : e.SameFieldSets d := by
  have hsame : ∀ {l m : List Alternative}, List.Forall₂ Alternative.PermutesFields l m →
      (∀ b ∈ l, ∃ a ∈ m, b.SameFields a) ∧ ∀ a ∈ m, ∃ b ∈ l, b.SameFields a := by
    intro l m hlm
    induction hlm with
    | nil => simp
    | @cons b a l m hba _ ih =>
      have hfirst : b.SameFields a :=
        ⟨fun _ => hba.fields_perm.mem_iff.1, fun _ => hba.fields_perm.mem_iff.2⟩
      constructor
      · rw [List.forall_mem_cons]
        exact ⟨⟨a, List.mem_cons_self, hfirst⟩,
          fun b' hb' => (ih.1 b' hb').imp fun _ h => ⟨.tail _ h.1, h.2⟩⟩
      · rw [List.forall_mem_cons]
        exact ⟨⟨b, List.mem_cons_self, hfirst⟩,
          fun a' ha' => (ih.2 a' ha').imp fun _ h => ⟨.tail _ h.1, h.2⟩⟩
  exact ⟨(hsame h.alternatives_permute).1, (hsame h.alternatives_permute).2⟩

theorem schema_eq (h : e.PermutesFields d) : e.schema = d.schema := h.sameFieldSets.schema_eq

theorem commonFields_eq (h : e.PermutesFields d) : e.commonFields = d.commonFields :=
  h.sameFieldSets.commonFields_eq

theorem unify_eq (h : e.PermutesFields d) : e.unify = d.unify := by
  rw [unify, unify, h.schema_eq, h.commonFields_eq]

/-- The order of fields is not seen in the sorted form of the planner. -/
theorem planner_sorted (h : e.PermutesFields d) : e.planner.sorted = d.planner.sorted := by
  have hsort : ∀ cs : List Candidate, (cs.mergeSort Candidate.precedes).map Candidate.sorted =
      (cs.map Candidate.sorted).mergeSort Candidate.precedes := fun _ =>
    List.map_mergeSort fun _ _ _ _ => Candidate.precedes_sorted.symm
  have hcandidates : (e.alternatives.map fun a => (Candidate.of d.schema a).sorted) =
      d.alternatives.map fun a => (Candidate.of d.schema a).sorted := by
    rw [← List.forall₂_eq_eq_eq]
    exact List.rel_map (fun _ _ hba => Candidate.sorted_of_permutesFields hba) h.alternatives_permute
  refine congrArg₂ Planner.mk h.schema_eq ?_
  simp only [planner, Planner.of, hsort, List.map_map, h.schema_eq]
  exact congrArg (List.mergeSort · Candidate.precedes) hcandidates

/-- The candidates stand in the same order, and each has the same slots. -/
theorem order_eq (h : e.PermutesFields d) :
    e.planner.order.map (fun c => (c.name, c.slotsByPosition)) =
      d.planner.order.map fun c => (c.name, c.slotsByPosition) := by
  have hread : ∀ p : Planner, (p.order.map fun c => (c.name, c.slotsByPosition)) =
      p.sorted.order.map fun c => (c.name, c.slots) := by
    intro p
    rw [Planner.sorted, List.map_map]
    rfl
  rw [hread, hread, h.planner_sorted]

theorem ambiguousPairs_eq (h : e.PermutesFields d) :
    e.planner.ambiguousPairs = d.planner.ambiguousPairs := by
  rw [← Planner.ambiguousPairs_sorted, h.planner_sorted, Planner.ambiguousPairs_sorted]

theorem map_name_resolve_eq (h : e.PermutesFields d) (row : Row) :
    (e.planner.resolve row).map (·.name) = (d.planner.resolve row).map (·.name) := by
  have hname : ∀ p : Planner,
      (p.resolve row).map (·.name) = (p.sorted.resolve row).map (·.name) := by
    intro p
    rw [Planner.resolve_sorted]
    cases p.resolve row <;> rfl
  rw [hname, h.planner_sorted, ← hname]

/-- An instance is laid out in the same row, or refused for the same reason. -/
theorem project_eq (h : e.PermutesFields d) (i : Instance) :
    e.planner.project i = d.planner.project i := by
  have hcandidate : (e.planner.candidate? i.alternative).map Candidate.sorted =
      (d.planner.candidate? i.alternative).map Candidate.sorted := by
    rw [← Planner.candidate?_sorted, h.planner_sorted, Planner.candidate?_sorted]
  have hwidth : e.planner.width = d.planner.width := congrArg Schema.width h.schema_eq
  rw [Planner.project, Planner.project, hwidth]
  cases hd : d.planner.candidate? i.alternative with
  | none =>
    rw [hd, Option.map_none, Option.map_eq_none_iff] at hcandidate
    rw [hcandidate]
  | some c =>
    rw [hd, Option.map_some, Option.map_eq_some_iff] at hcandidate
    obtain ⟨c', he, hsorted⟩ := hcandidate
    obtain ⟨b, hb, rfl⟩ := mem_order_iff.1 (List.mem_of_find?_eq_some he)
    obtain ⟨a, ha, rfl⟩ := mem_order_iff.1 (List.mem_of_find?_eq_some hd)
    rw [he]
    rw [h.schema_eq] at hsorted ⊢
    have hperm := Candidate.perm_of_sorted_eq hsorted
    have hstray : ∀ name, (b.field? name).isNone = (a.field? name).isNone := by
      intro name
      rw [Bool.eq_iff_iff, Alternative.field?_isNone_iff, Alternative.field?_isNone_iff]
      simp only [hperm.mem_iff]
    have hcell : ∀ k ∈ List.range d.planner.width,
        Planner.cellAt (.of d.schema b) i.fields k = Planner.cellAt (.of d.schema a) i.fields k := by
      intro k hk
      have hk : k < d.schema.fields.toList.length := List.mem_range.1 hk
      have hposition : d.schema.positionOf? d.schema.fields.toList[k] = some k :=
        Schema.positionOf?_eq_some_iff.2 (List.getElem?_eq_getElem hk)
      rw [Planner.cellAt_of i hposition, Planner.cellAt_of i hposition]
      simp only [hperm.mem_iff]
    simp only [Candidate.of_alternative, hstray, List.map_congr_left hcell]

end Definition.PermutesFields

end WideRow
