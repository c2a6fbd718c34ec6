import WideRow.Proofs.Adapter.Names
import WideRow.Proofs.Adapter.Statements
import WideRow.Proofs.Candidates

/-!
# The bodies of an adapter can be read

The names in the bodies of an adapter are those of a built definition, so that the bodies can be
read: class names and accessors are identifiers, and messages need no escapes. Only the types may be
anything, and must have class literals where they are written as such.

Results:
* `Definition.WellFormed.readable_propertyCascade`: the body that gives a property;
* `Definition.WellFormed.readable_instantiateCascade`: the body that instantiates a row.
-/

namespace WideRow

/-! ## Messages -/

theorem isPlain_append {s t : String} (hs : isPlain s) (ht : isPlain t) : isPlain (s ++ t) := by
  rw [isPlain, String.toList_append, List.all_append, Bool.and_eq_true]
  exact ⟨hs, ht⟩

theorem isPlain_of_isQualified {s : String} (h : Name.isQualified s) : isPlain s := by
  have hdot : Java.standsForItself '.' := by
    decide
  refine List.all_eq_true.2 fun c hc => ?_
  rcases Name.isInner_of_mem h hc with rfl | hinner
  · exact hdot
  · have hother : ∀ c', Name.isInner c' = false → c ≠ c' := by
      rintro c' hc' rfl
      rw [hinner] at hc'
      cases hc'
    simp only [Java.standsForItself, Bool.and_eq_true, bne_iff_ne]
    exact ⟨⟨⟨hother _ (by decide), hother _ (by decide)⟩, hother _ (by decide)⟩,
      hother _ (by decide)⟩

theorem isPlain_comma : isPlain ", " := by
  decide

theorem isPlain_intercalate {names : List String} (h : ∀ s ∈ names, isPlain s) :
    isPlain (String.intercalate ", " names) := by
  refine List.all_eq_true.2 fun c hc => ?_
  rcases Text.mem_of_mem_intercalate hc with hcomma | ⟨s, hs, hmem⟩
  · exact List.all_eq_true.1 isPlain_comma c hcomma
  · exact List.all_eq_true.1 (h s hs) c hmem

/-! ## Branches -/

/-- Every type of the definition has a class literal. -/
def Definition.HasClassLiterals (d : Definition) : Prop :=
  ∀ a ∈ d.alternatives, ∀ f ∈ a.fields, IsClassName f.type.erasure

namespace Definition.WellFormed

variable {d : Definition}

theorem candidate_name_qualified (h : d.WellFormed) {c : Candidate} (hc : c ∈ d.planner.order) :
    Name.isQualified c.name := by
  obtain ⟨a, ha, rfl⟩ := mem_order_iff.1 hc
  exact (h.alternative_wellFormed a ha).name_qualified

theorem accessor_free (h : d.WellFormed) {c : Candidate} (hc : c ∈ d.planner.order)
    {slot : Field × Nat} (hslot : slot ∈ c.slots) : Name.IsFree slot.1.name := by
  obtain ⟨a, ha, rfl⟩ := mem_order_iff.1 hc
  exact (h.alternative_wellFormed a ha).name_free (Candidate.mem_slots_iff.1 hslot).1

/-- The body that gives a property can be read. -/
theorem readable_propertyCascade (h : d.WellFormed) : (propertyCascade d.planner).Readable where
  branches := by
    intro b hb
    obtain ⟨c, hc, rfl⟩ := List.mem_map.1 hb
    have hname := h.candidate_name_qualified hc
    refine ⟨⟨hname, isFree_localName hname⟩, by simp [propertyBranch], ?_⟩
    unfold propertyBranch
    dsimp only
    split_ifs
    · trivial
    · refine ⟨isFree_localName hname, fun access haccess => ?_⟩
      obtain ⟨slot, hslot, rfl⟩ := List.mem_map.1 haccess
      exact h.accessor_free hc (Candidate.mem_slotsByPosition.1 hslot)
  otherwise := trivial

theorem readable_cells (hliterals : d.HasClassLiterals) {c : Candidate} (hc : c ∈ d.planner.order)
    {slots : List (Field × Nat)} (hslots : ∀ slot ∈ slots, slot ∈ c.slots) :
    ∀ r ∈ slots.map CellRead.of, r.Readable := by
  intro r hr
  obtain ⟨slot, hslot, rfl⟩ := List.mem_map.1 hr
  obtain ⟨a, ha, rfl⟩ := mem_order_iff.1 hc
  exact hliterals a ha slot.1 (Candidate.mem_slots_iff.1 (hslots slot hslot)).1

/-- The message of a branch for candidates that occupy the same positions needs no escapes. -/
theorem isPlain_tiesMessage (h : d.WellFormed) {c : Candidate} :
    isPlain ("Ambiguous alternatives: " ++
      String.intercalate ", " ((d.planner.tiesOf c).map (·.name))) := by
  refine isPlain_append (by decide) (isPlain_intercalate fun s hs => ?_)
  obtain ⟨tie, htie, rfl⟩ := List.mem_map.1 hs
  exact isPlain_of_isQualified (h.candidate_name_qualified (List.mem_of_mem_filter htie))

/-- Nor does the message of a guard against a rival. -/
theorem isPlain_rivalGuard (h : d.WellFormed) {c e : Candidate} (hc : c ∈ d.planner.order)
    (he : e ∈ d.planner.order) (beyond : List (Field × Nat)) :
    isPlain (rivalGuard c (e, beyond)).message := by
  have hopening : isPlain "Ambiguous row: " := by
    decide
  have hname := isPlain_of_isQualified (h.candidate_name_qualified hc)
  have hrivalName := isPlain_of_isQualified (h.candidate_name_qualified he)
  exact isPlain_append (isPlain_append (isPlain_append hopening hname) isPlain_comma) hrivalName

theorem readable_instantiateBranch (h : d.WellFormed) (hliterals : d.HasClassLiterals)
    {c : Candidate} (hc : c ∈ d.planner.order) {later : List Candidate}
    (hlater : later ⊆ d.planner.order) : (instantiateBranch d.planner c later).Readable := by
  have hname := h.candidate_name_qualified hc
  have htest : ∀ r ∈ c.slotsByPosition.map CellRead.of, r.Readable :=
    readable_cells hliterals hc fun _ => Candidate.mem_slotsByPosition.1
  unfold instantiateBranch
  dsimp only
  split_ifs with hties
  · exact ⟨htest, by simp, h.isPlain_tiesMessage⟩
  · refine ⟨htest, fun g hg => ?_, hname, readable_cells hliterals hc fun _ => id⟩
    obtain ⟨rival, hrival, rfl⟩ := List.mem_map.1 hg
    obtain ⟨e, he, rfl⟩ := Candidate.exists_of_mem_rivals hrival
    exact ⟨readable_cells hliterals (hlater he) fun _ => Candidate.mem_slots_of_mem_beyond,
      h.isPlain_rivalGuard hc (hlater he) _⟩

/-- The body that instantiates a row can be read. -/
theorem readable_instantiateCascade (h : d.WellFormed) (hliterals : d.HasClassLiterals) :
    (instantiateCascade d.planner).Readable where
  branches := by
    intro b hb
    obtain ⟨c, later, hsub, rfl⟩ := exists_of_mem_instantiateBranches hb
    obtain ⟨hc, hlater⟩ := List.cons_subset.1 hsub
    exact h.readable_instantiateBranch hliterals hc hlater
  otherwise := by
    show isPlain "Unknown alternative"
    decide

end Definition.WellFormed

end WideRow
