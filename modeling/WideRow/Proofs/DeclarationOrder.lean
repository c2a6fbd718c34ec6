import Mathlib.Data.List.Perm.Basic
import WideRow.Proofs.StrictGeneration
import WideRow.Proofs.Unification

/-!
# The order of declaration

The order in which the alternatives of a sum type are declared is forgotten by all that is derived
from it. Schema and common fields are sets, and the candidates stand in an order of their own, which
leaves no choice as no two alternatives share a name. So the adapter, the report, the failures and
the events on the way are those of any other order.

Results:
* `Description.build_reordered`: a reordered description builds the reordered definition;
* `Definition.Reorders.unify_eq`, `Definition.Reorders.planner_eq`: what is derived is the same;
* `declaration_order_irrelevant`: so are generation and analysis.
-/

namespace WideRow

/-! ## Building -/

/-- The definitions differ at most in the order in which their alternatives are declared. -/
structure Definition.Reorders (e d : Definition) : Prop where
  name_eq : e.name = d.name
  package_eq : e.package = d.package
  alternatives_perm : e.alternatives.Perm d.alternatives

/-- The checks do not depend on the order of the alternatives, and each alternative is built on its
own. -/
theorem Description.build_reordered {description : Description} {d : Definition}
    {reordered : List AlternativeDescription} (h : reordered.Perm description.alternatives)
    (hbuild : description.build = .ok d) :
    ∃ e, ({ description with alternatives := reordered } : Description).build = .ok e ∧
      e.Reorders d := by
  obtain ⟨hname, hclosed, hne, hnodup, hn, hp, hbuilds⟩ := build_eq_ok_iff.1 hbuild
  obtain ⟨alternatives, hbuilt, hperm⟩ := List.perm_comp_forall₂ h hbuilds
  refine ⟨⟨d.name, d.package, alternatives⟩, build_eq_ok_iff.2 ?_, rfl, rfl, hperm⟩
  refine ⟨hname, hclosed, fun hnil => hne ?_, ?_, hn, hp, hbuilt⟩
  · obtain rfl : reordered = [] := hnil
    exact h.symm.eq_nil
  · exact (h.map _).nodup_iff.2 hnodup

/-! ## What is derived -/

theorem Candidate.name_eq_of_precedes {c c' : Candidate} (h : c.precedes c')
    (h' : c'.precedes c) : c.name = c'.name := by
  rw [precedes_iff] at h h'
  rcases h with h | ⟨heq, hle⟩
  · omega
  · rcases h' with h' | ⟨-, hle'⟩
    · omega
    · exact String.le_antisymm hle hle'

namespace Definition.Reorders

variable {e d : Definition}

theorem sameFieldSets (h : e.Reorders d) : e.SameFieldSets d :=
  ⟨fun a ha => ⟨a, h.alternatives_perm.mem_iff.1 ha, fun _ => id, fun _ => id⟩,
    fun a ha => ⟨a, h.alternatives_perm.mem_iff.2 ha, fun _ => id, fun _ => id⟩⟩

theorem unify_eq (h : e.Reorders d) : e.unify = d.unify := by
  rw [unify, unify, h.sameFieldSets.schema_eq, h.sameFieldSets.commonFields_eq]

/-- The order of the candidates leaves no choice: candidates that precede each other have one name,
and alternatives of one name are one. -/
theorem planner_eq (h : e.Reorders d) (hd : d.WellFormed) (s : Schema) :
    Planner.of e s = Planner.of d s := by
  have hsorted : ∀ cs : List Candidate,
      (cs.mergeSort Candidate.precedes).Pairwise fun c c' => c.precedes c' :=
    List.pairwise_mergeSort Candidate.precedes_trans Candidate.precedes_total
  have hcandidates : (e.alternatives.map (Candidate.of s)).Perm
      (d.alternatives.map (Candidate.of s)) := h.alternatives_perm.map _
  have hperm : (Planner.of e s).order.Perm (Planner.of d s).order :=
    (List.mergeSort_perm _ _).trans (hcandidates.trans (List.mergeSort_perm _ _).symm)
  have hmem : ∀ c ∈ (Planner.of d s).order, ∃ a ∈ d.alternatives, Candidate.of s a = c :=
    fun c hc => List.mem_map.1 (List.mem_mergeSort.1 hc)
  refine congrArg (Planner.mk s) (hperm.eq_of_pairwise ?_ (hsorted _) (hsorted _))
  intro c c' hc hc' hle hle'
  obtain ⟨a, ha, rfl⟩ := hmem c (hperm.mem_iff.1 hc)
  obtain ⟨b, hb, rfl⟩ := hmem c' hc'
  rw [hd.eq_of_name_eq ha hb (Candidate.name_eq_of_precedes hle hle')]

/-! ## What is generated and reported -/

theorem naming_eq (h : e.Reorders d) (requested : Option String) :
    Naming.of? e requested = Naming.of? d requested := by
  unfold Naming.of? Naming.packageOf
  rw [h.name_eq, h.package_eq]

theorem collisionEvents_eq (h : e.Reorders d) (u : Unified) :
    collisionEvents e u = collisionEvents d u := by
  unfold collisionEvents
  rw [h.name_eq]

theorem checkAmbiguity_eq (h : e.Reorders d) (p : Planner) (deny : Bool) :
    checkAmbiguity e p deny = checkAmbiguity d p deny := by
  unfold checkAmbiguity
  rw [h.name_eq]

theorem emit_eq (h : e.Reorders d) (hd : d.WellFormed) (u : Unified) (n : Naming) (t : Template)
    (nonNullHints : Bool) : emit e u n t nonNullHints = emit d u n t nonNullHints := by
  unfold emit slotValues
  rw [h.planner_eq hd]

end Definition.Reorders

section Runs

variable {description other : Description} {d e : Definition}

theorem generate_eq_of_reorders (hd : description.build = .ok d) (he : other.build = .ok e)
    (h : e.Reorders d) (t : Template) (options : Options) :
    generate other t options = generate description t options := by
  have hwf := Description.build_wellFormed hd
  simp only [generate, hd, he, Run.structural_ok_bind]
  simp only [h.name_eq, h.alternatives_perm.length_eq, h.unify_eq, h.planner_eq hwf,
    h.collisionEvents_eq, h.checkAmbiguity_eq, h.naming_eq, h.emit_eq hwf]

theorem analyze_eq_of_reorders (hd : description.build = .ok d) (he : other.build = .ok e)
    (h : e.Reorders d) (options : Options) :
    analyze other options = analyze description options := by
  have hwf := Description.build_wellFormed hd
  simp only [analyze, hd, he, Run.structural_ok_bind]
  simp only [h.name_eq, h.unify_eq, h.planner_eq hwf, h.collisionEvents_eq, h.checkAmbiguity_eq,
    h.naming_eq]

end Runs

/-- For every description and every other order of its alternatives: one has a definition iff the
other has, and then the generation of the adapter is the same for both, whatever the skeleton and
the options, and so is the analysis: the same events, and the same adapter, report or failure. -/
theorem declaration_order_irrelevant (description : Description)
    {reordered : List AlternativeDescription} (h : reordered.Perm description.alternatives) :
    ((∃ d, description.build = .ok d) ↔
      ∃ e, ({ description with alternatives := reordered } : Description).build = .ok e) ∧
    ((∃ d, description.build = .ok d) → ∀ options : Options,
      (∀ t, generate { description with alternatives := reordered } t options =
        generate description t options) ∧
      analyze { description with alternatives := reordered } options =
        analyze description options) := by
  refine ⟨⟨?_, ?_⟩, ?_⟩
  · rintro ⟨d, hd⟩
    obtain ⟨e, he, -⟩ := Description.build_reordered h hd
    exact ⟨e, he⟩
  · rintro ⟨e, he⟩
    obtain ⟨d, hd, -⟩ := Description.build_reordered h.symm he
    exact ⟨d, hd⟩
  · rintro ⟨d, hd⟩ options
    obtain ⟨e, he, hreorders⟩ := Description.build_reordered h hd
    exact ⟨fun t => generate_eq_of_reorders hd he hreorders t options,
      analyze_eq_of_reorders hd he hreorders options⟩

theorem declaration_order_overlapping :
    overlapping.alternatives.reverse.Perm overlapping.alternatives ∧
      overlapping.build = .ok overlappingDefinition ∧
      generate { overlapping with alternatives := overlapping.alternatives.reverse }
          ⟨[.slot .getPropertyBody, .slot .instantiateBody]⟩ ⟨true, none, true⟩ =
        generate overlapping ⟨[.slot .getPropertyBody, .slot .instantiateBody]⟩
          ⟨true, none, true⟩ := by
  have hperm := List.reverse_perm overlapping.alternatives
  have hsame := (declaration_order_irrelevant overlapping hperm).2 ⟨_, overlapping_build⟩
  exact ⟨hperm, overlapping_build, (hsame ⟨true, none, true⟩).1 _⟩

end WideRow
