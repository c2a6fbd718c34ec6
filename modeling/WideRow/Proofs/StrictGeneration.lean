import WideRow.Generation
import WideRow.Proofs.Pairs

/-!
# Generation that denies ambiguity

If alternatives that cannot be told apart are denied, then an adapter is generated just for the sum
types whose instances are all read back from their rows. What the search for pairs says of a
definition is thus what laying out and reading back say of all its instances. Denying changes nothing
else: the adapter is the same, and the failure comes before any other that follows from the
definition.

Results:
* `generate_outcome`: the outcome of a generation stage by stage;
* `Definition.WellFormed.readsBack_iff`: instances are read back iff all field sets differ;
* `strict_generation_iff`: what is generated if ambiguity is denied.
-/

namespace WideRow

open Json

/-! ## Outcomes of runs -/

namespace Run

variable {α β : Type}

@[simp] theorem outcome_pure (a : α) : (Pure.pure a : Run α).outcome = .ok a := rfl

@[simp] theorem outcome_bind (r : Run α) (f : α → Run β) :
    (r >>= f).outcome = r.outcome >>= fun a => (f a).outcome := by
  show (bind r f).outcome = _
  rw [bind]
  cases r.outcome <;> rfl

@[simp] theorem outcome_record (events : List Event) : (record events).outcome = .ok () := rfl

@[simp] theorem outcome_structural (outcome : Except StructuralError α) :
    (structural outcome).outcome = outcome.mapError .structural := rfl

/-- A run goes on with what has been built. -/
theorem structural_ok_bind (a : α) (f : α → Run β) : (structural (.ok a) >>= f) = f a := rfl

end Run

/-- The adapter of a definition, after all that could deny it. -/
def Definition.adapter (d : Definition) (t : Template) (options : Options) :
    Except GenerateError Adapter := do
  let n ← (Naming.of? d options.package).mapError .structural
  return {
    sumType := d.name
    package := n.package
    typeName := n.adapter
    relativePath := n.relativePath
    source := emit d d.unify n t options.nonNullHints }

/-- A generation builds the definition, looks for pairs that are to be denied, and then makes the
adapter. -/
theorem generate_outcome (description : Description) (t : Template) (options : Options) :
    (generate description t options).outcome = (do
      let d ← description.build.mapError .structural
      let _ ← (checkAmbiguity d d.planner options.denyAmbiguous).outcome
      d.adapter t options) := by
  simp only [generate, Run.outcome_bind, Run.outcome_structural, Run.outcome_record,
    Run.outcome_pure]
  rfl

/-- Pairs are denied only if they are found and denying is asked for. -/
theorem outcome_checkAmbiguity (d : Definition) (p : Planner) (deny : Bool) :
    (checkAmbiguity d p deny).outcome =
      if deny ∧ p.ambiguousPairs ≠ [] then .error (.ambiguousAlternatives d.name p.ambiguousPairs)
      else .ok p.ambiguousPairs := by
  rw [checkAmbiguity]
  by_cases hdeny : deny = true <;> by_cases hpairs : p.ambiguousPairs = [] <;>
    simp [hdeny, hpairs]

/-! ## Reading back -/

/-- Two instances have the same alternative and under each name the same value, in whatever order
their fields are given. -/
def Instance.Agrees (i j : Instance) : Prop :=
  i.alternative = j.alternative ∧ ∀ name, i.fields.get? name = j.fields.get? name

namespace Definition

/-- Every instance that has a value for each field of its alternative, and no other field, is read
back from its row. -/
def ReadsBack (d : Definition) : Prop :=
  ∀ a ∈ d.alternatives, ∀ i : Instance, (i.fields.map Prod.fst).Nodup → i.BelongsTo a → i.Fills a →
    ∃ row j, d.planner.project i = .ok row ∧ d.planner.reconstruct row = .ok j ∧ j.Agrees i

variable {d : Definition}

theorem WellFormed.readsBack (h : d.WellFormed) (hdistinct : d.DistinctFieldSets) :
    d.ReadsBack := by
  intro a ha i _ hi hfull
  have halone : ∀ b ∈ d.alternatives, b.fieldSet = a.fieldSet → b = a :=
    fun b hb => h.distinctFieldSets_iff.1 hdistinct b hb a ha
  refine ⟨_, _, h.project_eq_ok ha hi, h.reconstruct_rowOver ha hfull halone, hi.1.symm, ?_⟩
  exact hfull.get?_valueOf hi (h.alternative_wellFormed a ha)

/-- An alternative whose field set is shared has an instance that is not read back. -/
theorem WellFormed.distinctFieldSets_of_readsBack (h : d.WellFormed) (hback : d.ReadsBack) :
    d.DistinctFieldSets := by
  refine h.distinctFieldSets_iff.2 fun a ha b hb heq => by_contra fun hne => ?_
  have hwf := h.alternative_wellFormed a ha
  have hkeys : (a.filled.fields.map Prod.fst).Nodup := a.keys_filled ▸ hwf.fieldNames_nodup
  obtain ⟨row, j, hrow, hj, -⟩ := hback a ha a.filled hkeys a.filled_belongsTo hwf.filled_fills
  have hshared := h.resolve_rowOver_of_shared ha hwf.filled_fills hb (Ne.symm hne) heq.symm
  rw [h.project_eq_ok ha a.filled_belongsTo, Except.ok.injEq] at hrow
  rw [← hrow, Planner.reconstruct_eq_error_iff.2 hshared] at hj
  cases hj

theorem WellFormed.readsBack_iff (h : d.WellFormed) : d.ReadsBack ↔ d.DistinctFieldSets :=
  ⟨h.distinctFieldSets_of_readsBack, h.readsBack⟩

end Definition

/-! ## Denying -/

namespace Options

/-- The options with ambiguity denied. -/
def strict (options : Options) : Options := { options with denyAmbiguous := true }

/-- The options with ambiguity allowed. -/
def lenient (options : Options) : Options := { options with denyAmbiguous := false }

end Options

section Denying

variable {description : Description} {d : Definition} (t : Template) (options : Options)

theorem generate_of_built (h : description.build = .ok d) :
    (generate description t options).outcome =
      (checkAmbiguity d d.planner options.denyAmbiguous).outcome >>=
        fun _ => d.adapter t options := by
  rw [generate_outcome, h]
  rfl

/-- Without denying, the outcome is the adapter of the definition. -/
theorem generate_lenient (h : description.build = .ok d) :
    (generate description t options.lenient).outcome = d.adapter t options := by
  rw [generate_of_built t _ h, outcome_checkAmbiguity, if_neg fun hdenied => by cases hdenied.1]
  rfl

/-- If no pair is found, denying changes nothing. -/
theorem generate_strict_of_nil (h : description.build = .ok d)
    (hpairs : d.planner.ambiguousPairs = []) :
    (generate description t options.strict).outcome = d.adapter t options := by
  rw [generate_of_built t _ h, outcome_checkAmbiguity, if_neg fun hdenied => hdenied.2 hpairs]
  rfl

/-- Pairs that are found are denied before anything is named. -/
theorem generate_strict_of_ne_nil (h : description.build = .ok d)
    (hpairs : d.planner.ambiguousPairs ≠ []) :
    (generate description t options.strict).outcome =
      .error (.ambiguousAlternatives d.name d.planner.ambiguousPairs) := by
  rw [generate_of_built t _ h, outcome_checkAmbiguity, if_pos ⟨rfl, hpairs⟩]
  rfl

/-- A description without a definition has no adapter. -/
theorem generate_of_error {e : StructuralError} (h : description.build = .error e) :
    (generate description t options).outcome = .error (.structural e) := by
  rw [generate_outcome, h]
  rfl

end Denying

/-- For every description, skeleton and options: with ambiguity denied, an adapter is generated iff
the same adapter is generated without denying and all instances of the definition with a value for
every field are read back from their rows. A definition with such an instance that is not read back
is denied for its ambiguous pairs, whatever else is wrong with it. -/
theorem strict_generation_iff (description : Description) (t : Template) (options : Options) :
    (∀ adapter, (generate description t options.strict).outcome = .ok adapter ↔
      (generate description t options.lenient).outcome = .ok adapter ∧
        ∀ d, description.build = .ok d → d.ReadsBack) ∧
    (∀ d, description.build = .ok d → ¬ d.ReadsBack →
      (generate description t options.strict).outcome =
        .error (.ambiguousAlternatives d.name d.planner.ambiguousPairs)) := by
  cases hbuild : description.build with
  | error e =>
    refine ⟨fun adapter => ?_, fun d hd => by cases hd⟩
    rw [generate_of_error t _ hbuild, generate_of_error t _ hbuild]
    exact ⟨fun h => (by cases h), fun h => (by cases h.1)⟩
  | ok d =>
    have hwf := Description.build_wellFormed hbuild
    have hpairs := hwf.readsBack_iff.trans hwf.ambiguousPairs_eq_nil_iff.symm
    simp only [Except.ok.injEq, forall_eq']
    refine ⟨fun adapter => ?_, fun hnot => ?_⟩
    · rw [generate_lenient t options hbuild]
      by_cases hback : d.ReadsBack
      · rw [generate_strict_of_nil t options hbuild (hpairs.1 hback), and_iff_left hback]
      · rw [generate_strict_of_ne_nil t options hbuild fun e => hback (hpairs.2 e)]
        exact ⟨fun h => (by cases h), fun h => absurd h.2 hback⟩
    · exact generate_strict_of_ne_nil t options hbuild fun e => hnot (hpairs.2 e)

/-- A length in metres or in feet. -/
def lengths : Description :=
  { name := "a.Length", package := none, closed := true
    alternatives :=
      [⟨"a.Length.Feet", .record [⟨"v", "double"⟩]⟩,
        ⟨"a.Length.Meters", .record [⟨"v", "double"⟩]⟩] }

/-- The definition of a length. -/
def lengthsDefinition : Definition :=
  ⟨"a.Length", none,
    [⟨"a.Length.Feet", [.of "v" "double"]⟩, ⟨"a.Length.Meters", [.of "v" "double"]⟩]⟩

theorem lengths_build : lengths.build = .ok lengthsDefinition := by
  decide

theorem lengths_ambiguousPairs :
    lengthsDefinition.planner.ambiguousPairs = [("a.Length.Feet", "a.Length.Meters")] := by
  rw [Planner.ambiguousPairs, Definition.order_eq_of_pairwise (by decide)]
  decide

theorem strict_generation_lengths :
    lengths.build = .ok lengthsDefinition ∧ ¬ lengthsDefinition.ReadsBack ∧
      (generate lengths ⟨[.slot .instantiateBody]⟩ ⟨false, none, true⟩).outcome =
        .error (.ambiguousAlternatives "a.Length" [("a.Length.Feet", "a.Length.Meters")]) := by
  have hnot : ¬ lengthsDefinition.ReadsBack := by
    rw [(Description.build_wellFormed lengths_build).readsBack_iff]
    decide
  refine ⟨lengths_build, hnot, ?_⟩
  rw [← lengths_ambiguousPairs]
  exact (strict_generation_iff lengths ⟨[.slot .instantiateBody]⟩ ⟨false, none, false⟩).2
    lengthsDefinition lengths_build hnot

end WideRow
