import WideRow.Adapter.Cascade
import WideRow.Adapter.Naming
import WideRow.Adapter.Template
import WideRow.Planner

/-!
# Emission of adapters

The three pieces of an adapter that depend on its sum type: the declarations of the row type, the
body that gives the property at an index, and the body that instantiates a row. Both bodies try the
alternatives in the order of the planner, so an adapter makes the choices of the planner and refuses
the rows that it refuses.

Main definitions:
* `embeddableContent`, `propertyCascade`, `instantiateCascade`: the pieces;
* `emit`: the source of an adapter.
-/

namespace WideRow

/-! ## Pattern variables -/

/-- Names that a pattern variable must not have: words that are reserved in some places, and the
parameters of the two methods. -/
def avoidedNames : List String := ["var", "yield", "record", "component", "index", "values"]

/-- The name with its first letter in lower case. A name without letters is `value`. -/
def decapitalized : List Char → String
  | [] => "value"
  | c :: rest => String.ofList (Text.lowercase c ++ rest)

/-- The pattern variable for an alternative: its simple name, decapitalized, with an underscore if
that is not a name to use. -/
def localName (alternative : String) : String :=
  let name := decapitalized (Name.simpleName alternative).toList
  if Name.isReserved name || avoidedNames.contains name then name ++ "_" else name

/-! ## The row type -/

/-- The declaration of a field. A field that no row lacks may be marked as not nullable. -/
def fieldDeclaration (common : FieldSet) (nonNullHints : Bool) (f : Field) : String :=
  let hint := if nonNullHints && f ∈ common then "@Column(nullable = false) " else ""
  hint ++ f.type.text ++ " " ++ f.name ++ ";"

/-- The declarations of the row type, one for each column. -/
def embeddableContent (u : Unified) (nonNullHints : Bool) : Lines :=
  Lines.empty.writeAll (fun w f => w.line (fieldDeclaration u.common nonNullHints f))
    u.schema.fields.toList

/-! ## The property at an index -/

/-- The branch for components of one alternative. -/
def propertyBranch (c : Candidate) : Branch :=
  let binding := localName c.name
  let cases := c.slotsByPosition.map fun slot => AccessCase.mk slot.2 slot.1.name
  { test := .isInstance c.name binding
    guards := []
    final := if cases.isEmpty then .returnNull else .returnSwitch binding cases }

/-- The body that gives the property of a component at an index. -/
def propertyCascade (p : Planner) : Cascade := ⟨p.order.map propertyBranch, .componentClass⟩

/-! ## The instance of a row -/

/-- The guard of a candidate against a rival. -/
def rivalGuard (c : Candidate) (rival : Candidate × List (Field × Nat)) : Guard :=
  ⟨rival.2.map CellRead.of, "Ambiguous row: " ++ c.name ++ ", " ++ rival.1.name⟩

/-- The branch for rows that populate a candidate, given the later ones: it throws if others occupy
the same positions, and otherwise constructs, unless the row also populates a rival. -/
def instantiateBranch (p : Planner) (c : Candidate) (later : List Candidate) : Branch :=
  let test := BranchTest.populated (c.slotsByPosition.map CellRead.of)
  let ties := p.tiesOf c
  if 1 < ties.length then
    let names := String.intercalate ", " (ties.map (·.name))
    ⟨test, [], .throw (.message ("Ambiguous alternatives: " ++ names))⟩
  else
    ⟨test, (c.rivals later).map (rivalGuard c), .returnNew c.name (c.slots.map CellRead.of)⟩

/-- Whether it throws or constructs, a branch tests the cells of its candidate. -/
theorem instantiateBranch_test (p : Planner) (c : Candidate) (later : List Candidate) :
    (instantiateBranch p c later).test = .populated (c.slotsByPosition.map CellRead.of) := by
  unfold instantiateBranch
  dsimp only
  split <;> rfl

/-- The branches for a list of candidates, each with those after it. -/
def instantiateBranches (p : Planner) : List Candidate → List Branch
  | [] => []
  | c :: later => instantiateBranch p c later :: instantiateBranches p later

theorem exists_of_mem_instantiateBranches {p : Planner} {cs : List Candidate} {b : Branch}
    (h : b ∈ instantiateBranches p cs) :
    ∃ c later, c :: later ⊆ cs ∧ b = instantiateBranch p c later := by
  induction cs with
  | nil => cases h
  | cons c later ih =>
    rw [instantiateBranches, List.mem_cons] at h
    rcases h with rfl | h
    · exact ⟨c, later, List.Subset.refl _, rfl⟩
    · obtain ⟨c', later', hsub, rfl⟩ := ih h
      exact ⟨c', later', fun _ hc => List.mem_cons_of_mem c (hsub hc), rfl⟩

/-- The body that instantiates a row. -/
def instantiateCascade (p : Planner) : Cascade :=
  ⟨instantiateBranches p p.order, .message "Unknown alternative"⟩

/-! ## The source -/

/-- The values of all slots of a skeleton, with the bodies indented to their places. -/
def slotValues (d : Definition) (u : Unified) (n : Naming) (t : Template) (nonNullHints : Bool) :
    SlotValues :=
  let p := Planner.of d u.schema
  { name := n.adapter
    package := n.package
    sumType := n.sumType
    embeddableType := n.embeddable
    embeddableTypeContent :=
      (embeddableContent u nonNullHints).textAt (t.columnOf .embeddableTypeContent)
    getPropertyBody := (propertyCascade p).write.textAt (t.columnOf .getPropertyBody)
    instantiateBody := (instantiateCascade p).write.textAt (t.columnOf .instantiateBody) }

/-- The source of an adapter. -/
def emit (d : Definition) (u : Unified) (n : Naming) (t : Template) (nonNullHints : Bool) :
    String :=
  t.render (slotValues d u n t nonNullHints)

end WideRow
