import Mathlib.Tactic.SplitIfs
import WideRow.Adapter.Emission
import WideRow.Proofs.Adapter.Statements
import WideRow.Proofs.Candidates

/-!
# The expressions in the bodies of an adapter

Which expressions the statements of a cascade consist of, wherever they stand. In the body that
gives a property, every switch is over the slots of one candidate. In the body that instantiates a
row, nothing is called but what reads the cell of a slot.

Main definitions:
* `Java.HasCase`, `Java.branchTests`: the cases of the switches, the conditions of the branches.

Results:
* `mem_partsOfBlock_branchStatements`: the expressions in a cascade are those in its branches;
* `choose_mem_propertyBranches`, `hasCase_propertyBranches_iff`: the switches and their cases;
* `exists_slot_of_call_mem_instantiateBranch`: what is called;
* `branchTests_instantiateBranches`: what is tested.
-/

namespace WideRow

open Java

/-! ## Parts of statements -/

namespace Java

/-- A switch in the statements has a case with the label and the expression. -/
def HasCase (body : List Statement) (label : Nat) (e : Expression) : Prop :=
  ∃ subject cases otherwise,
    Expression.choose subject cases otherwise ∈ partsOfBlock body ∧ (label, e) ∈ cases

/-- The conditions of branches of which each stands in the `else` of the one before. -/
def branchTests : List Statement → List Expression
  | [.conditional test _ otherwise] => test :: branchTests otherwise
  | _ => []

end Java

/-! ## Parts of cascades -/

/-- The expressions in a branch: in its test, in its guards and in its last statement. -/
def Branch.parts (b : Branch) : List Expression :=
  b.test.asExpression.parts ++ b.guards.flatMap (·.asStatement.parts) ++ b.final.asStatement.parts

section Cascades

variable {otherwise : Thrown} {branches : List Branch}

theorem branchStatements_cons (otherwise : Thrown) (b : Branch) (branches : List Branch) :
    branchStatements otherwise (b :: branches) =
      [b.asStatement (branchStatements otherwise branches)] := rfl

/-- The expressions in a cascade are those in its branches and in the last error. -/
theorem mem_partsOfBlock_branchStatements {e : Expression} :
    e ∈ partsOfBlock (branchStatements otherwise branches) ↔
      (∃ b ∈ branches, e ∈ b.parts) ∨ e ∈ otherwise.asStatement.parts := by
  induction branches with
  | nil => simp [branchStatements, partsOfBlock]
  | cons b rest ih =>
    have hbody : e ∈ partsOfBlock (b.guards.map Guard.asStatement ++ [b.final.asStatement]) ↔
        e ∈ b.guards.flatMap (·.asStatement.parts) ∨ e ∈ b.final.asStatement.parts := by
      simp [mem_partsOfBlock, or_and_right, exists_or]
    rw [List.exists_mem_cons_iff, or_assoc, ← ih, branchStatements_cons, partsOfBlock, partsOfBlock,
      List.append_nil, Branch.asStatement, Statement.parts, List.mem_append, List.mem_append, hbody,
      Branch.parts, List.mem_append, List.mem_append]
    simp only [or_assoc]

theorem branchTests_branchStatements (otherwise : Thrown) (branches : List Branch) :
    branchTests (branchStatements otherwise branches) =
      branches.map (·.test.asExpression) := by
  induction branches with
  | nil => simp [branchStatements, Thrown.asStatement, branchTests]
  | cons b rest ih =>
    rw [branchStatements_cons, Branch.asStatement, branchTests, ih, List.map_cons]

end Cascades

/-! ## The cases of the property -/

/-- The switch of a branch is over the slots of its candidate. -/
theorem choose_mem_propertyBranch {c : Candidate} {subject otherwise : Expression}
    {cases : List (Nat × Expression)} :
    .choose subject cases otherwise ∈ (propertyBranch c).parts ↔
      c.slotsByPosition ≠ [] ∧ subject = .name "index" ∧
        cases = c.slotsByPosition.map (fun slot =>
          (slot.2, .call (.name (localName c.name)) slot.1.name [])) ∧ otherwise = .null := by
  -- the cases of a switch are calls on names, so no switch stands in them
  have hcases : .choose subject cases otherwise ∉ partsOfCases (c.slotsByPosition.map fun slot =>
      (slot.2, .call (.name (localName c.name)) slot.1.name [])) := by
    simp [mem_partsOfCases, Expression.parts, partsOfAll]
  unfold Branch.parts propertyBranch
  dsimp only
  split_ifs with hempty
  · have hnil : c.slotsByPosition = [] := by simpa using hempty
    simp [hnil, BranchTest.asExpression, Final.asStatement, Statement.parts, Expression.parts]
  · have hne : c.slotsByPosition ≠ [] := by simpa using hempty
    simp [hne, hcases, BranchTest.asExpression, Final.asStatement, Statement.parts,
      Expression.parts, AccessCase.asExpression, Function.comp_def]

/-- Every switch stands in a branch. -/
theorem choose_mem_propertyBranches {cs : List Candidate} {subject otherwise : Expression}
    {cases : List (Nat × Expression)} :
    .choose subject cases otherwise ∈
        partsOfBlock (branchStatements .componentClass (cs.map propertyBranch)) ↔
      ∃ c ∈ cs, .choose subject cases otherwise ∈ (propertyBranch c).parts := by
  have hthrow : .choose subject cases otherwise ∉ Thrown.componentClass.asStatement.parts := by
    simp [Thrown.asStatement, Thrown.asExpression, Statement.parts, Expression.parts, partsOfAll]
  rw [mem_partsOfBlock_branchStatements, or_iff_left hthrow]
  simp only [List.mem_map, exists_exists_and_eq_and]

/-- The cases of the switches are the slots of the candidates. -/
theorem hasCase_propertyBranches_iff {cs : List Candidate} {k : Nat} {e : Expression} :
    HasCase (branchStatements .componentClass (cs.map propertyBranch)) k e ↔
      ∃ c ∈ cs, ∃ f, (f, k) ∈ c.slots ∧ e = .call (.name (localName c.name)) f.name [] := by
  constructor
  · rintro ⟨subject, cases, otherwise, hchoose, hmem⟩
    obtain ⟨c, hc, hchoose⟩ := choose_mem_propertyBranches.1 hchoose
    obtain ⟨-, -, rfl, -⟩ := choose_mem_propertyBranch.1 hchoose
    obtain ⟨⟨f, k'⟩, hslot, heq⟩ := List.mem_map.1 hmem
    cases heq
    exact ⟨c, hc, f, Candidate.mem_slotsByPosition.1 hslot, rfl⟩
  · rintro ⟨c, hc, f, hslot, rfl⟩
    rw [← Candidate.mem_slotsByPosition] at hslot
    have hchoose := choose_mem_propertyBranch.2 ⟨List.ne_nil_of_mem hslot, rfl, rfl, rfl⟩
    exact ⟨_, _, _, choose_mem_propertyBranches.2 ⟨c, hc, hchoose⟩,
      List.mem_map.2 ⟨(f, k), hslot, rfl⟩⟩

/-! ## The cells of the instantiation -/

section Calls

variable {receiver : Expression} {method : String} {arguments : List Expression}

theorem call_mem_cell {r : CellRead} :
    .call receiver method arguments ∈ r.asExpression.parts ↔
      .call receiver method arguments = r.asExpression := by
  simp [CellRead.asExpression, Expression.parts, partsOfAll]

theorem call_mem_foldl_both {e : Expression} {cells : List CellRead} :
    .call receiver method arguments ∈
        ((cells.map CellRead.isPresent).foldl .both e).parts ↔
      .call receiver method arguments ∈ e.parts ∨
        ∃ r ∈ cells, .call receiver method arguments = r.asExpression := by
  induction cells generalizing e with
  | nil => simp
  | cons r cells ih =>
    rw [List.map_cons, List.foldl_cons, ih, List.exists_mem_cons_iff, ← or_assoc]
    simp [Expression.parts, CellRead.isPresent, call_mem_cell]

/-- What is called in a condition is the reading of its cells. -/
theorem call_mem_populatedExpression {cells : List CellRead} :
    .call receiver method arguments ∈ (populatedExpression cells).parts ↔
      ∃ r ∈ cells, .call receiver method arguments = r.asExpression := by
  cases cells with
  | nil => simp [populatedExpression, Expression.parts]
  | cons r cells =>
    rw [populatedExpression, call_mem_foldl_both, List.exists_mem_cons_iff]
    simp [Expression.parts, CellRead.isPresent, call_mem_cell]

theorem call_notMem_message (text : String) :
    .call receiver method arguments ∉ (Thrown.message text).asStatement.parts := by
  simp [Thrown.asStatement, Thrown.asExpression, Statement.parts, Expression.parts, partsOfAll]

theorem call_mem_guard {g : Guard} :
    .call receiver method arguments ∈ g.asStatement.parts ↔
      ∃ r ∈ g.cells, .call receiver method arguments = r.asExpression := by
  rw [Guard.asStatement, Statement.parts, List.mem_append, List.mem_append,
    call_mem_populatedExpression]
  simp [partsOfBlock, call_notMem_message]

theorem call_mem_returnNew {className : String} {cells : List CellRead} :
    .call receiver method arguments ∈ (Final.returnNew className cells).asStatement.parts ↔
      ∃ r ∈ cells, .call receiver method arguments = r.asExpression := by
  rw [Final.asStatement, Statement.parts, Expression.parts, List.mem_cons, mem_partsOfAll]
  simp [call_mem_cell]

/-- All that is called in the branch of a candidate reads the cell of a slot, of the candidate or of
a later one. -/
theorem exists_slot_of_call_mem_instantiateBranch {p : Planner} {c : Candidate}
    {later : List Candidate}
    (h : .call receiver method arguments ∈ (instantiateBranch p c later).parts) :
    ∃ e ∈ c :: later, ∃ slot ∈ e.slots,
      .call receiver method arguments = (CellRead.of slot).asExpression := by
  have hcells : ∀ e ∈ c :: later, ∀ slots : List (Field × Nat), (∀ slot ∈ slots, slot ∈ e.slots) →
      (∃ r ∈ slots.map CellRead.of, .call receiver method arguments = r.asExpression) →
      ∃ e ∈ c :: later, ∃ slot ∈ e.slots,
        .call receiver method arguments = (CellRead.of slot).asExpression := by
    rintro e he slots hslots ⟨r, hr, hcall⟩
    obtain ⟨slot, hslot, rfl⟩ := List.mem_map.1 hr
    exact ⟨e, he, slot, hslots slot hslot, hcall⟩
  have htest := hcells c List.mem_cons_self c.slotsByPosition fun _ =>
    Candidate.mem_slotsByPosition.1
  unfold Branch.parts instantiateBranch at h
  dsimp only at h
  split_ifs at h
  · rw [List.flatMap_nil, List.append_nil, List.mem_append] at h
    rcases h with h | h
    · exact htest (call_mem_populatedExpression.1 h)
    · exact absurd h (call_notMem_message _)
  · rw [List.mem_append, List.mem_append, List.mem_flatMap] at h
    rcases h with (h | ⟨g, hg, h⟩) | h
    · exact htest (call_mem_populatedExpression.1 h)
    · obtain ⟨rival, hrival, rfl⟩ := List.mem_map.1 hg
      obtain ⟨e, he, rfl⟩ := Candidate.exists_of_mem_rivals hrival
      exact hcells e (List.mem_cons_of_mem c he) _ (fun _ => Candidate.mem_slots_of_mem_beyond)
        (call_mem_guard.1 h)
    · exact hcells c List.mem_cons_self _ (fun _ => id) (call_mem_returnNew.1 h)

end Calls

/-- The branches test the cells of one candidate after the other. -/
theorem branchTests_instantiateBranches (otherwise : Thrown) (p : Planner) (cs : List Candidate) :
    branchTests (branchStatements otherwise (instantiateBranches p cs)) =
      cs.map fun c => populatedExpression (c.slotsByPosition.map CellRead.of) := by
  rw [branchTests_branchStatements]
  induction cs with
  | nil => rfl
  | cons c later ih =>
    rw [instantiateBranches, List.map_cons, List.map_cons, instantiateBranch_test, ih,
      BranchTest.asExpression]

end WideRow
