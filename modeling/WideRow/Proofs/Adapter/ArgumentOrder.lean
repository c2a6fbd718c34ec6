import WideRow.Proofs.Adapter.ColumnAgreement
import WideRow.Proofs.FieldOrder

/-!
# The order of arguments

The constructor of an alternative takes its fields in the order of declaration, and this is the only
place of an adapter where that order is seen. Conditions, guards and cases stand in the order of
positions, so the texts of definitions that differ in the order of fields only are the same line by
line, apart from the lines of the arguments between `return new N(` and `);`, which are the same in
another order.

Main definitions:
* `Cascade.PermutesArguments`: cascades that differ in the order of arguments only;
* `SameButArguments`: lines that do.

Results:
* `Cascade.PermutesArguments.write`: the lines of such cascades are the same but for arguments;
* `instantiateCascade_permutes`: planners of one sorted form have such cascades;
* `field_order_irrelevant`: what the order of fields does not change, and what it does.
-/

namespace WideRow

/-! ## Cascades -/

/-- The last statements are the same, or construct the same with the arguments in another order. -/
inductive Final.PermutesArguments : Final → Final → Prop
  | same (f : Final) : PermutesArguments f f
  | call (className : String) {arguments others : List CellRead} (h : arguments.Perm others) :
    PermutesArguments (.returnNew className arguments) (.returnNew className others)

theorem Final.PermutesArguments.symm {f g : Final} (h : f.PermutesArguments g) :
    g.PermutesArguments f := by
  cases h with
  | same => exact .same _
  | call className h => exact .call className h.symm

theorem Final.PermutesArguments.trans {f g k : Final} (h : f.PermutesArguments g)
    (h' : g.PermutesArguments k) : f.PermutesArguments k := by
  cases h with
  | same => exact h'
  | call className h =>
    cases h' with
    | same => exact .call className h
    | call _ h' => exact .call className (h.trans h')

/-- The branches differ at most in the order of the arguments of their last statements. -/
structure Branch.PermutesArguments (b c : Branch) : Prop where
  test_eq : b.test = c.test
  guards_eq : b.guards = c.guards
  final_permutes : b.final.PermutesArguments c.final

theorem Branch.PermutesArguments.symm {b c : Branch} (h : b.PermutesArguments c) :
    c.PermutesArguments b :=
  ⟨h.test_eq.symm, h.guards_eq.symm, h.final_permutes.symm⟩

theorem Branch.PermutesArguments.trans {b c d : Branch} (h : b.PermutesArguments c)
    (h' : c.PermutesArguments d) : b.PermutesArguments d :=
  ⟨h.test_eq.trans h'.test_eq, h.guards_eq.trans h'.guards_eq,
    h.final_permutes.trans h'.final_permutes⟩

/-- The cascades differ at most in the order of arguments. -/
structure Cascade.PermutesArguments (c d : Cascade) : Prop where
  branches_permute : List.Forall₂ Branch.PermutesArguments c.branches d.branches
  otherwise_eq : c.otherwise = d.otherwise

/-! ## Lines -/

/-- The lines of a call that constructs: each argument has a line of its own. -/
def callLines (depth : Nat) (className : String) (arguments : List CellRead) : List String :=
  Lines.lineAt depth ("return new " ++ className ++ "(") ::
    ((argumentLines arguments).map (Lines.lineAt (depth + 2)) ++ [Lines.lineAt depth ");"])

/-- The lines are the same, except that calls may have their arguments in another order. -/
inductive SameButArguments : List String → List String → Prop
  | nil : SameButArguments [] []
  | line (text : String) {l m : List String} (h : SameButArguments l m) :
    SameButArguments (text :: l) (text :: m)
  | call (depth : Nat) (className : String) {arguments others : List CellRead} {l m : List String}
    (hperm : arguments.Perm others) (h : SameButArguments l m) :
    SameButArguments (callLines depth className arguments ++ l)
      (callLines depth className others ++ m)

namespace SameButArguments

variable {l m l' m' : List String}

theorem append (h : SameButArguments l m) (h' : SameButArguments l' m') :
    SameButArguments (l ++ l') (m ++ m') := by
  induction h with
  | nil => exact h'
  | line text _ ih => exact ih.line text
  | call depth className hperm _ ih =>
    rw [List.append_assoc, List.append_assoc]
    exact ih.call depth className hperm

theorem concat (h : SameButArguments l m) (text : String) :
    SameButArguments (l ++ [text]) (m ++ [text]) :=
  h.append (.line text .nil)

end SameButArguments

namespace Lines

/-- The lines are the same but for arguments, and go on at the same depth. -/
structure Matches (w v : Lines) : Prop where
  depth_eq : w.depth = v.depth
  lines_same : SameButArguments w.lines.toList v.lines.toList

namespace Matches

variable {w v : Lines}

theorem line (h : w.Matches v) (text : String) : (w.line text).Matches (v.line text) := by
  refine ⟨h.depth_eq, ?_⟩
  rw [toList_line, toList_line, h.depth_eq]
  exact h.lines_same.concat _

theorem indent (h : w.Matches v) : w.indent.Matches v.indent :=
  ⟨congrArg (· + 1) h.depth_eq, h.lines_same⟩

theorem dedent (h : w.Matches v) : w.dedent.Matches v.dedent :=
  ⟨congrArg (· - 1) h.depth_eq, h.lines_same⟩

theorem writeAll {α : Type} {r : α → α → Prop} {write : Lines → α → Lines} {items others : List α}
    (hwrite : ∀ {w v : Lines} {a b : α}, w.Matches v → r a b → (write w a).Matches (write v b))
    (hitems : List.Forall₂ r items others) (h : w.Matches v) :
    (w.writeAll write items).Matches (v.writeAll write others) :=
  List.rel_foldl (P := Matches) (R := r) (fun _ _ h _ _ hab => hwrite h hab) h hitems

/-- The same items are written in the same way. -/
theorem writeAll_same {α : Type} {write : Lines → α → Lines}
    (hwrite : ∀ {w v : Lines} (a : α), w.Matches v → (write w a).Matches (write v a))
    (items : List α) (h : w.Matches v) :
    (w.writeAll write items).Matches (v.writeAll write items) :=
  h.writeAll (r := Eq) (fun h hab => hab ▸ hwrite _ h) (List.forall₂_same.2 fun _ _ => rfl)

end Matches

end Lines

/-! ## The lines of a cascade -/

section Writing

variable {w v : Lines}

/-- A call with arguments is written as its lines. -/
theorem Final.write_returnNew (w : Lines) (className : String) {arguments : List CellRead}
    (h : arguments ≠ []) :
    ((Final.returnNew className arguments).write w).lines.toList =
        w.lines.toList ++ callLines w.depth className arguments ∧
      ((Final.returnNew className arguments).write w).depth = w.depth := by
  obtain ⟨r, rest, rfl⟩ := List.exists_cons_of_ne_nil h
  let opened := (w.line ("return new " ++ className ++ "(")).indent.indent
  let written := opened.writeAll Lines.line (argumentLines (r :: rest))
  obtain ⟨hlines, hdepth⟩ := opened.writeAll_line id (argumentLines (r :: rest))
  have hwrite : (Final.returnNew className (r :: rest)).write w =
      written.dedent.dedent.line ");" := rfl
  have hback : written.dedent.dedent.depth = w.depth := congrArg (· - 1 - 1) hdepth
  rw [hwrite, Lines.toList_line, hback]
  refine ⟨?_, hback⟩
  have hopened : opened.lines.toList =
      w.lines.toList ++ [Lines.lineAt w.depth ("return new " ++ className ++ "(")] :=
    w.toList_line _
  have hwritten : written.dedent.dedent.lines.toList = opened.lines.toList ++
      (argumentLines (r :: rest)).map (Lines.lineAt (w.depth + 2)) := hlines
  rw [hwritten, hopened, callLines]
  simp only [List.append_assoc, List.cons_append, List.nil_append]

/-- Calls with the same arguments in another order are written as lines that are the same but for
arguments. -/
theorem Final.write_returnNew_perm (className : String) {arguments others : List CellRead}
    (hperm : arguments.Perm others) (h : w.Matches v) :
    ((Final.returnNew className arguments).write w).Matches
      ((Final.returnNew className others).write v) := by
  by_cases hnil : arguments = []
  · subst hnil
    obtain rfl := hperm.nil_eq
    exact h.line _
  · have hnil' : others ≠ [] := fun e => hnil (e ▸ hperm).eq_nil
    obtain ⟨hlines, hdepth⟩ := Final.write_returnNew w className hnil
    obtain ⟨hlines', hdepth'⟩ := Final.write_returnNew v className hnil'
    refine ⟨hdepth.trans (h.depth_eq.trans hdepth'.symm), ?_⟩
    rw [hlines, hlines', h.depth_eq]
    have hcall := SameButArguments.nil.call v.depth className hperm
    rw [List.append_nil, List.append_nil] at hcall
    exact h.lines_same.append hcall

theorem Final.PermutesArguments.write {f g : Final} (hfg : f.PermutesArguments g)
    (h : w.Matches v) : (f.write w).Matches (g.write v) := by
  cases hfg with
  | call className hperm => exact Final.write_returnNew_perm className hperm h
  | same =>
    cases f with
    | returnNull => exact h.line _
    | returnSwitch binding cases =>
      have hcases := (h.line "return switch (index) \x7b").indent.writeAll_same
        (fun c h => h.line (AccessCase.text binding c)) cases
      exact (hcases.line _).dedent.line _
    | returnNew className arguments => exact Final.write_returnNew_perm className (.refl _) h
    | throw thrown => exact h.line _

theorem Guard.write_matches (g : Guard) (h : w.Matches v) :
    (Guard.write w g).Matches (Guard.write v g) :=
  ((((h.line _).indent).line _).dedent).line _

theorem Branch.PermutesArguments.write {b c : Branch} (hbc : b.PermutesArguments c)
    (keyword : String) (h : w.Matches v) :
    (Branch.write keyword w b).Matches (Branch.write keyword v c) := by
  unfold Branch.write
  rw [hbc.test_eq, hbc.guards_eq]
  exact (hbc.final_permutes.write
    ((h.line _).indent.writeAll_same (fun g => g.write_matches) c.guards)).dedent

theorem Cascade.PermutesArguments.write {c d : Cascade} (hcd : c.PermutesArguments d) :
    SameButArguments c.write.lines.toList d.write.lines.toList := by
  have hempty : Lines.empty.Matches Lines.empty := ⟨rfl, .nil⟩
  obtain ⟨branches, otherwise⟩ := c
  obtain ⟨others, _⟩ := d
  obtain ⟨hbranches, rfl⟩ := hcd
  cases hbranches with
  | nil => exact (hempty.line _).lines_same
  | cons hfirst hrest =>
    have hwritten := (hfirst.write "if" hempty).writeAll (r := Branch.PermutesArguments)
      (fun h hbc => Branch.PermutesArguments.write hbc "\x7d else if" h) hrest
    exact ((((hwritten.line _).indent.line _).dedent).line _).lines_same

end Writing

/-! ## The cascades of a planner -/

/-- The branch that gives a property is the one of the sorted candidate. -/
theorem propertyBranch_sorted (c : Candidate) : propertyBranch c.sorted = propertyBranch c := by
  simp only [propertyBranch, Candidate.slotsByPosition_sorted, Candidate.name_sorted]

theorem propertyCascade_sorted (p : Planner) : propertyCascade p.sorted = propertyCascade p := by
  simp only [propertyCascade, Planner.sorted, List.map_map, Function.comp_def,
    propertyBranch_sorted]

/-- The branch that instantiates rows is the one of the sorted candidate, but for the order of the
arguments. -/
theorem instantiateBranch_permutes (p : Planner) (c : Candidate) (later : List Candidate) :
    (instantiateBranch p.sorted c.sorted (later.map .sorted)).PermutesArguments
      (instantiateBranch p c later) := by
  have hnames : (p.sorted.tiesOf c.sorted).map (·.name) = (p.tiesOf c).map (·.name) := by
    rw [Planner.tiesOf_sorted, List.map_map]
    rfl
  have hlength : (p.sorted.tiesOf c.sorted).length = (p.tiesOf c).length := by
    rw [Planner.tiesOf_sorted, List.length_map]
  have hguards : (c.sorted.rivals (later.map .sorted)).map (rivalGuard c.sorted) =
      (c.rivals later).map (rivalGuard c) := by
    rw [Candidate.rivals_map_sorted, List.map_map]
    rfl
  unfold instantiateBranch
  dsimp only
  rw [hlength, hnames, hguards, Candidate.slotsByPosition_sorted]
  split_ifs
  · exact ⟨rfl, rfl, .same _⟩
  · exact ⟨rfl, rfl, .call _ (c.slotsByPosition_perm.map _)⟩

theorem instantiateBranches_permute {p q : Planner} (hpq : p.sorted = q.sorted)
    {cs ds : List Candidate} (h : cs.map Candidate.sorted = ds.map Candidate.sorted) :
    List.Forall₂ Branch.PermutesArguments (instantiateBranches p cs)
      (instantiateBranches q ds) := by
  induction cs generalizing ds with
  | nil =>
    obtain rfl := List.map_eq_nil_iff.1 h.symm
    exact .nil
  | cons c later ih =>
    cases ds with
    | nil => cases h
    | cons d later' =>
      obtain ⟨hfirst, hlater⟩ := List.cons.inj h
      have hp := instantiateBranch_permutes p c later
      rw [hpq, hfirst, hlater] at hp
      exact .cons (hp.symm.trans (instantiateBranch_permutes q d later')) (ih hlater)

theorem instantiateCascade_permutes {p q : Planner} (h : p.sorted = q.sorted) :
    (instantiateCascade p).PermutesArguments (instantiateCascade q) :=
  ⟨instantiateBranches_permute h (congrArg Planner.order h), rfl⟩

/-! ## Definitions with permuted fields -/

/-- For every definition and every definition that differs from it in the order of fields only: the
schema and the common fields are the same, and so are the candidates in their order, each with its
slots by position, the pairs that cannot be told apart, the row or the failure of every instance,
and the alternative or the failure of every row. The declarations of the row type and the body that
gives a property are the same texts, and the body that instantiates a row has the same lines, but
for the order of the arguments inside each call that constructs. -/
theorem field_order_irrelevant {e d : Definition} (h : e.PermutesFields d) :
    e.schema = d.schema ∧ e.commonFields = d.commonFields ∧
    e.planner.order.map (fun c => (c.name, c.slotsByPosition)) =
      d.planner.order.map (fun c => (c.name, c.slotsByPosition)) ∧
    e.planner.ambiguousPairs = d.planner.ambiguousPairs ∧
    (∀ i, e.planner.project i = d.planner.project i) ∧
    (∀ row, (e.planner.resolve row).map (·.name) = (d.planner.resolve row).map (·.name) ∧
      (e.planner.reconstruct row).map (·.alternative) =
        (d.planner.reconstruct row).map (·.alternative)) ∧
    (∀ nonNullHints,
      embeddableContent e.unify nonNullHints = embeddableContent d.unify nonNullHints) ∧
    (propertyCascade e.planner).write = (propertyCascade d.planner).write ∧
    SameButArguments (instantiateCascade e.planner).write.lines.toList
      (instantiateCascade d.planner).write.lines.toList := by
  refine ⟨h.schema_eq, h.commonFields_eq, h.order_eq, h.ambiguousPairs_eq, h.project_eq,
    fun row => ⟨h.map_name_resolve_eq row, ?_⟩, fun nonNullHints => by rw [h.unify_eq], ?_,
    (instantiateCascade_permutes h.planner_sorted).write⟩
  · rw [Planner.map_alternative_reconstruct, Planner.map_alternative_reconstruct]
    exact h.map_name_resolve_eq row
  · rw [← propertyCascade_sorted, h.planner_sorted, propertyCascade_sorted]

/-- The overlapping alternatives with the fields of two of them in another order. -/
def permutedOverlapping : Definition :=
  ⟨"a.Pick", none,
    [⟨"a.Pick.Right", [.of "z" "int", .of "x" "int"]⟩,
      ⟨"a.Pick.Left", [.of "y" "int", .of "x" "int"]⟩, ⟨"a.Pick.Base", [.of "x" "int"]⟩]⟩

theorem field_order_overlapping :
    permutedOverlapping.PermutesFields overlappingDefinition ∧
      overlapping.build = .ok overlappingDefinition ∧
      (propertyCascade permutedOverlapping.planner).write =
        (propertyCascade overlappingDefinition.planner).write ∧
      SameButArguments (instantiateCascade permutedOverlapping.planner).write.lines.toList
        (instantiateCascade overlappingDefinition.planner).write.lines.toList := by
  have hpermutes : permutedOverlapping.PermutesFields overlappingDefinition := by
    refine ⟨rfl, rfl, ?_⟩
    exact .cons ⟨rfl, by decide⟩ (.cons ⟨rfl, by decide⟩ (.cons ⟨rfl, by decide⟩ .nil))
  obtain ⟨-, -, -, -, -, -, -, hproperty, hinstantiate⟩ := field_order_irrelevant hpermutes
  exact ⟨hpermutes, overlapping_build, hproperty, hinstantiate⟩

end WideRow
