import WideRow.Proofs.Adapter.Readability
import WideRow.Proofs.Java.Evaluation
import WideRow.Proofs.RoundTrip

/-!
# Running the instantiation of a row

The body that instantiates a row tests the candidates in the order of the planner. It looks for ties
before it looks for rivals, and of a rival it tests only the cells beyond the candidate; the planner
does it the other way round and tests the whole rival. Both make the same choice.

Results:
* `eval_populatedExpression`, `execAll_guards`: conditions and guards;
* `execAll_instantiateBranches`: the branches end where the search of the planner ends;
* `Candidate.all_beyond_iff`: the cells beyond a candidate decide about its rival;
* `instantiate_refines_reconstruct`: the body and the planner agree on every row.
-/

namespace WideRow

open Java Json

/-! ## Cells -/

/-- What the body finds in the cell of a row. -/
def Row.datumAt (row : Row) (position : Nat) : Datum :=
  .ofCell position (row.cells[position]?.getD .null)

/-- All of the cells are populated. -/
def Row.populates (row : Row) (cells : List CellRead) : Bool :=
  cells.all fun r => row.isPopulated r.position

/-- The parameter of the method. -/
def rowScope (row : Row) : Scope := [("values", .row row)]

section Conditions

variable {row : Row}

/-- A cell inside the row is read. -/
theorem CellRead.eval_asExpression {r : CellRead} (h : r.position < row.width) :
    r.asExpression.eval (rowScope row) = some (row.datumAt r.position) := by
  have hcell : row.cells[r.position]? = some row.cells[r.position] := List.getElem?_eq_getElem h
  simp [CellRead.asExpression, Expression.eval, evalAll, rowScope, Datum.invoke, Row.datumAt, hcell]

/-- The comparison of a cell with the null reference. -/
theorem CellRead.eval_isPresent {r : CellRead} (h : r.position < row.width) :
    r.isPresent.eval (rowScope row) = some (.truth (row.isPopulated r.position)) := by
  have hnull : ∀ (k : Nat) (v : Value), (Datum.ofCell k v).isNull = v.isNull := by
    intro k v
    rw [Datum.ofCell]
    cases v.isNull <;> rfl
  rw [CellRead.isPresent, Expression.eval, CellRead.eval_asExpression h, Row.isPopulated_eq,
    Row.datumAt, ← hnull r.position]
  rfl

theorem eval_foldl_both {e : Expression} {b : Bool}
    (he : e.eval (rowScope row) = some (.truth b)) {cells : List CellRead}
    (h : ∀ r ∈ cells, r.position < row.width) :
    ((cells.map CellRead.isPresent).foldl .both e).eval (rowScope row) =
      some (.truth (b && row.populates cells)) := by
  induction cells generalizing e b with
  | nil => simpa [Row.populates] using he
  | cons r cells ih =>
    rw [List.forall_mem_cons] at h
    have hboth : (Expression.both e r.isPresent).eval (rowScope row) =
        some (.truth (b && row.isPopulated r.position)) := by
      rw [Expression.eval, he]
      cases b with
      | true => simp [CellRead.eval_isPresent h.1]
      | false => rfl
    rw [List.map_cons, List.foldl_cons, ih hboth h.2, Row.populates, Row.populates, List.all_cons,
      Bool.and_assoc]

/-- The condition holds iff all of the cells are populated. -/
theorem eval_populatedExpression {cells : List CellRead}
    (h : ∀ r ∈ cells, r.position < row.width) :
    (populatedExpression cells).eval (rowScope row) = some (.truth (row.populates cells)) := by
  cases cells with
  | nil => rfl
  | cons r cells =>
    rw [List.forall_mem_cons] at h
    exact eval_foldl_both (CellRead.eval_isPresent h.1) h.2

theorem binding_foldl_both {scope : Scope} {e : Expression} (he : e.binding scope = [])
    (es : List Expression) : (es.foldl .both e).binding scope = [] := by
  induction es generalizing e with
  | nil => exact he
  | cons e' es ih => exact ih rfl

theorem binding_populatedExpression (scope : Scope) (cells : List CellRead) :
    (populatedExpression cells).binding scope = [] := by
  cases cells with
  | nil => rfl
  | cons r cells => exact binding_foldl_both rfl _

end Conditions

/-! ## Statements -/

section Statements

variable {row : Row}

/-- An error with a message. -/
def failure (message : String) : Completion := .thrown "AssertionError" [.text message]

/-- A conditional on cells. -/
theorem exec_conditional {cells : List CellRead} (h : ∀ r ∈ cells, r.position < row.width)
    (body otherwise : List Statement) :
    (Statement.conditional (populatedExpression cells) body otherwise).exec (rowScope row) =
      if row.populates cells then execAll body (rowScope row)
      else execAll otherwise (rowScope row) := by
  rw [Statement.exec, eval_populatedExpression h, binding_populatedExpression, List.nil_append]
  cases row.populates cells <;> rfl

/-- The first guard whose cells are all populated throws. -/
theorem execAll_guards {guards : List Guard}
    (h : ∀ g ∈ guards, ∀ r ∈ g.cells, r.position < row.width) (rest : List Statement) :
    execAll (guards.map Guard.asStatement ++ rest) (rowScope row) =
      match guards.find? fun g => row.populates g.cells with
      | some g => some (failure g.message)
      | none => execAll rest (rowScope row) := by
  induction guards with
  | nil => rfl
  | cons g guards ih =>
    rw [List.forall_mem_cons] at h
    rw [List.map_cons, List.cons_append, execAll, Guard.asStatement, exec_conditional h.1,
      List.find?_cons]
    cases row.populates g.cells with
    | true => rfl
    | false => exact ih h.2

theorem evalAll_cells {cells : List CellRead} (h : ∀ r ∈ cells, r.position < row.width) :
    evalAll (rowScope row) (cells.map CellRead.asExpression) =
      some (cells.map fun r => row.datumAt r.position) := by
  induction cells with
  | nil => rfl
  | cons r cells ih =>
    rw [List.forall_mem_cons] at h
    rw [List.map_cons, evalAll, CellRead.eval_asExpression h.1, ih h.2]
    rfl

/-- A constructor call on cells. -/
theorem exec_returnNew {cells : List CellRead} (h : ∀ r ∈ cells, r.position < row.width)
    (className : String) :
    (Final.returnNew className cells).asStatement.exec (rowScope row) =
      some (.returned (.made className (cells.map fun r => row.datumAt r.position))) := by
  rw [Final.asStatement, Statement.exec, Expression.eval, evalAll_cells h]
  rfl

end Statements

/-! ## Branches -/

namespace Planner

/-- How the body ends once a candidate is found that fits. -/
def completionOf (p : Planner) (row : Row) (winner : Candidate) (later : List Candidate) :
    Completion :=
  if 1 < (p.tiesOf winner).length then
    failure ("Ambiguous alternatives: " ++ String.intercalate ", " ((p.tiesOf winner).map (·.name)))
  else
    match (winner.rivals later).find? fun rival => rival.2.all fun slot => row.isPopulated slot.2
    with
    | some rival => failure ("Ambiguous row: " ++ winner.name ++ ", " ++ rival.1.name)
    | none => .returned (.made winner.name (winner.slots.map fun slot => row.datumAt slot.2))

end Planner

/-- All positions of the candidate lie in the row. -/
def Candidate.LiesIn (c : Candidate) (row : Row) : Prop := ∀ slot ∈ c.slots, slot.2 < row.width

section Branches

variable {row : Row} {p : Planner}

theorem populates_map_of (slots : List (Field × Nat)) :
    row.populates (slots.map CellRead.of) = slots.all fun slot => row.isPopulated slot.2 := by
  rw [Row.populates, List.all_map]
  rfl

theorem Candidate.LiesIn.cells {c : Candidate} (h : c.LiesIn row) {slots : List (Field × Nat)}
    (hslots : ∀ slot ∈ slots, slot ∈ c.slots) :
    ∀ r ∈ slots.map CellRead.of, r.position < row.width := by
  intro r hr
  obtain ⟨slot, hslot, rfl⟩ := List.mem_map.1 hr
  exact h slot (hslots slot hslot)

/-- The test of a branch holds iff the candidate fits. -/
theorem populates_slotsByPosition (c : Candidate) :
    row.populates (c.slotsByPosition.map CellRead.of) = c.fits row := by
  rw [populates_map_of, Candidate.fits, Bool.eq_iff_iff, List.all_eq_true, List.all_eq_true]
  exact forall_congr' fun slot => imp_congr_left Candidate.mem_slotsByPosition

/-- The body of the branch of a candidate. -/
theorem execAll_branch {c : Candidate} {later : List Candidate} (hc : c.LiesIn row)
    (hlater : ∀ e ∈ later, e.LiesIn row) :
    execAll ((instantiateBranch p c later).guards.map Guard.asStatement ++
      [(instantiateBranch p c later).final.asStatement]) (rowScope row) =
      some (p.completionOf row c later) := by
  unfold instantiateBranch Planner.completionOf
  dsimp only
  split_ifs with hties
  · rfl
  · have hguards : ∀ g ∈ (c.rivals later).map (rivalGuard c), ∀ r ∈ g.cells,
        r.position < row.width := by
      intro g hg
      obtain ⟨rival, hrival, rfl⟩ := List.mem_map.1 hg
      obtain ⟨e, he, rfl⟩ := Candidate.exists_of_mem_rivals hrival
      exact (hlater e he).cells fun _ => Candidate.mem_slots_of_mem_beyond
    have hpopulated : (fun g : Guard => row.populates g.cells) ∘ rivalGuard c =
        fun rival => rival.2.all fun slot => row.isPopulated slot.2 := by
      funext rival
      exact populates_map_of rival.2
    rw [execAll_guards hguards, List.find?_map, hpopulated]
    cases (c.rivals later).find? fun rival => rival.2.all fun slot => row.isPopulated slot.2 with
    | some rival => rfl
    | none =>
      have hreturn := exec_returnNew (hc.cells fun slot hslot => hslot) c.name
      rw [List.map_map] at hreturn
      rw [Option.map_none]
      dsimp only
      rw [execAll, hreturn]
      rfl

/-- The branches end where the search for a candidate ends. -/
theorem execAll_instantiateBranches {cs : List Candidate} (h : ∀ c ∈ cs, c.LiesIn row) :
    execAll (branchStatements (.message "Unknown alternative") (instantiateBranches p cs))
      (rowScope row) =
      some (match Planner.firstFit row cs with
        | none => failure "Unknown alternative"
        | some (winner, later) => p.completionOf row winner later) := by
  induction cs with
  | nil => rfl
  | cons c later ih =>
    rw [List.forall_mem_cons] at h
    have hexec := exec_conditional (h.1.cells fun slot => Candidate.mem_slotsByPosition.1)
      ((instantiateBranch p c later).guards.map Guard.asStatement ++
        [(instantiateBranch p c later).final.asStatement])
      (branchStatements (.message "Unknown alternative") (instantiateBranches p later))
    rw [populates_slotsByPosition, execAll_branch h.1 h.2, ih h.2] at hexec
    rw [instantiateBranches, branchStatements, List.foldr_cons, execAll_singleton,
      Branch.asStatement, instantiateBranch_test]
    refine hexec.trans ?_
    rw [Planner.firstFit]
    split_ifs <;> rfl

end Branches

/-! ## Rivals -/

/-- Once a candidate fits, the cells beyond it decide whether a rival fits too. -/
theorem Candidate.all_beyond_iff {c e : Candidate} {row : Row} (hc : c.fits row) :
    ((c.beyond e).all fun slot => row.isPopulated slot.2) ↔ e.fits row := by
  rw [fits, List.all_eq_true] at hc
  rw [fits, List.all_eq_true, List.all_eq_true]
  constructor
  · intro hbeyond slot hslot
    -- a position of the rival is one of the candidate, which fits, or lies beyond it
    by_cases hoccupied : c.occupies slot.2
    · obtain ⟨own, hown, hposition⟩ := List.any_eq_true.1 hoccupied
      rw [← beq_iff_eq.1 hposition]
      exact hc own hown
    · refine hbeyond slot (List.mem_filter.2 ⟨mem_slotsByPosition.2 hslot, ?_⟩)
      simpa using hoccupied
  · exact fun hall slot hslot => hall slot (mem_slots_of_mem_beyond hslot)

/-- The guards pass iff no rival fits. -/
theorem Candidate.find?_rivals_eq_none_iff {c : Candidate} {later : List Candidate} {row : Row}
    (hc : c.fits row) :
    ((c.rivals later).find? fun rival => rival.2.all fun slot => row.isPopulated slot.2) = none ↔
      c.rivalsIn row later = [] := by
  rw [rivalsIn, List.find?_eq_none, List.filter_eq_nil_iff, List.forall_mem_map]
  refine forall₂_congr fun rival hrival => not_congr ?_
  obtain ⟨e, -, rfl⟩ := exists_of_mem_rivals hrival
  exact all_beyond_iff hc

/-! ## Agreement with the planner -/

namespace Java.Completion

/-- No alternative is known. -/
def IsUnknown (c : Completion) : Prop := c = failure "Unknown alternative"

/-- The alternatives are ambiguous, for every row that fits or for this one. -/
def IsAmbiguous (c : Completion) : Prop :=
  ∃ detail, c = failure ("Ambiguous alternatives: " ++ detail) ∨
    c = failure ("Ambiguous row: " ++ detail)

theorem IsAmbiguous.not_isUnknown {c : Completion} (h : c.IsAmbiguous) : ¬ c.IsUnknown := by
  have hfirst : ∀ head detail : String, head.toList.head? = some 'A' →
      failure (head ++ detail) ≠ failure "Unknown alternative" := by
    intro head detail hhead e
    have hmessage : head ++ detail = "Unknown alternative" := by
      simpa [failure] using e
    have hunknown : "Unknown alternative".toList.head? = some 'U' := by
      decide
    rw [← hmessage, String.toList_append, List.head?_append, hhead, Option.some_or] at hunknown
    exact absurd hunknown (by decide)
  rintro rfl
  obtain ⟨detail, h | h⟩ := h
  · exact hfirst _ detail (by decide) h.symm
  · exact hfirst _ detail (by decide) h.symm

end Java.Completion

namespace Planner

variable {p : Planner} {row : Row} {winner : Candidate} {later : List Candidate}

/-- The body throws if the candidate has ties, which it looks for first, or rivals in the row. -/
theorem completionOf_isAmbiguous (hfits : winner.fits row)
    (h : 1 < (p.tiesOf winner).length ∨ winner.rivalsIn row later ≠ []) :
    (p.completionOf row winner later).IsAmbiguous := by
  unfold completionOf
  split_ifs with hties
  · exact ⟨_, .inl rfl⟩
  · have hrivals := h.resolve_left hties
    rw [ne_eq, ← Candidate.find?_rivals_eq_none_iff hfits] at hrivals
    obtain ⟨rival, hrival⟩ := Option.ne_none_iff_exists'.1 hrivals
    rw [hrival]
    refine ⟨winner.name ++ (", " ++ rival.1.name), .inr ?_⟩
    dsimp only
    rw [String.append_assoc, String.append_assoc]

/-- A candidate without ties and rivals is constructed from its cells. -/
theorem completionOf_of_alone (hfits : winner.fits row) (hties : (p.tiesOf winner).length ≤ 1)
    (hrivals : winner.rivalsIn row later = []) :
    p.completionOf row winner later =
      .returned (.made winner.name (winner.slots.map fun slot => row.datumAt slot.2)) := by
  rw [completionOf, if_neg (Nat.not_lt_of_le hties),
    (Candidate.find?_rivals_eq_none_iff hfits).2 hrivals]

/-- Where a candidate is found that fits, the body returns an instance of it iff the search ends
with it, and otherwise both are ambiguous. -/
theorem completionOf_cases (hwidth : row.width = p.width)
    (hfirst : firstFit row p.order = some (winner, later)) :
    (p.resolve row = .ok winner ∧ p.completionOf row winner later =
      .returned (.made winner.name (winner.slots.map fun slot => row.datumAt slot.2))) ∨
    ((∃ matched, p.resolve row = .error (.ambiguous matched)) ∧
      (p.completionOf row winner later).IsAmbiguous) := by
  have hfits := (mem_of_firstFit hfirst).2
  rcases resolve_of_firstFit hwidth hfirst with
    ⟨hrivals, he⟩ | ⟨-, hties, he⟩ | ⟨hrivals, hties, hok⟩
  · exact .inr ⟨⟨_, he⟩, completionOf_isAmbiguous hfits (.inr hrivals)⟩
  · exact .inr ⟨⟨_, he⟩, completionOf_isAmbiguous hfits (.inl hties)⟩
  · exact .inl ⟨hok, completionOf_of_alone hfits hties hrivals⟩

end Planner

/-! ## Built definitions -/

/-- The arguments are cells of the row: each is that of the field at its place, and holds what the
instance has for the field. -/
def Alternative.ReadFrom (a : Alternative) (s : Schema) (row : Row) (i : Instance)
    (arguments : List Datum) : Prop :=
  arguments.length = a.fields.length ∧
    ∀ (j : Nat) (f : Field), a.fields[j]? = some f → ∃ k v, s.positionOf? f = some k ∧
      row.cells[k]? = some v ∧ i.fields.get? f.name = some v ∧ arguments[j]? = some (.cell k v)

section Built

variable {description : Description} {d : Definition} {row : Row}

theorem Candidate.liesIn_of {s : Schema} (hwidth : row.width = s.width) (a : Alternative) :
    (Candidate.of s a).LiesIn row := by
  intro slot hslot
  rw [hwidth]
  exact Schema.lt_width_of_positionOf? (mem_slots_iff.1 hslot).2

/-- The body hands over the cells that the instance is read from. -/
theorem Alternative.WellFormed.readFrom {a : Alternative} (ha : a.WellFormed) {s : Schema}
    (hcovers : s.Covers a) (hwidth : row.width = s.width) (hcompleted : a.CompletedIn s row) :
    a.ReadFrom s row (Planner.readOff (.of s a) row)
      ((Candidate.of s a).slots.map fun slot => row.datumAt slot.2) := by
  have hfields := Candidate.map_fst_slots hcovers
  refine ⟨by rw [List.length_map, ← hfields, List.length_map], fun j f hf => ?_⟩
  have hmem : f ∈ a.fields := List.mem_of_getElem? hf
  rw [← hfields, List.getElem?_map] at hf
  obtain ⟨⟨g, k⟩, hslot, rfl⟩ := Option.map_eq_some_iff.1 hf
  have hk := (Candidate.mem_slots_iff.1 (List.mem_of_getElem? hslot)).2
  have hin : k < row.cells.length := by
    have := Schema.lt_width_of_positionOf? hk
    rwa [← hwidth] at this
  have hcell : row.cells[k]? = some row.cells[k] := List.getElem?_eq_getElem hin
  have hvalue : s.cellOf row g = row.cells[k] := by
    rw [Schema.cellOf_eq row hk, hcell, Option.getD_some]
  have hpresent := hcompleted g hmem
  rw [hvalue] at hpresent
  refine ⟨k, row.cells[k], hk, hcell, ?_, ?_⟩
  · rw [ha.readOff_of hcovers, ← hvalue]
    exact get?_map_fields (s.cellOf row) ha.fieldNames_nodup hmem
  · rw [List.getElem?_map, hslot, Option.map_some, Row.datumAt, hcell, Option.getD_some,
      Datum.ofCell, hpresent, if_neg Bool.false_ne_true]

/-- The text of the body ends where the search of the planner ends. -/
theorem Definition.WellFormed.runBody_instantiate (h : d.WellFormed)
    (hliterals : d.HasClassLiterals) (hwidth : row.width = d.schema.width) :
    runBody (instantiateCascade d.planner).write.text (rowScope row) =
      some (match Planner.firstFit row d.planner.order with
        | none => failure "Unknown alternative"
        | some (winner, later) => d.planner.completionOf row winner later) := by
  have hlies : ∀ c ∈ d.planner.order, c.LiesIn row := by
    intro c hc
    obtain ⟨a, -, rfl⟩ := mem_order_iff.1 hc
    exact Candidate.liesIn_of hwidth a
  rw [runBody, Cascade.read_text (h.readable_instantiateCascade hliterals)]
  exact execAll_instantiateBranches hlies

/-- For a built definition whose types have class literals and any row over its schema: the text of
the body that instantiates a row, run as Java with the row as its parameter, throws that no
alternative is known iff the planner knows none, throws that the alternatives are ambiguous iff they
are for the planner, and otherwise constructs the alternative that the planner reconstructs, with
the cells that it reads the fields from. -/
theorem instantiate_refines_reconstruct (h : description.build = .ok d)
    (hliterals : d.HasClassLiterals) (hwidth : row.width = d.schema.width) :
    ∃ completion,
      runBody (instantiateCascade d.planner).write.text [("values", .row row)] = some completion ∧
      (completion.IsUnknown ↔ ∃ e, d.planner.reconstruct row = .error e ∧ e.IsUnknown) ∧
      (completion.IsAmbiguous ↔
        ∃ matched, d.planner.reconstruct row = .error (.ambiguous matched)) ∧
      ((∃ className arguments, completion = .returned (.made className arguments)) ↔
        ∃ i, d.planner.reconstruct row = .ok i) ∧
      ∀ i, d.planner.reconstruct row = .ok i → ∃ a ∈ d.alternatives, a.name = i.alternative ∧
        ∃ arguments, completion = .returned (.made a.name arguments) ∧
          a.ReadFrom d.schema row i arguments := by
  have hwf := Description.build_wellFormed h
  refine ⟨_, hwf.runBody_instantiate hliterals hwidth, ?_⟩
  simp only [Planner.reconstruct_eq_error_iff, Planner.reconstruct_eq_ok_iff]
  cases hfirst : Planner.firstFit row d.planner.order with
  | none =>
    have hresolve : d.planner.resolve row = .error .incomplete :=
      Planner.resolve_of_firstFit_eq_none hwidth hfirst
    have hunambiguous : ¬ (failure "Unknown alternative").IsAmbiguous :=
      fun hambiguous => hambiguous.not_isUnknown rfl
    rw [hresolve]
    refine ⟨iff_of_true rfl ⟨_, rfl, trivial⟩, iff_of_false hunambiguous (by simp),
      iff_of_false (by simp [failure]) (by simp), by simp⟩
  | some found =>
    obtain ⟨winner, later⟩ := found
    dsimp only
    rcases Planner.completionOf_cases hwidth hfirst with
      ⟨hresolve, hreturned⟩ | ⟨⟨matched, hresolve⟩, hambiguous⟩
    · obtain ⟨a, ha, rfl⟩ := Definition.exists_of_resolve_eq_ok hresolve
      have hdecides := (hwf.resolve_eq_ok_iff ha).1 hresolve
      rw [hresolve, hreturned]
      refine ⟨iff_of_false (by simp [Completion.IsUnknown, failure]) (by simp),
        iff_of_false (by simp [Completion.IsAmbiguous, failure]) (by simp),
        iff_of_true ⟨_, _, rfl⟩ ⟨_, _, rfl, rfl⟩, ?_⟩
      rintro i ⟨c, ⟨⟩, rfl⟩
      refine ⟨a, ha, ?_, _, rfl, (hwf.alternative_wellFormed a ha).readFrom
        (Definition.covers_of_mem ha) hwidth hdecides.2.1⟩
      rw [(hwf.alternative_wellFormed a ha).readOff_of (Definition.covers_of_mem ha)]
    · rw [hresolve]
      have hnotReturned : ¬ ∃ className arguments,
          d.planner.completionOf row winner later = .returned (.made className arguments) := by
        rintro ⟨className, arguments, hreturned⟩
        rw [hreturned] at hambiguous
        simp [Completion.IsAmbiguous, failure] at hambiguous
      refine ⟨iff_of_false hambiguous.not_isUnknown ?_, iff_of_true hambiguous ⟨matched, rfl⟩,
        iff_of_false hnotReturned (by simp), by simp⟩
      rintro ⟨e, ⟨⟩, hunknown⟩
      exact hunknown

theorem instantiate_overlapping :
    overlapping.build = .ok overlappingDefinition ∧ overlappingDefinition.HasClassLiterals ∧
      ∃ arguments, runBody (instantiateCascade overlappingDefinition.planner).write.text
        [("values", .row ⟨[.ofNat 1, .ofNat 2, .null]⟩)] =
          some (.returned (.made "a.Pick.Left" arguments)) := by
  have hqualified : ∀ a ∈ overlappingDefinition.alternatives, ∀ f ∈ a.fields,
      Name.isQualified f.type.erasure := by
    decide
  have hliterals : overlappingDefinition.HasClassLiterals := fun a ha f hf =>
    ⟨f.type.erasure, 0, hqualified a ha f hf, (String.append_empty).symm⟩
  have hmem : overlappingLeft ∈ overlappingDefinition.alternatives := by
    decide
  have hdecides : overlappingDefinition.Decides ⟨[.ofNat 1, .ofNat 2, .null]⟩ overlappingLeft := by
    decide
  have hinstance := (Description.build_wellFormed overlapping_build).reconstruct_eq_ok_iff.2
    ⟨overlappingLeft, hmem, hdecides, rfl⟩
  obtain ⟨completion, hrun, -, -, -, hreturned⟩ :=
    instantiate_refines_reconstruct overlapping_build hliterals hdecides.1
  obtain ⟨a, -, hname, arguments, hcompletion, -⟩ := hreturned _ hinstance
  rw [hcompletion, hname] at hrun
  exact ⟨overlapping_build, hliterals, arguments, hrun⟩

end Built

end WideRow
