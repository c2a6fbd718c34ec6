import WideRow.Proofs.Unambiguous

/-!
# Which alternatives an ambiguous row is reported with

An ambiguous row is reported with names that are found on the way to the decision: the first
candidate that fits with the later ones that it does not cover, or, if it covers all of them, the
candidates of its own positions. Each name is that of an alternative which the row completes, in
candidate order; but a completed alternative which the first one includes is left out, and so is one
of the same field set if another needs further fields.

Results:
* `Definition.completedBy_eq_of_firstFit`: the completed alternatives in candidate order;
* `Definition.matched_eq_of_resolve`: the alternatives that are named;
* `ambiguity_report`: when these are all that the row completes.
-/

namespace WideRow

open Json

/-! ## Names found by the search -/

/-- An ambiguous search names the first candidate that fits and its rivals that fit, or its ties if
there are none. -/
theorem Planner.exists_firstFit_of_ambiguous {p : Planner} {row : Row} {matched : List String}
    (h : p.resolve row = .error (.ambiguous matched)) :
    ∃ winner later, firstFit row p.order = some (winner, later) ∧
      matched =
        if winner.rivalsIn row later = [] then (p.tiesOf winner).map (·.name)
        else winner.name :: (winner.rivalsIn row later).map (·.name) := by
  have hknown : ¬ ∃ e, p.resolve row = .error e ∧ e.IsUnknown := by
    simp [h, PlanError.IsUnknown]
  obtain ⟨hwidth, winner, later, hfirst⟩ := exists_firstFit_of_known hknown
  refine ⟨winner, later, hfirst, ?_⟩
  rcases resolve_of_firstFit hwidth hfirst with ⟨hne, he⟩ | ⟨hnil, -, he⟩ | ⟨-, -, hok⟩
  · cases he.symm.trans h
    rw [if_neg hne]
  · cases he.symm.trans h
    rw [if_pos hnil]
  · cases hok.symm.trans h

/-- A list keeps all its images through a filter iff the filter keeps all its members. -/
theorem map_filter_eq_map_iff {α β : Type} {l : List α} {keep : α → Bool} (f : α → β) :
    (l.filter keep).map f = l.map f ↔ ∀ a ∈ l, keep a := by
  constructor
  · intro heq
    have hlength := congrArg List.length heq
    rw [List.length_map, List.length_map] at hlength
    exact List.length_filter_eq_length_iff.1 hlength
  · intro hall
    rw [List.filter_eq_self.2 hall]

/-! ## Named alternatives -/

/-- Of completed alternatives, the ones that are named: the first with the others that it does not
include, or, if it includes them all, the ones of its field set. -/
def Alternative.named (first : Alternative) (others : List Alternative) : List Alternative :=
  if ∀ a ∈ others, a.fieldSet ⊆ first.fieldSet then
    (first :: others).filter (·.fieldSet = first.fieldSet)
  else first :: others.filter (¬ ·.fieldSet ⊆ first.fieldSet)

theorem Alternative.named_sublist (first : Alternative) (others : List Alternative) :
    (first.named others).Sublist (first :: others) := by
  rw [named]
  split_ifs
  · exact List.filter_sublist
  · exact List.filter_sublist.cons_cons first

/-- All are named iff all have the field set of the first, or none lies inside it. -/
theorem Alternative.map_name_named_eq_iff (first : Alternative) (others : List Alternative) :
    (first.named others).map (·.name) = (first :: others).map (·.name) ↔
      (∀ a ∈ others, a.fieldSet = first.fieldSet) ∨
        ∀ a ∈ others, ¬ a.fieldSet ⊆ first.fieldSet := by
  rw [named]
  split_ifs with hincludes
  · rw [map_filter_eq_map_iff, List.forall_mem_cons]
    simp only [decide_true, true_and, decide_eq_true_eq]
    refine ⟨.inl, fun h => h.elim id fun hnone a ha => absurd (hincludes a ha) (hnone a ha)⟩
  · rw [List.map_cons, List.map_cons, List.cons.injEq, eq_self, true_and, map_filter_eq_map_iff]
    simp only [decide_eq_true_eq]
    refine ⟨.inr, fun h => h.resolve_left fun hequal => hincludes fun a ha => ?_⟩
    exact hequal a ha ▸ FieldSet.subset_refl _

/-! ## Completed alternatives -/

namespace Definition

variable {d : Definition} {row : Row}

/-- The alternatives that a row completes, in the order in which they are tried. -/
def completedBy (d : Definition) (row : Row) : List Alternative :=
  (d.planner.order.map (·.alternative)).filter (·.CompletedIn d.schema row)

theorem mem_completedBy {a : Alternative} :
    a ∈ d.completedBy row ↔ a ∈ d.alternatives ∧ a.CompletedIn d.schema row := by
  rw [completedBy, List.mem_filter, decide_eq_true_eq, List.mem_map]
  refine and_congr_left fun _ => ?_
  constructor
  · rintro ⟨c, hc, rfl⟩
    obtain ⟨b, hb, rfl⟩ := mem_order_iff.1 hc
    exact hb
  · exact fun ha => ⟨_, mem_order_iff.2 ⟨a, ha, rfl⟩, rfl⟩

theorem WellFormed.completedBy_names_nodup (h : d.WellFormed) (row : Row) :
    ((d.completedBy row).map (·.name)).Nodup := by
  have hnames : ((d.planner.order.map (·.alternative)).map (·.name)).Nodup := by
    rw [List.map_map]
    exact h.order_names_nodup
  exact hnames.sublist (List.filter_sublist.map _)

theorem completedBy_eq_map_filter (d : Definition) (row : Row) :
    d.completedBy row = (d.planner.order.filter (·.fits row)).map (·.alternative) := by
  rw [completedBy, List.filter_map]
  refine congrArg _ (List.filter_congr fun c hc => ?_)
  obtain ⟨a, ha, rfl⟩ := mem_order_iff.1 hc
  rw [Bool.eq_iff_iff, Candidate.fits_iff (covers_of_mem ha)]
  exact decide_eq_true_iff

/-- The first candidate that fits is that of the first completed alternative. -/
theorem completedBy_eq_of_firstFit {winner : Candidate} {later : List Candidate}
    (hfirst : Planner.firstFit row d.planner.order = some (winner, later)) :
    d.completedBy row =
      winner.alternative :: (later.filter (·.fits row)).map (·.alternative) := by
  obtain ⟨before, hsplit, hbefore, hwinner⟩ := Planner.firstFit_eq_some_iff.1 hfirst
  have hnone : before.filter (·.fits row) = [] :=
    List.filter_eq_nil_iff.2 fun c hc => by simp [hbefore c hc]
  rw [completedBy_eq_map_filter, hsplit, List.filter_append, hnone, List.nil_append,
    List.filter_cons, if_pos hwinner, List.map_cons]

/-! ### The report of a row -/

/-- The rivals that fit are those of the completed alternatives that the first does not include. -/
theorem map_rivals_eq (a : Alternative) (row : Row) {later : List Candidate}
    (hlater : ∀ c ∈ later, c ∈ d.planner.order) :
    ((Candidate.of d.schema a).rivalsIn row later).map (·.alternative) =
      ((later.filter (·.fits row)).map (·.alternative)).filter (¬ ·.fieldSet ⊆ a.fieldSet) := by
  rw [Candidate.rivalsIn, Candidate.map_fst_rivals, List.filter_map, List.filter_filter,
    List.filter_filter]
  refine congrArg _ (List.filter_congr fun c hc => ?_)
  obtain ⟨b, hb, rfl⟩ := mem_order_iff.1 (hlater c hc)
  rw [Bool.and_comm]
  refine congrArg (· && _) ?_
  rw [Bool.eq_iff_iff, Bool.not_eq_true', List.isEmpty_eq_false_iff, ne_eq,
    Candidate.beyond_eq_nil_iff (covers_of_mem hb), Function.comp_apply, decide_eq_true_eq,
    Candidate.of_alternative]

/-- All alternatives with the field set of a completed one are completed. -/
theorem namesSharing_eq {a : Alternative} (ha : a.CompletedIn d.schema row) :
    d.namesSharing a.fieldSet =
      ((d.completedBy row).filter (·.fieldSet = a.fieldSet)).map (·.name) := by
  rw [namesSharing, completedBy, List.filter_filter]
  refine congrArg _ (List.filter_congr fun b _ => ?_)
  rw [Bool.eq_iff_iff, Bool.and_eq_true, decide_eq_true_eq, decide_eq_true_eq]
  exact ⟨fun heq => ⟨heq, ha.of_subset (heq ▸ FieldSet.subset_refl _)⟩, And.left⟩

/-- An ambiguous row is reported with the names among the alternatives that it completes. -/
theorem matched_eq_of_resolve {matched : List String}
    (h : d.planner.resolve row = .error (.ambiguous matched)) :
    ∃ first others, d.completedBy row = first :: others ∧
      matched = (first.named others).map (·.name) := by
  obtain ⟨winner, later, hfirst, rfl⟩ := Planner.exists_firstFit_of_ambiguous h
  obtain ⟨hmem, hwinner⟩ := Planner.mem_of_firstFit hfirst
  obtain ⟨a, ha, rfl⟩ := mem_order_iff.1 hmem
  have hcompleted := (Candidate.fits_iff (covers_of_mem ha)).1 hwinner
  have hall := completedBy_eq_of_firstFit hfirst
  have hrivals := map_rivals_eq a row fun c => Planner.mem_of_mem_later hfirst (c := c)
  refine ⟨a, _, hall, ?_⟩
  rw [Alternative.named]
  split_ifs with hnil hincludes hincludes
  · rw [map_name_tiesOf ha, namesSharing_eq hcompleted, hall]
    rfl
  · rw [hnil, List.map_nil, eq_comm, List.filter_eq_nil_iff] at hrivals
    exact absurd (fun b hb => by simpa using hrivals b hb) hincludes
  · refine absurd (List.map_eq_nil_iff.1 (hrivals.trans ?_)) hnil
    exact List.filter_eq_nil_iff.2 fun b hb => by simpa using hincludes b hb
  · rw [List.map_cons, ← hrivals, List.map_map]
    rfl

/-- A row that completes an alternative and belongs to none is ambiguous. -/
theorem WellFormed.resolve_eq_ambiguous (h : d.WellFormed) (hwidth : row.width = d.schema.width)
    (hsome : ∃ a ∈ d.alternatives, a.CompletedIn d.schema row)
    (hnone : ∀ c ∈ d.alternatives, ¬ d.Decides row c) :
    ∃ first others, d.completedBy row = first :: others ∧
      d.planner.resolve row = .error (.ambiguous ((first.named others).map (·.name))) := by
  obtain ⟨matched, hresolve⟩ := h.resolve_ambiguous_iff.2 ⟨hwidth, hsome, hnone⟩
  obtain ⟨first, others, hcompleted, rfl⟩ := matched_eq_of_resolve hresolve
  exact ⟨first, others, hcompleted, hresolve⟩

end Definition

/-! ## Built definitions -/

/-- For a built definition and an ambiguous row: what is reported are names of alternatives that the
row completes, each once and in candidate order. Let `first` be the first of these. The others that
are not inside it are named with it, and if all are, then the ones of the same field set. So all
completed alternatives are named iff none but `first` lies inside it, or all have its field set. -/
theorem ambiguity_report {description : Description} {d : Definition}
    (h : description.build = .ok d) {row : Row} {matched : List String}
    (hambiguous : d.planner.resolve row = .error (.ambiguous matched)) :
    (∀ name ∈ matched, ∃ a ∈ d.alternatives, a.CompletedIn d.schema row ∧ a.name = name) ∧
      matched.Nodup ∧ matched.Sublist ((d.completedBy row).map (·.name)) ∧
      ∃ first others, d.completedBy row = first :: others ∧
        matched = (first.named others).map (·.name) ∧
        (matched = (d.completedBy row).map (·.name) ↔
          (∀ a ∈ others, a.fieldSet = first.fieldSet) ∨
            ∀ a ∈ others, ¬ a.fieldSet ⊆ first.fieldSet) := by
  obtain ⟨first, others, hcompleted, rfl⟩ := Definition.matched_eq_of_resolve hambiguous
  have hsublist : ((first.named others).map (·.name)).Sublist
      ((d.completedBy row).map (·.name)) := by
    rw [hcompleted]
    exact (first.named_sublist others).map _
  have hnodup := (Description.build_wellFormed h).completedBy_names_nodup row
  refine ⟨fun name hname => ?_, hnodup.sublist hsublist, hsublist, first, others, hcompleted, rfl,
    ?_⟩
  · obtain ⟨a, ha, rfl⟩ := List.mem_map.1 (hsublist.subset hname)
    exact ⟨a, (Definition.mem_completedBy.1 ha).1, (Definition.mem_completedBy.1 ha).2, rfl⟩
  · rw [hcompleted]
    exact first.map_name_named_eq_iff others

/-- Two marks of the same field, and one of another. -/
def marks : Description :=
  { name := "a.Mark", package := none, closed := true
    alternatives :=
      [⟨"a.Mark.Dot", .record [⟨"x", "int"⟩]⟩, ⟨"a.Mark.Spot", .record [⟨"x", "int"⟩]⟩,
        ⟨"a.Mark.Tick", .record [⟨"y", "int"⟩]⟩] }

/-- The definition of the marks. -/
def marksDefinition : Definition :=
  ⟨"a.Mark", none,
    [⟨"a.Mark.Dot", [.of "x" "int"]⟩, ⟨"a.Mark.Spot", [.of "x" "int"]⟩,
      ⟨"a.Mark.Tick", [.of "y" "int"]⟩]⟩

theorem marks_build : marks.build = .ok marksDefinition := by
  decide

theorem marks_completedBy :
    marksDefinition.completedBy ⟨[.ofNat 1, .ofNat 2]⟩ = marksDefinition.alternatives := by
  rw [Definition.completedBy, Definition.order_eq_of_pairwise (by decide)]
  decide

theorem marks_resolve :
    marksDefinition.planner.resolve ⟨[.ofNat 1, .ofNat 2]⟩ =
      .error (.ambiguous ["a.Mark.Dot", "a.Mark.Tick"]) := by
  have hwidth : (⟨[.ofNat 1, .ofNat 2]⟩ : Row).width = marksDefinition.schema.width := by
    decide
  obtain ⟨first, others, hcompleted, hresolve⟩ :=
    (Description.build_wellFormed marks_build).resolve_eq_ambiguous hwidth (by decide) (by decide)
  obtain ⟨rfl, rfl⟩ := List.cons.inj (marks_completedBy.symm.trans hcompleted)
  exact hresolve

theorem ambiguity_report_marks :
    marks.build = .ok marksDefinition ∧
      marksDefinition.planner.resolve ⟨[.ofNat 1, .ofNat 2]⟩ =
        .error (.ambiguous ["a.Mark.Dot", "a.Mark.Tick"]) ∧
      ∃ first others,
        marksDefinition.completedBy ⟨[.ofNat 1, .ofNat 2]⟩ = first :: others ∧
        ["a.Mark.Dot", "a.Mark.Tick"] = (first.named others).map (·.name) := by
  obtain ⟨-, -, -, first, others, hcompleted, hnamed, -⟩ :=
    ambiguity_report marks_build marks_resolve
  exact ⟨marks_build, marks_resolve, first, others, hcompleted, hnamed⟩

/-- The report of a row that completes all marks misses `Spot`, which fits the row as `Dot` does. -/
theorem ambiguity_report_misses_tie :
    marks.build = .ok marksDefinition ∧
      marksDefinition.planner.resolve ⟨[.ofNat 1, .ofNat 2]⟩ =
        .error (.ambiguous ["a.Mark.Dot", "a.Mark.Tick"]) ∧
      (marksDefinition.completedBy ⟨[.ofNat 1, .ofNat 2]⟩).map (·.name) =
        ["a.Mark.Dot", "a.Mark.Spot", "a.Mark.Tick"] := by
  refine ⟨marks_build, marks_resolve, ?_⟩
  rw [marks_completedBy]
  decide

end WideRow
