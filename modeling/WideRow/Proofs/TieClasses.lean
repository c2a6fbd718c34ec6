import WideRow.Proofs.Warnings

/-!
# Ties and pairs

The search for pairs and the ties of a candidate are found in different ways: the search goes
through the candidates once and stops, for each of them, at the first later one of another arity,
while the ties are looked for among all candidates, before and after. Both find the same: the
candidates with equal field sets. So the ties are the classes of an equivalence, and the pairs list
each two members of a class once.

Main definitions:
* `Definition.candidateAt`: the candidate at a place of the order;
* `Definition.TiedAt`: the candidate at one place is among the ties of the one at another.

Results:
* `Definition.ties?_eq`: the ties of the candidate at a place;
* `Definition.WellFormed.ambiguousPairs_eq`, `Definition.WellFormed.mem_ambiguousPairs_iff`: the
  pairs by the places of their candidates;
* `ties_are_listed_pairs`: ties and pairs are one relation.
-/

namespace WideRow

namespace Definition

variable {d : Definition} {i j : Fin d.planner.order.length}

/-! ## Ties at places -/

/-- The candidate at a place of the order. -/
def candidateAt (d : Definition) (i : Fin d.planner.order.length) : Candidate :=
  d.planner.order.get i

theorem candidateAt_mem (i : Fin d.planner.order.length) : d.candidateAt i ∈ d.planner.order :=
  List.get_mem _ i

/-- The candidate at the second place is among the ties of the one at the first. -/
def TiedAt (d : Definition) (i j : Fin d.planner.order.length) : Prop :=
  ∃ ties, d.planner.ties? i = some ties ∧ d.candidateAt j ∈ ties

/-- The ties of a candidate are those of its field set, itself included, in candidate order. -/
theorem ties?_eq (i : Fin d.planner.order.length) :
    d.planner.ties? i = some (d.planner.order.filter fun c =>
      c.alternative.fieldSet = (d.candidateAt i).alternative.fieldSet) := by
  have hplace : d.planner.order[(i : Nat)]? = some (d.candidateAt i) :=
    List.getElem?_eq_getElem i.isLt
  rw [Planner.ties?, hplace, Option.map_some, Planner.tiesOf]
  refine congrArg some (List.filter_congr fun c hc => ?_)
  obtain ⟨a, ha, hi⟩ := mem_order_iff.1 (candidateAt_mem i)
  obtain ⟨b, hb, rfl⟩ := mem_order_iff.1 hc
  rw [← hi, Bool.eq_iff_iff, decide_eq_true_eq,
    Candidate.ties_iff (covers_of_mem ha) (covers_of_mem hb), eq_comm]
  rfl

theorem tiedAt_iff :
    d.TiedAt i j ↔
      (d.candidateAt i).alternative.fieldSet = (d.candidateAt j).alternative.fieldSet := by
  constructor
  · rintro ⟨ties, hties, hj⟩
    rw [ties?_eq, Option.some.injEq] at hties
    rw [← hties, List.mem_filter, decide_eq_true_eq] at hj
    exact hj.2.symm
  · intro heq
    refine ⟨_, ties?_eq i, ?_⟩
    rw [List.mem_filter, decide_eq_true_eq]
    exact ⟨candidateAt_mem j, heq.symm⟩

theorem equivalence_tiedAt (d : Definition) : Equivalence d.TiedAt where
  refl _ := tiedAt_iff.2 rfl
  symm h := tiedAt_iff.2 (tiedAt_iff.1 h).symm
  trans h h' := tiedAt_iff.2 ((tiedAt_iff.1 h).trans (tiedAt_iff.1 h'))

/-- Candidates that are tied have the same ties. -/
theorem tiedAt_iff_ties?_eq : d.TiedAt i j ↔ d.planner.ties? i = d.planner.ties? j := by
  constructor
  · intro h
    rw [ties?_eq, ties?_eq, tiedAt_iff.1 h]
  · intro h
    obtain ⟨ties, hties, hmem⟩ := (equivalence_tiedAt d).refl j
    exact ⟨ties, h.trans hties, hmem⟩

/-! ## Pairs at places -/

/-- The names of the candidates at two places. -/
def namesAt (d : Definition) (place : Fin d.planner.order.length × Fin d.planner.order.length) :
    String × String :=
  ((d.candidateAt place.1).name, (d.candidateAt place.2).name)

/-- Candidates are known by their names. -/
theorem WellFormed.namesAt_injective (h : d.WellFormed) : Function.Injective d.namesAt := by
  have hname : ∀ {i j : Fin d.planner.order.length},
      (d.candidateAt i).name = (d.candidateAt j).name → i = j := by
    intro i j heq
    have hnodup := List.nodup_iff_injective_get.1 h.order_names_nodup
    have hcast := @hnodup (i.cast (List.length_map _).symm) (j.cast (List.length_map _).symm)
      (by simpa [candidateAt] using heq)
    simpa [Fin.ext_iff] using hcast
  rintro ⟨i, j⟩ ⟨i', j'⟩ heq
  obtain ⟨hfirst, hsecond⟩ := Prod.mk.inj heq
  exact Prod.ext (hname hfirst) (hname hsecond)

/-- The search finds the pairs of candidates with equal field sets, place by place. -/
theorem WellFormed.ambiguousPairs_eq (h : d.WellFormed) :
    d.planner.ambiguousPairs = (Planner.tiedPlaces d.planner.order).map d.namesAt := by
  rw [Planner.ambiguousPairs, h.pairsFrom_order, Planner.tiedPairs_eq_map, List.map_map]
  rfl

theorem WellFormed.mem_ambiguousPairs_iff (h : d.WellFormed) :
    d.namesAt (i, j) ∈ d.planner.ambiguousPairs ↔ i < j ∧ d.TiedAt i j := by
  rw [h.ambiguousPairs_eq, List.mem_map_of_injective h.namesAt_injective, d.listsTies.mem_iff,
    tiedAt_iff]
  rfl

end Definition

/-! ## Built definitions -/

/-- For a built definition: the search for pairs lists the names of the candidates at those places
`i < j` that have equal field sets, each pair of places once and in lexicographic order. The ties of
the candidate at `i` are the candidates of its field set, in candidate order; the one at `j` is
among them iff `i = j` or the names of the two are listed. So they are the classes of an
equivalence, and there are no ties at a place beyond the last candidate. -/
theorem ties_are_listed_pairs {description : Description} {d : Definition}
    (h : description.build = .ok d) :
    (∃ pairs, d.ListsTies pairs ∧ d.planner.ambiguousPairs = pairs.map d.namesAt) ∧
      Function.Injective d.namesAt ∧
      (∀ i j, d.TiedAt i j ↔ i = j ∨ d.namesAt (i, j) ∈ d.planner.ambiguousPairs ∨
        d.namesAt (j, i) ∈ d.planner.ambiguousPairs) ∧
      Equivalence d.TiedAt ∧
      (∀ i j, d.TiedAt i j ↔ d.planner.ties? i = d.planner.ties? j) ∧
      (∀ i : Fin d.planner.order.length,
        d.planner.ties? i = some (d.planner.order.filter fun c =>
          c.alternative.fieldSet = (d.candidateAt i).alternative.fieldSet)) ∧
      ∀ k, d.planner.order.length ≤ k → d.planner.ties? k = none := by
  have hwf := Description.build_wellFormed h
  have hequivalence := d.equivalence_tiedAt
  refine ⟨⟨_, d.listsTies, hwf.ambiguousPairs_eq⟩, hwf.namesAt_injective, fun i j => ?_,
    hequivalence, fun i j => Definition.tiedAt_iff_ties?_eq, Definition.ties?_eq, fun k hk => ?_⟩
  · rw [hwf.mem_ambiguousPairs_iff, hwf.mem_ambiguousPairs_iff]
    constructor
    · intro htied
      rcases lt_trichotomy i j with hlt | heq | hgt
      · exact .inr (.inl ⟨hlt, htied⟩)
      · exact .inl heq
      · exact .inr (.inr ⟨hgt, hequivalence.symm htied⟩)
    · rintro (rfl | ⟨-, htied⟩ | ⟨-, htied⟩)
      · exact hequivalence.refl i
      · exact htied
      · exact hequivalence.symm htied
  · rw [Planner.ties?, List.getElem?_eq_none hk, Option.map_none]

/-- Fields of a cell, of which two alternatives have the same and stand apart in the order. -/
def cells : Description :=
  { name := "a.Cell", package := none, closed := true
    alternatives :=
      [⟨"a.Cell.Both", .record [⟨"x", "int"⟩, ⟨"y", "int"⟩]⟩,
        ⟨"a.Cell.Left", .record [⟨"x", "int"⟩]⟩, ⟨"a.Cell.Mid", .record [⟨"y", "int"⟩]⟩,
        ⟨"a.Cell.Right", .record [⟨"x", "int"⟩]⟩] }

/-- The definition of a cell. -/
def cellsDefinition : Definition :=
  ⟨"a.Cell", none,
    [⟨"a.Cell.Both", [.of "x" "int", .of "y" "int"]⟩, ⟨"a.Cell.Left", [.of "x" "int"]⟩,
      ⟨"a.Cell.Mid", [.of "y" "int"]⟩, ⟨"a.Cell.Right", [.of "x" "int"]⟩]⟩

theorem ties_are_listed_pairs_cells :
    cells.build = .ok cellsDefinition ∧
      ∃ i j : Fin cellsDefinition.planner.order.length,
        cellsDefinition.namesAt (i, j) = ("a.Cell.Left", "a.Cell.Right") ∧
        cellsDefinition.namesAt (i, j) ∈ cellsDefinition.planner.ambiguousPairs ∧
        cellsDefinition.planner.ties? i = cellsDefinition.planner.ties? j := by
  have hbuild : cells.build = .ok cellsDefinition := by
    decide
  have horder : cellsDefinition.planner.order =
      cellsDefinition.alternatives.map (Candidate.of cellsDefinition.schema) :=
    Definition.order_eq_of_pairwise (by decide)
  have hlength : cellsDefinition.planner.order.length = 4 := by
    rw [horder]
    rfl
  have hat : ∀ (k : Nat) (hk : k < cellsDefinition.planner.order.length),
      some (cellsDefinition.candidateAt ⟨k, hk⟩).alternative =
        cellsDefinition.alternatives[k]? := by
    intro k hk
    have hplace : cellsDefinition.planner.order[k]? = some (cellsDefinition.candidateAt ⟨k, hk⟩) :=
      List.getElem?_eq_getElem hk
    rw [← Option.map_some (f := Candidate.alternative), ← hplace, horder, ← List.getElem?_map,
      List.map_map]
    rfl
  let i : Fin cellsDefinition.planner.order.length := ⟨1, by omega⟩
  let j : Fin cellsDefinition.planner.order.length := ⟨3, by omega⟩
  have hi : (cellsDefinition.candidateAt i).alternative = ⟨"a.Cell.Left", [.of "x" "int"]⟩ :=
    Option.some.inj (hat 1 i.isLt)
  have hj : (cellsDefinition.candidateAt j).alternative = ⟨"a.Cell.Right", [.of "x" "int"]⟩ :=
    Option.some.inj (hat 3 j.isLt)
  obtain ⟨⟨pairs, hpairs, hlisted⟩, -, htied, -, hties, -⟩ := ties_are_listed_pairs hbuild
  have hlt : i < j := by
    show 1 < 3
    decide
  have hsets : (cellsDefinition.candidateAt i).alternative.fieldSet =
      (cellsDefinition.candidateAt j).alternative.fieldSet := by
    rw [hi, hj]
    rfl
  have hplace : (i, j) ∈ pairs := (hpairs.mem_iff i j).2 ⟨hlt, hsets⟩
  have hpair : cellsDefinition.namesAt (i, j) ∈ cellsDefinition.planner.ambiguousPairs := by
    rw [hlisted]
    exact List.mem_map_of_mem hplace
  have hnames : cellsDefinition.namesAt (i, j) = ("a.Cell.Left", "a.Cell.Right") :=
    Prod.ext (congrArg Alternative.name hi) (congrArg Alternative.name hj)
  exact ⟨hbuild, i, j, hnames, hpair, (hties i j).1 ((htied i j).2 (.inr (.inl hpair)))⟩

end WideRow
