import WideRow.Proofs.Unambiguous

/-!
# Pairs that cannot be told apart

The search for pairs of candidates with the same positions ends, for each candidate, at the first
later one of another arity. It misses no pair, as the candidates stand in the order of their arities
and the same positions are equally many.

Results:
* `Alternative.WellFormed.arity_eq_of_fieldSet_eq`: equal field sets have equal arities;
* `Planner.pairsFrom_eq_tiedPairs`: the search finds the pairs of ties among all later candidates;
* `Definition.WellFormed.ambiguousPairs_eq_nil_iff`: it finds none iff all field sets differ.
-/

namespace WideRow

/-! ## Equal field sets -/

theorem Alternative.WellFormed.arity_eq_of_fieldSet_eq {a b : Alternative} (ha : a.WellFormed)
    (hb : b.WellFormed) (h : a.fieldSet = b.fieldSet) : a.arity = b.arity := by
  have hmem : ∀ f, f ∈ a.fields ↔ f ∈ b.fields := fun f => by
    rw [← Alternative.mem_fieldSet, h, Alternative.mem_fieldSet]
  exact ((List.perm_ext_iff_of_nodup ha.fields_nodup hb.fields_nodup).2 hmem).length_eq

theorem Candidate.ties_comm (c e : Candidate) : c.ties e = e.ties c := Bool.and_comm _ _

/-! ## The search -/

namespace Planner

/-- The pairs of a candidate with a later one of the same positions. -/
def tiedPairs : List Candidate → List (Candidate × Candidate)
  | [] => []
  | c :: later => ((later.filter (c.ties ·)).map fun e => (c, e)) ++ tiedPairs later

theorem tiedPairs_eq_nil_iff {order : List Candidate} :
    tiedPairs order = [] ↔ order.Pairwise fun c e => ¬ c.ties e := by
  induction order with
  | nil => simp [tiedPairs]
  | cons c later ih =>
    rw [tiedPairs, List.append_eq_nil_iff, List.map_eq_nil_iff, List.filter_eq_nil_iff, ih,
      List.pairwise_cons]

/-- Past the candidates of its own arity, a candidate has no ties. -/
theorem filter_takeWhile_arity {c : Candidate} {later : List Candidate}
    (hdescends : (c :: later).Pairwise fun c e => e.arity ≤ c.arity)
    (harity : ∀ e ∈ later, c.ties e → c.arity = e.arity) :
    (later.takeWhile fun e => c.arity == e.arity).filter (c.ties ·) = later.filter (c.ties ·) := by
  induction later with
  | nil => rfl
  | cons e rest ih =>
    obtain ⟨hbelow, hrest⟩ := List.pairwise_cons.1 hdescends
    by_cases heq : c.arity = e.arity
    · have hskip : (c :: rest).Pairwise fun c e => e.arity ≤ c.arity :=
        hdescends.sublist (List.Sublist.cons_cons c (List.sublist_cons_self e rest))
      rw [List.takeWhile_cons_of_pos (by simpa using heq), List.filter_cons, List.filter_cons,
        ih hskip fun e' he' => harity e' (.tail _ he')]
    · rw [List.takeWhile_cons_of_neg (by simpa using heq), List.filter_nil, eq_comm,
        List.filter_eq_nil_iff]
      -- all that is left has fewer fields than `c`
      intro e' he' hties
      have hlt : e.arity < c.arity := by
        have := hbelow e List.mem_cons_self
        omega
      have hle : e'.arity ≤ e.arity := by
        rcases List.mem_cons.1 he' with rfl | he'
        · exact Nat.le_refl _
        · exact (List.pairwise_cons.1 hrest).1 e' he'
      have := harity e' he' hties
      omega

theorem pairsFrom_eq_tiedPairs {order : List Candidate}
    (hdescends : order.Pairwise fun c e => e.arity ≤ c.arity)
    (harity : ∀ c ∈ order, ∀ e ∈ order, c.ties e → c.arity = e.arity) :
    pairsFrom order = tiedPairs order := by
  induction order with
  | nil => rfl
  | cons c later ih =>
    have hlater := ih (List.pairwise_cons.1 hdescends).2
      fun e he e' he' => harity e (.tail _ he) e' (.tail _ he')
    have hfirst := filter_takeWhile_arity hdescends
      fun e he => harity c List.mem_cons_self e (.tail _ he)
    rw [pairsFrom, tiedPairs, hfirst, hlater]

end Planner

/-! ## The pairs of a definition -/

namespace Definition

variable {d : Definition}

theorem order_arity_descends (d : Definition) :
    d.planner.order.Pairwise fun c e => e.arity ≤ c.arity :=
  d.order_pairwise.imp fun h => by
    have := Candidate.precedes_iff.1 h
    omega

theorem WellFormed.arity_eq_of_ties (h : d.WellFormed) {c e : Candidate}
    (hc : c ∈ d.planner.order) (he : e ∈ d.planner.order) (hties : c.ties e) :
    c.arity = e.arity := by
  obtain ⟨a, ha, rfl⟩ := mem_order_iff.1 hc
  obtain ⟨b, hb, rfl⟩ := mem_order_iff.1 he
  rw [Candidate.ties_iff (covers_of_mem ha) (covers_of_mem hb)] at hties
  exact (h.alternative_wellFormed a ha).arity_eq_of_fieldSet_eq (h.alternative_wellFormed b hb) hties

theorem WellFormed.pairsFrom_order (h : d.WellFormed) :
    Planner.pairsFrom d.planner.order = Planner.tiedPairs d.planner.order :=
  Planner.pairsFrom_eq_tiedPairs d.order_arity_descends fun _ hc _ he => h.arity_eq_of_ties hc he

/-- The search for pairs finds none iff no two alternatives have the same field set. -/
theorem WellFormed.ambiguousPairs_eq_nil_iff (h : d.WellFormed) :
    d.planner.ambiguousPairs = [] ↔ d.DistinctFieldSets := by
  have hsymm : ∀ {c e : Candidate}, ¬ c.ties e → ¬ e.ties c := fun {c e} hne => by
    rwa [e.ties_comm c]
  rw [Planner.ambiguousPairs, List.map_eq_nil_iff, h.pairsFrom_order,
    Planner.tiedPairs_eq_nil_iff, d.order_perm.pairwise_iff hsymm, List.pairwise_map,
    DistinctFieldSets, List.Nodup, List.pairwise_map]
  refine List.Pairwise.iff_of_mem fun {a b} ha hb => ?_
  rw [Candidate.ties_iff (covers_of_mem ha) (covers_of_mem hb)]

end Definition

end WideRow
