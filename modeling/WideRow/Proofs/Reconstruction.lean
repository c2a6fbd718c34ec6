import WideRow.Proofs.Candidates

/-!
# Which alternative a row belongs to

Candidates are tried in an order, and rivals are looked for only among the later ones. What comes
of it does not depend on the order: a row belongs to the alternative whose field set includes all
others that the row completes.

Results:
* `Planner.firstFit_eq_some_iff`: the candidate that a search ends at;
* `Planner.resolve_of_firstFit`: what becomes of a candidate that is found;
* `Definition.WellFormed.resolve_eq_ok_iff`: the alternative that is found;
* `Definition.WellFormed.resolve_unknown_iff`: when none is found;
* `Definition.WellFormed.resolve_ambiguous_iff`: when several are;
* `Definition.WellFormed.readOff_of`: the instance that is read off a row;
* `reconstruct_decides_by_inclusion`: all of it for built definitions.
-/

namespace WideRow

open Json

/-- The failure is that no alternative is known, not that there are several. -/
def PlanError.IsUnknown : PlanError → Prop
  | .ambiguous _ => False
  | _ => True

theorem PlanError.not_isUnknown_iff {e : PlanError} :
    ¬ e.IsUnknown ↔ ∃ matched, e = .ambiguous matched := by
  cases e <;> simp [PlanError.IsUnknown]

/-- The row belongs to the alternative: it completes it, and whatever else it completes lies
strictly inside. -/
def Definition.Decides (d : Definition) (row : Row) (c : Alternative) : Prop :=
  row.width = d.schema.width ∧ c.CompletedIn d.schema row ∧
    ∀ a ∈ d.alternatives, a ≠ c → a.CompletedIn d.schema row → a.fieldSet ⊂ c.fieldSet

instance (d : Definition) (row : Row) (c : Alternative) : Decidable (d.Decides row c) :=
  inferInstanceAs (Decidable (_ ∧ _ ∧ _))

/-! ## The search for a candidate -/

namespace Planner

variable {row : Row}

theorem firstFit_eq_none_iff {order : List Candidate} :
    firstFit row order = none ↔ ∀ c ∈ order, c.fits row = false := by
  induction order with
  | nil => simp [firstFit]
  | cons c later ih =>
    rw [firstFit, List.forall_mem_cons]
    split_ifs with hfits
    · simp [hfits]
    · simp [hfits, ih]

/-- The search ends at the first candidate that fits. -/
theorem firstFit_eq_some_iff {order later : List Candidate} {winner : Candidate} :
    firstFit row order = some (winner, later) ↔
      ∃ before, order = before ++ winner :: later ∧ (∀ c ∈ before, c.fits row = false) ∧
        winner.fits row := by
  induction order with
  | nil => simp [firstFit]
  | cons c rest ih =>
    rw [firstFit]
    split_ifs with hfits
    · constructor
      · rintro ⟨⟩
        exact ⟨[], rfl, by simp, hfits⟩
      · rintro ⟨before, horder, hbefore, -⟩
        cases before with
        | nil => cases horder; rfl
        | cons b before =>
          cases horder
          rw [hbefore c List.mem_cons_self] at hfits
          cases hfits
    · rw [ih]
      constructor
      · rintro ⟨before, rfl, hbefore, hwinner⟩
        exact ⟨c :: before, rfl, List.forall_mem_cons.2 ⟨by simpa using hfits, hbefore⟩, hwinner⟩
      · rintro ⟨before, horder, hbefore, hwinner⟩
        cases before with
        | nil => cases horder; exact absurd hwinner hfits
        | cons b before =>
          cases horder
          exact ⟨before, rfl, (List.forall_mem_cons.1 hbefore).2, hwinner⟩

theorem mem_of_firstFit {order later : List Candidate} {winner : Candidate}
    (hfirst : firstFit row order = some (winner, later)) : winner ∈ order ∧ winner.fits row := by
  obtain ⟨before, rfl, -, hfits⟩ := firstFit_eq_some_iff.1 hfirst
  exact ⟨List.mem_append_cons_self, hfits⟩

theorem mem_of_mem_later {order later : List Candidate} {winner c : Candidate}
    (hfirst : firstFit row order = some (winner, later)) (hc : c ∈ later) : c ∈ order := by
  obtain ⟨before, rfl, -, -⟩ := firstFit_eq_some_iff.1 hfirst
  exact List.mem_append_right before (.tail _ hc)

/-- Whatever else fits comes later than the candidate that the search ends at. -/
theorem eq_or_mem_later_of_fits {order later : List Candidate} {winner c : Candidate}
    (hfirst : firstFit row order = some (winner, later)) (hc : c ∈ order) (hfits : c.fits row) :
    c = winner ∨ c ∈ later := by
  obtain ⟨before, rfl, hbefore, -⟩ := firstFit_eq_some_iff.1 hfirst
  rw [List.mem_append, List.mem_cons] at hc
  rcases hc with hc | hc
  · rw [hbefore c hc] at hfits
    cases hfits
  · exact hc

theorem exists_firstFit_of_fits {order : List Candidate} {c : Candidate} (hc : c ∈ order)
    (hfits : c.fits row) : ∃ winner later, firstFit row order = some (winner, later) := by
  cases hfirst : firstFit row order with
  | none =>
    rw [firstFit_eq_none_iff.1 hfirst c hc] at hfits
    cases hfits
  | some found => exact ⟨found.1, found.2, rfl⟩

end Planner

/-! ## What is found on the way -/

namespace Candidate

variable {c : Candidate} {row : Row} {later : List Candidate}

/-- The later candidates that need further positions and fit the row too. -/
def rivalsIn (c : Candidate) (row : Row) (later : List Candidate) : List Candidate :=
  ((c.rivals later).map (·.1)).filter (·.fits row)

theorem map_fst_rivals (c : Candidate) (later : List Candidate) :
    (c.rivals later).map (·.1) = later.filter fun d => !(c.beyond d).isEmpty := by
  rw [rivals, List.filter_map, List.map_map]
  exact List.map_id _

theorem rivalsIn_eq_nil_iff :
    c.rivalsIn row later = [] ↔ ∀ d ∈ later, d.fits row → c.beyond d = [] := by
  rw [rivalsIn, map_fst_rivals, List.filter_filter, List.filter_eq_nil_iff]
  refine forall₂_congr fun d _ => ?_
  cases d.fits row <;> cases c.beyond d <;> simp

end Candidate

namespace Planner

variable {p : Planner} {row : Row} {winner : Candidate} {later : List Candidate}

theorem resolve_of_width_ne (hwidth : row.width ≠ p.width) :
    p.resolve row = .error (.wrongWidth row.width p.width) := if_pos hwidth

theorem resolve_of_firstFit_eq_none (hwidth : row.width = p.width)
    (hnone : firstFit row p.order = none) : p.resolve row = .error .incomplete := by
  rw [resolve, if_neg (not_not.2 hwidth), hnone]

/-- Once a candidate is found that fits, it is reported with its rivals in the row, or else with its
ties, and it is the outcome if it has neither. -/
theorem resolve_of_firstFit (hwidth : row.width = p.width)
    (hfirst : firstFit row p.order = some (winner, later)) :
    (winner.rivalsIn row later ≠ [] ∧ p.resolve row =
      .error (.ambiguous (winner.name :: (winner.rivalsIn row later).map (·.name)))) ∨
    (winner.rivalsIn row later = [] ∧ 1 < (p.tiesOf winner).length ∧
      p.resolve row = .error (.ambiguous ((p.tiesOf winner).map (·.name)))) ∨
    (winner.rivalsIn row later = [] ∧ (p.tiesOf winner).length ≤ 1 ∧ p.resolve row = .ok winner) := by
  have hresolve : p.resolve row =
      if !(winner.rivalsIn row later).isEmpty then
        .error (.ambiguous (winner.name :: (winner.rivalsIn row later).map (·.name)))
      else if 1 < (p.tiesOf winner).length then
        .error (.ambiguous ((p.tiesOf winner).map (·.name)))
      else .ok winner := by
    rw [resolve, if_neg (not_not.2 hwidth), hfirst]
    rfl
  rw [hresolve]
  cases hrivals : winner.rivalsIn row later with
  | cons rival rivals => exact .inl ⟨List.cons_ne_nil _ _, rfl⟩
  | nil =>
    rw [List.isEmpty_nil, Bool.not_true, if_neg Bool.false_ne_true]
    split_ifs with hties
    · exact .inr (.inl ⟨rfl, hties, rfl⟩)
    · exact .inr (.inr ⟨rfl, Nat.le_of_not_lt hties, rfl⟩)

/-- The search ends without a candidate if the width differs or no candidate fits. -/
theorem resolve_unknown_iff :
    (∃ e, p.resolve row = .error e ∧ e.IsUnknown) ↔
      row.width ≠ p.width ∨ ∀ c ∈ p.order, c.fits row = false := by
  rw [← firstFit_eq_none_iff]
  by_cases hwidth : row.width = p.width
  · cases hfirst : firstFit row p.order with
    | none =>
      rw [resolve_of_firstFit_eq_none hwidth hfirst]
      exact iff_of_true ⟨_, rfl, trivial⟩ (.inr rfl)
    | some found =>
      obtain ⟨winner, later⟩ := found
      rcases resolve_of_firstFit hwidth hfirst with ⟨-, h⟩ | ⟨-, -, h⟩ | ⟨-, -, h⟩ <;>
        simp [h, hwidth, PlanError.IsUnknown]
  · rw [resolve_of_width_ne hwidth]
    exact iff_of_true ⟨_, rfl, trivial⟩ (.inl hwidth)

/-- Where a search does not end without a candidate, it has found one. -/
theorem exists_firstFit_of_known (h : ¬ ∃ e, p.resolve row = .error e ∧ e.IsUnknown) :
    row.width = p.width ∧ ∃ winner later, firstFit row p.order = some (winner, later) := by
  rw [resolve_unknown_iff, not_or, ne_eq, not_not, ← firstFit_eq_none_iff] at h
  obtain ⟨⟨winner, later⟩, hfirst⟩ := Option.ne_none_iff_exists'.1 h.2
  exact ⟨h.1, winner, later, hfirst⟩

/-- The search ends with a candidate if it is the first that fits, no later one that fits needs
further positions, and no other occupies the same. -/
theorem resolve_eq_ok_iff {c : Candidate} :
    p.resolve row = .ok c ↔
      row.width = p.width ∧ ∃ later, firstFit row p.order = some (c, later) ∧
        (∀ d ∈ later, d.fits row → c.beyond d = []) ∧ (p.tiesOf c).length ≤ 1 := by
  simp only [← Candidate.rivalsIn_eq_nil_iff]
  constructor
  · intro h
    have hknown : ¬ ∃ e, p.resolve row = .error e ∧ e.IsUnknown := by
      simp [h]
    obtain ⟨hwidth, winner, later, hfirst⟩ := exists_firstFit_of_known hknown
    rcases resolve_of_firstFit hwidth hfirst with ⟨-, he⟩ | ⟨-, -, he⟩ | ⟨hrivals, hties, hok⟩
    · cases he.symm.trans h
    · cases he.symm.trans h
    · cases hok.symm.trans h
      exact ⟨hwidth, later, hfirst, hrivals, hties⟩
  · rintro ⟨hwidth, later, hfirst, hrivals, hties⟩
    rcases resolve_of_firstFit hwidth hfirst with ⟨hne, -⟩ | ⟨-, hlt, -⟩ | ⟨-, -, hok⟩
    · exact absurd hrivals hne
    · exact absurd hlt (Nat.not_lt_of_le hties)
    · exact hok

/-- A reconstruction fails as the search does. -/
theorem reconstruct_eq_error_iff {e : PlanError} :
    p.reconstruct row = .error e ↔ p.resolve row = .error e := by
  rw [reconstruct]
  cases p.resolve row <;> simp [bind, Except.bind, pure, Except.pure]

theorem reconstruct_eq_ok_iff {i : Instance} :
    p.reconstruct row = .ok i ↔ ∃ c, p.resolve row = .ok c ∧ readOff c row = i := by
  rw [reconstruct, bind_eq_ok_iff]
  simp only [pure_eq_ok_iff]

end Planner

/-! ## The outcome by field sets -/

/-- The search ends with alternatives of the definition only. -/
theorem Definition.exists_of_resolve_eq_ok {d : Definition} {row : Row} {c : Candidate}
    (h : d.planner.resolve row = .ok c) : ∃ a ∈ d.alternatives, c = .of d.schema a := by
  obtain ⟨-, later, hfirst, -⟩ := Planner.resolve_eq_ok_iff.1 h
  obtain ⟨a, ha, e⟩ := mem_order_iff.1 (Planner.mem_of_firstFit hfirst).1
  exact ⟨a, ha, e.symm⟩

namespace Definition.WellFormed

variable {d : Definition} {row : Row} {c : Alternative}

theorem mem_tiesOf_iff {a : Alternative} (hc : c ∈ d.alternatives) (ha : a ∈ d.alternatives) :
    Candidate.of d.schema a ∈ d.planner.tiesOf (.of d.schema c) ↔ c.fieldSet = a.fieldSet := by
  rw [Planner.tiesOf, List.mem_filter, Candidate.ties_iff (covers_of_mem hc) (covers_of_mem ha)]
  exact and_iff_right (mem_order_iff.2 ⟨a, ha, rfl⟩)

/-- A candidate has its positions to itself iff its alternative has its field set to itself. -/
theorem length_tiesOf_le_one_iff (h : d.WellFormed) (hc : c ∈ d.alternatives) :
    (d.planner.tiesOf (.of d.schema c)).length ≤ 1 ↔
      ∀ a ∈ d.alternatives, c.fieldSet = a.fieldSet → a = c := by
  have hself := (mem_tiesOf_iff hc hc).2 rfl
  constructor
  · intro hle a ha heq
    have hmem := (mem_tiesOf_iff hc ha).2 heq
    have hone := List.length_eq_one_iff.1 (Nat.le_antisymm hle (List.length_pos_of_mem hself))
    obtain ⟨only, honly⟩ := hone
    rw [honly, List.mem_singleton] at hself hmem
    exact congrArg Candidate.alternative (hmem.trans hself.symm)
  · intro hall
    have hsub : d.planner.tiesOf (.of d.schema c) ⊆ [.of d.schema c] := by
      intro c' hc'
      obtain ⟨a, ha, rfl⟩ := mem_order_iff.1 (List.mem_of_mem_filter hc')
      rw [hall a ha ((mem_tiesOf_iff hc ha).1 hc')]
      exact List.mem_singleton_self _
    exact (List.subperm_of_subset (h.order_nodup.filter _) hsub).length_le

/-- The candidate that the search ends at has the most fields of all that fit. -/
theorem arity_le_of_firstFit {winner c' : Candidate} {later : List Candidate}
    (hfirst : Planner.firstFit row d.planner.order = some (winner, later))
    (hc' : c' ∈ d.planner.order) (hfits : c'.fits row) : c'.arity ≤ winner.arity := by
  rcases Planner.eq_or_mem_later_of_fits hfirst hc' hfits with rfl | hlater
  · exact Nat.le_refl _
  · obtain ⟨before, horder, -⟩ := Planner.firstFit_eq_some_iff.1 hfirst
    have hpairwise := d.order_pairwise
    rw [horder, List.pairwise_append, List.pairwise_cons] at hpairwise
    have := Candidate.precedes_iff.1 (hpairwise.2.1.1 c' hlater)
    omega

/-- The candidate that fits first is that of the alternative which the row belongs to. -/
theorem exists_firstFit_of_decides (h : d.WellFormed) (hc : c ∈ d.alternatives)
    (hdecides : d.Decides row c) :
    ∃ later, Planner.firstFit row d.planner.order = some (.of d.schema c, later) := by
  obtain ⟨-, hcompleted, hgreatest⟩ := hdecides
  have hfits := (Candidate.fits_iff (covers_of_mem hc)).2 hcompleted
  have horder := mem_order_iff.2 ⟨c, hc, rfl⟩
  obtain ⟨winner, later, hfirst⟩ := Planner.exists_firstFit_of_fits horder hfits
  obtain ⟨hmem, hwinner⟩ := Planner.mem_of_firstFit hfirst
  obtain ⟨b, hb, rfl⟩ := mem_order_iff.1 hmem
  -- `c` fits, so the first that fits is no smaller; an alternative inside `c` would be smaller
  have hbc : b = c := by
    by_contra hne
    have hcompleted' := (Candidate.fits_iff (covers_of_mem hb)).1 hwinner
    have hlt := (h.alternative_wellFormed b hb).arity_lt_of_ssubset
      (hgreatest b hb hne hcompleted')
    have hle : c.arity ≤ b.arity := arity_le_of_firstFit hfirst horder hfits
    omega
  exact ⟨later, hbc ▸ hfirst⟩

/-- The search ends with an alternative iff the row belongs to it. -/
theorem resolve_eq_ok_iff (h : d.WellFormed) (hc : c ∈ d.alternatives) :
    d.planner.resolve row = .ok (.of d.schema c) ↔ d.Decides row c := by
  rw [Planner.resolve_eq_ok_iff, h.length_tiesOf_le_one_iff hc]
  constructor
  · rintro ⟨hwidth, later, hfirst, hlater, hties⟩
    obtain ⟨-, hfits⟩ := Planner.mem_of_firstFit hfirst
    refine ⟨hwidth, (Candidate.fits_iff (covers_of_mem hc)).1 hfits, fun a ha hne hcompleted => ?_⟩
    have hafits := (Candidate.fits_iff (covers_of_mem ha)).2 hcompleted
    have hmem : Candidate.of d.schema a ∈ later :=
      (Planner.eq_or_mem_later_of_fits hfirst (mem_order_iff.2 ⟨a, ha, rfl⟩) hafits).resolve_left
        fun e => hne (congrArg Candidate.alternative e)
    have hsub := (Candidate.beyond_eq_nil_iff (covers_of_mem ha)).1 (hlater _ hmem hafits)
    exact FieldSet.ssubset_iff_subset_ne.2 ⟨hsub, fun e => hne (hties a ha e.symm)⟩
  · intro hdecides
    obtain ⟨later, hfirst⟩ := h.exists_firstFit_of_decides hc hdecides
    obtain ⟨hwidth, hcompleted, hgreatest⟩ := hdecides
    refine ⟨hwidth, later, hfirst, fun c' hlater hfits' => ?_, fun a ha heq => ?_⟩
    · obtain ⟨a, ha, rfl⟩ := mem_order_iff.1 (Planner.mem_of_mem_later hfirst hlater)
      rw [Candidate.beyond_eq_nil_iff (covers_of_mem ha)]
      by_cases hne : a = c
      · exact hne ▸ fun _ => id
      · exact (hgreatest a ha hne ((Candidate.fits_iff (covers_of_mem ha)).1 hfits')).1
    · by_contra hne
      have hcompleted' : a.CompletedIn d.schema row :=
        hcompleted.of_subset (heq ▸ FieldSet.subset_refl _)
      exact (FieldSet.ssubset_iff_subset_ne.1 (hgreatest a ha hne hcompleted')).2 heq.symm

/-- A failed search knows no alternative iff the width differs or no alternative is completed. -/
theorem resolve_unknown_iff (d : Definition) (row : Row) :
    (∃ e, d.planner.resolve row = .error e ∧ e.IsUnknown) ↔
      row.width ≠ d.schema.width ∨ ∀ a ∈ d.alternatives, ¬ a.CompletedIn d.schema row := by
  rw [Planner.resolve_unknown_iff]
  refine or_congr Iff.rfl ⟨fun hall a ha hcompleted => ?_, fun hall c' hc' => ?_⟩
  · have hfits := (Candidate.fits_iff (covers_of_mem ha)).2 hcompleted
    rw [hall _ (mem_order_iff.2 ⟨a, ha, rfl⟩)] at hfits
    cases hfits
  · obtain ⟨a, ha, rfl⟩ := mem_order_iff.1 hc'
    rw [Bool.eq_false_iff, ne_eq, Candidate.fits_iff (covers_of_mem ha)]
    exact hall a ha

/-- A search that fails is ambiguous iff the row has the width of the schema and completes an
alternative. -/
theorem ambiguous_iff_of_error {e : PlanError} (he : d.planner.resolve row = .error e) :
    (∃ matched, e = .ambiguous matched) ↔
      row.width = d.schema.width ∧ ∃ a ∈ d.alternatives, a.CompletedIn d.schema row := by
  have hunknown : e.IsUnknown ↔
      row.width ≠ d.schema.width ∨ ∀ a ∈ d.alternatives, ¬ a.CompletedIn d.schema row := by
    rw [← resolve_unknown_iff]
    refine ⟨fun h => ⟨e, he, h⟩, ?_⟩
    rintro ⟨e', he', h⟩
    cases he.symm.trans he'
    exact h
  rw [← PlanError.not_isUnknown_iff, hunknown, not_or, not_not]
  simp

/-- A search is ambiguous iff the row has the width of the schema and completes an alternative, but
belongs to none. -/
theorem resolve_ambiguous_iff (h : d.WellFormed) :
    (∃ matched, d.planner.resolve row = .error (.ambiguous matched)) ↔
      row.width = d.schema.width ∧ (∃ a ∈ d.alternatives, a.CompletedIn d.schema row) ∧
        ∀ a ∈ d.alternatives, ¬ d.Decides row a := by
  constructor
  · rintro ⟨matched, hmatched⟩
    obtain ⟨hwidth, hsome⟩ := (ambiguous_iff_of_error hmatched).1 ⟨matched, rfl⟩
    refine ⟨hwidth, hsome, fun a ha hdecides => ?_⟩
    cases hmatched.symm.trans ((h.resolve_eq_ok_iff ha).2 hdecides)
  · rintro ⟨hwidth, hsome, hnone⟩
    cases hresolve : d.planner.resolve row with
    | ok c =>
      obtain ⟨a, ha, rfl⟩ := exists_of_resolve_eq_ok hresolve
      exact absurd ((h.resolve_eq_ok_iff ha).1 hresolve) (hnone a ha)
    | error e =>
      obtain ⟨matched, rfl⟩ := (ambiguous_iff_of_error hresolve).2 ⟨hwidth, hsome⟩
      exact ⟨matched, rfl⟩

end Definition.WellFormed

/-! ## The instance of a row -/

/-- Setting fields of new names one after the other adds them in their order. -/
theorem foldl_set_eq {slots : List (Field × Nat)} {i : Instance} (value : Nat → Value)
    (h : (i.fields.map Prod.fst ++ slots.map (·.1.name)).Nodup) :
    slots.foldl (fun i slot => i.set slot.1.name (value slot.2)) i =
      ⟨i.alternative, i.fields ++ slots.map fun slot => (slot.1.name, value slot.2)⟩ := by
  induction slots generalizing i with
  | nil => simp
  | cons slot slots ih =>
    have hnew : slot.1.name ∉ i.fields.map Prod.fst := fun hmem =>
      List.disjoint_of_nodup_append h hmem List.mem_cons_self
    have hset : i.set slot.1.name (value slot.2) =
        ⟨i.alternative, i.fields ++ [(slot.1.name, value slot.2)]⟩ := by
      rw [Instance.set, Members.insert_of_notMem _ hnew]
    have hnext : ((i.fields ++ [(slot.1.name, value slot.2)]).map Prod.fst ++
        slots.map (·.1.name)).Nodup := by
      simpa using h
    rw [List.foldl_cons, hset, ih hnext, List.map_cons, List.append_assoc, List.singleton_append]

/-- The instance that is read off a row has the fields of the alternative in their order. -/
theorem Alternative.WellFormed.readOff_of {a : Alternative} (h : a.WellFormed) {s : Schema}
    (hcovers : s.Covers a) (row : Row) :
    Planner.readOff (.of s a) row = ⟨a.name, a.fields.map fun f => (f.name, s.cellOf row f)⟩ := by
  have hfields := Candidate.map_fst_slots hcovers
  have hnames : (Candidate.of s a).slots.map (·.1.name) = a.fields.map (·.name) := by
    rw [← hfields, List.map_map]
    rfl
  rw [Planner.readOff, foldl_set_eq (fun k => row.cells[k]?.getD .null)]
  · refine congrArg (Instance.mk a.name) ?_
    rw [← hfields, List.map_map, Instance.empty, List.nil_append]
    refine List.map_congr_left fun slot hslot => ?_
    obtain ⟨-, hk⟩ := Candidate.mem_slots_iff.1 hslot
    rw [Function.comp_apply, Schema.cellOf_eq row hk]
  · rw [hnames]
    exact h.fieldNames_nodup

/-- What is reconstructed is the instance of the alternative that the row belongs to. -/
theorem Definition.WellFormed.reconstruct_eq_ok_iff {d : Definition} (h : d.WellFormed) {row : Row}
    {i : Instance} :
    d.planner.reconstruct row = .ok i ↔
      ∃ c ∈ d.alternatives, d.Decides row c ∧
        i = ⟨c.name, c.fields.map fun f => (f.name, d.schema.cellOf row f)⟩ := by
  rw [Planner.reconstruct_eq_ok_iff]
  constructor
  · rintro ⟨_, hresolve, rfl⟩
    obtain ⟨c, hc, rfl⟩ := exists_of_resolve_eq_ok hresolve
    exact ⟨c, hc, (h.resolve_eq_ok_iff hc).1 hresolve,
      (h.alternative_wellFormed c hc).readOff_of (covers_of_mem hc) row⟩
  · rintro ⟨c, hc, hdecides, rfl⟩
    exact ⟨_, (h.resolve_eq_ok_iff hc).2 hdecides,
      (h.alternative_wellFormed c hc).readOff_of (covers_of_mem hc) row⟩

/-! ## Built definitions -/

variable {description : Description} {d : Definition}

/-- For a built definition and any row: the search, and with it the reconstruction, ends with an
alternative iff the row belongs to it by inclusion of field sets; it knows no alternative iff the
width differs or none is completed; in all other cases it is ambiguous. A reconstructed instance has
exactly the fields of its alternative, in their order, each with the value of its own cell. -/
theorem reconstruct_decides_by_inclusion (h : description.build = .ok d) (row : Row) :
    (∀ c, d.planner.resolve row = .ok c → ∃ a ∈ d.alternatives, c = .of d.schema a) ∧
    (∀ c ∈ d.alternatives,
      (d.planner.resolve row = .ok (.of d.schema c) ↔ d.Decides row c) ∧
      ((∃ i, d.planner.reconstruct row = .ok i ∧ i.alternative = c.name) ↔ d.Decides row c)) ∧
    (∀ e, d.planner.reconstruct row = .error e ↔ d.planner.resolve row = .error e) ∧
    ((∃ e, d.planner.resolve row = .error e ∧ e.IsUnknown) ↔
      row.width ≠ d.schema.width ∨ ∀ a ∈ d.alternatives, ¬ a.CompletedIn d.schema row) ∧
    ((∃ matched, d.planner.resolve row = .error (.ambiguous matched)) ↔
      row.width = d.schema.width ∧ (∃ a ∈ d.alternatives, a.CompletedIn d.schema row) ∧
        ∀ c ∈ d.alternatives, ¬ d.Decides row c) ∧
    (∀ i, d.planner.reconstruct row = .ok i →
      ∃ c ∈ d.alternatives, d.Decides row c ∧
        i = ⟨c.name, c.fields.map fun f => (f.name, d.schema.cellOf row f)⟩ ∧
        ∀ f ∈ c.fields, (d.schema.cellOf row f).isNull = false) := by
  have hwf := Description.build_wellFormed h
  refine ⟨fun c => Definition.exists_of_resolve_eq_ok, fun c hc => ⟨hwf.resolve_eq_ok_iff hc, ?_⟩,
    fun e => Planner.reconstruct_eq_error_iff, Definition.WellFormed.resolve_unknown_iff d row,
    hwf.resolve_ambiguous_iff, fun i hi => ?_⟩
  · constructor
    · rintro ⟨i, hi, hname⟩
      obtain ⟨a, ha, hdecides, rfl⟩ := hwf.reconstruct_eq_ok_iff.1 hi
      rwa [← hwf.eq_of_name_eq ha hc hname]
    · exact fun hdecides => ⟨_, hwf.reconstruct_eq_ok_iff.2 ⟨c, hc, hdecides, rfl⟩, rfl⟩
  · obtain ⟨c, hc, hdecides, rfl⟩ := hwf.reconstruct_eq_ok_iff.1 hi
    exact ⟨c, hc, hdecides, rfl, hdecides.2.1⟩

/-- Two alternatives that share a field, each with one of its own, and a third with the shared field
alone. -/
def overlapping : Description :=
  { name := "a.Pick", package := none, closed := true
    alternatives :=
      [⟨"a.Pick.Right", .record [⟨"x", "int"⟩, ⟨"z", "int"⟩]⟩,
        ⟨"a.Pick.Left", .record [⟨"x", "int"⟩, ⟨"y", "int"⟩]⟩,
        ⟨"a.Pick.Base", .record [⟨"x", "int"⟩]⟩] }

/-- The alternative `Left` of the overlapping ones. -/
def overlappingLeft : Alternative := ⟨"a.Pick.Left", [.of "x" "int", .of "y" "int"]⟩

/-- The definition of the overlapping alternatives. -/
def overlappingDefinition : Definition :=
  ⟨"a.Pick", none,
    [⟨"a.Pick.Right", [.of "x" "int", .of "z" "int"]⟩, overlappingLeft,
      ⟨"a.Pick.Base", [.of "x" "int"]⟩]⟩

theorem overlapping_build : overlapping.build = .ok overlappingDefinition := by
  decide

theorem reconstruct_overlapping_left :
    overlapping.build = .ok overlappingDefinition ∧
      ∃ i, overlappingDefinition.planner.reconstruct ⟨[.ofNat 1, .ofNat 2, .null]⟩ = .ok i ∧
        i.alternative = overlappingLeft.name := by
  have hdecides : overlappingDefinition.Decides ⟨[.ofNat 1, .ofNat 2, .null]⟩ overlappingLeft := by
    decide
  have hmem : overlappingLeft ∈ overlappingDefinition.alternatives := by
    decide
  have hall := reconstruct_decides_by_inclusion overlapping_build ⟨[.ofNat 1, .ofNat 2, .null]⟩
  exact ⟨overlapping_build, ((hall.2.1 overlappingLeft hmem).2).2 hdecides⟩

end WideRow
