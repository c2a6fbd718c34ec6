import Mathlib.Data.List.FinRange
import WideRow.Proofs.Adapter.Members

/-!
# The warnings of a run

A generation warns of the names that have several types, and of the alternatives that cannot be told
apart unless these are denied. All warnings come before the stages that may fail for another reason,
so that a run that fails there has warned like one that does not. An analysis warns of the same.

The names are found by going through the schema, which is sorted by name and type; the alternatives
by the search for pairs, which goes through the candidates in their order.

Main definitions:
* `Run.warnings`: the warnings of a run;
* `Definition.ListsCollisions`: what should be said of names with several types;
* `Definition.ListsTies`: what should be said of alternatives with equal field sets.

Results:
* `Definition.listsCollisions`: what the search through the schema finds;
* `Planner.tiedPairs_eq_map`: the pairs of ties in the order of their places;
* `warnings_exact`: the warnings of generations and analyses.
-/

namespace WideRow

/-! ## Warnings and stages -/

namespace Run

variable {α β : Type}

/-- The warnings among the events of a run. -/
def warnings (r : Run α) : List Event := r.events.filter Event.isWarning

theorem warnings_record_bind (events : List Event) (f : Unit → Run β) :
    (record events >>= f).warnings = events.filter Event.isWarning ++ (f ()).warnings := by
  unfold warnings
  rw [events_record_bind, List.filter_append]

/-- What does not warn adds no warnings, whether or not it is reached. -/
theorem warnings_bind_of_silent {r : Run α} {f : α → Run β} (h : ∀ a, (f a).warnings = []) :
    (r >>= f).warnings = r.warnings := by
  show (Run.bind r f).warnings = _
  unfold Run.bind
  split
  · rfl
  · rename_i a _
    have hsilent : (f a).events.filter Event.isWarning = [] := h a
    unfold warnings
    rw [List.filter_append, hsilent, List.append_nil]

theorem warnings_structural_bind {outcome : Except StructuralError α} {f : α → Run β}
    (h : ∀ a, (f a).warnings = []) : (structural outcome >>= f).warnings = [] :=
  warnings_bind_of_silent h

end Run

section Stages

variable {description : Description} {d : Definition}

theorem filter_collisionEvents (d : Definition) (u : Unified) :
    (collisionEvents d u).filter Event.isWarning = collisionEvents d u := by
  rw [List.filter_eq_self]
  intro e he
  obtain ⟨_, -, rfl⟩ := List.mem_map.1 he
  rfl

/-- The search for pairs warns of what it finds unless that is to be denied. -/
theorem warnings_checkAmbiguity (d : Definition) (p : Planner) (deny : Bool) :
    (checkAmbiguity d p deny).warnings =
      if deny then [] else p.ambiguousPairs.map fun pair => .identical d.name pair.1 pair.2 := by
  unfold Run.warnings checkAmbiguity
  dsimp only
  cases deny with
  | true =>
    by_cases hpairs : p.ambiguousPairs = []
    · simp [hpairs]
    · simp [hpairs]
  | false =>
    rw [Bool.false_and, if_neg Bool.false_ne_true, if_neg Bool.false_ne_true, List.filter_eq_self]
    intro e he
    obtain ⟨_, -, rfl⟩ := List.mem_map.1 he
    rfl

/-- The warnings of the stages up to the search for pairs, where nothing after it warns. -/
theorem warnings_stages {α : Type} (d : Definition) (deny : Bool) {first : Event}
    (hfirst : first.isWarning = false) {f : List (String × String) → Run α}
    (hrest : ∀ pairs, (f pairs).warnings = []) :
    (Run.record [first] >>= fun _ => Run.record (collisionEvents d d.unify) >>= fun _ =>
        checkAmbiguity d d.planner deny >>= f).warnings =
      collisionEvents d d.unify ++ (checkAmbiguity d d.planner deny).warnings := by
  rw [Run.warnings_record_bind, Run.warnings_record_bind, filter_collisionEvents,
    Run.warnings_bind_of_silent hrest, List.filter_singleton, hfirst]
  rfl

theorem warnings_generate (h : description.build = .ok d) (t : Template) (options : Options) :
    (generate description t options).warnings =
      collisionEvents d d.unify ++
        (checkAmbiguity d d.planner options.denyAmbiguous).warnings := by
  unfold generate
  rw [h, Run.structural_ok_bind]
  apply warnings_stages d options.denyAmbiguous rfl
  intro pairs
  apply Run.warnings_structural_bind
  intro n
  rfl

theorem warnings_analyze (h : description.build = .ok d) (options : Options) :
    (analyze description options).warnings =
      collisionEvents d d.unify ++
        (checkAmbiguity d d.planner options.denyAmbiguous).warnings := by
  unfold analyze
  rw [h, Run.structural_ok_bind]
  apply warnings_stages d options.denyAmbiguous rfl
  intro pairs
  apply Run.warnings_structural_bind
  intro n
  rfl

end Stages

/-! ## Names with several types -/

/-- A sorted list keeps each of its members once, in the same order. -/
theorem pairwise_eraseDups : ∀ {names : List String}, names.Pairwise (· ≤ ·) →
    names.eraseDups.Pairwise (· < ·)
  | [], _ => .nil
  | name :: names, h => by
    obtain ⟨hle, hnames⟩ := List.pairwise_cons.1 h
    have hshorter : (names.filter fun other => !other == name).length < names.length + 1 :=
      Nat.lt_succ_of_le (List.length_filter_le _ _)
    rw [List.eraseDups_cons]
    refine List.pairwise_cons.2 ⟨fun other hother => ?_, pairwise_eraseDups (hnames.filter _)⟩
    rw [List.mem_eraseDups, List.mem_filter] at hother
    have hne : other ≠ name := by simpa using hother.2
    rcases string_lt_trichotomy name other with hlt | rfl | hlt
    · exact hlt
    · exact absurd rfl hne
    · exact absurd hlt (String.not_lt.2 (hle other hother.1))
termination_by names => names.length

namespace Schema

variable (s : Schema)

theorem pairwise_map_name : (s.fields.toList.map (·.name)).Pairwise (· ≤ ·) := by
  rw [List.pairwise_map]
  refine s.fields.increasing.imp fun {f g} hlt => ?_
  rcases Field.lt_iff.1 hlt with hname | ⟨hname, -⟩
  · exact String.not_lt.1 (String.lt_asymm hname)
  · exact hname ▸ String.le_refl f.name

theorem pairwise_collisions : (s.collisions.map Prod.fst).Pairwise (· < ·) := by
  have hnames := pairwise_eraseDups s.pairwise_map_name
  unfold collisions
  dsimp only
  rw [List.pairwise_map]
  refine List.Pairwise.filter _ ?_
  rw [List.pairwise_map]
  exact hnames

theorem pairwise_typesOf (name : String) : (s.typesOf name).Pairwise (· < ·) := by
  unfold typesOf
  rw [List.pairwise_map]
  refine (s.fields.increasing.filter _).imp_of_mem fun {f g} hf hg hlt => ?_
  have hfname : f.name = name := by simpa using (List.mem_filter.1 hf).2
  have hgname : g.name = name := by simpa using (List.mem_filter.1 hg).2
  rcases Field.lt_iff.1 hlt with hname | ⟨-, htype⟩
  · rw [hfname, hgname] at hname
    exact absurd hname (String.lt_irrefl _)
  · exact htype

end Schema

namespace Definition

/-- Some alternative declares a field of the name with the type. -/
def GivesType (d : Definition) (name type : String) : Prop :=
  ∃ a ∈ d.alternatives, ∃ f ∈ a.fields, f.name = name ∧ f.type.text = type

/-- The entries are the names that alternatives give at least two types, in ascending order, each
with all of its types in ascending order. -/
structure ListsCollisions (d : Definition) (entries : List (String × List String)) : Prop where
  names_ascend : (entries.map Prod.fst).Pairwise (· < ·)
  mem_names_iff : ∀ name, name ∈ entries.map Prod.fst ↔
    ∃ type other, type ≠ other ∧ d.GivesType name type ∧ d.GivesType name other
  types_ascend : ∀ entry ∈ entries, entry.2.Pairwise (· < ·)
  mem_types_iff : ∀ entry ∈ entries, ∀ type, type ∈ entry.2 ↔ d.GivesType entry.1 type

variable {d : Definition}

theorem mem_typesOf_iff {name type : String} :
    type ∈ d.schema.typesOf name ↔ d.GivesType name type := by
  simp only [Schema.typesOf, List.mem_map, List.mem_filter, decide_eq_true_eq, GivesType]
  constructor
  · rintro ⟨f, ⟨hf, hname⟩, htype⟩
    obtain ⟨a, ha, hfa⟩ := mem_schema_iff.1 hf
    exact ⟨a, ha, f, hfa, hname, htype⟩
  · rintro ⟨a, ha, f, hf, hname, htype⟩
    exact ⟨f, ⟨mem_schema_iff.2 ⟨a, ha, hf⟩, hname⟩, htype⟩

/-- A name has more than one type in the schema iff alternatives give it two. -/
theorem one_lt_length_typesOf_iff {name : String} :
    1 < (d.schema.typesOf name).length ↔
      ∃ type other, type ≠ other ∧ d.GivesType name type ∧ d.GivesType name other := by
  simp only [← mem_typesOf_iff]
  have hascend := d.schema.pairwise_typesOf name
  generalize d.schema.typesOf name = types at hascend
  constructor
  · intro hlength
    obtain ⟨type, other, rest, rfl⟩ : ∃ type other rest, types = type :: other :: rest := by
      match types, hlength with
      | type :: other :: rest, _ => exact ⟨type, other, rest, rfl⟩
    have hlt := (List.pairwise_cons.1 hascend).1 other List.mem_cons_self
    refine ⟨type, other, ?_, List.mem_cons_self, List.mem_cons_of_mem _ List.mem_cons_self⟩
    rintro rfl
    exact String.lt_irrefl _ hlt
  · rintro ⟨type, other, hne, htype, hother⟩
    by_contra hlength
    match types, hlength with
    | [], _ => cases htype
    | [only], _ => exact hne ((List.mem_singleton.1 htype).trans (List.mem_singleton.1 hother).symm)
    | _ :: _ :: _, hlength => simp at hlength

/-- The search through the schema finds the names with several types. -/
theorem listsCollisions (d : Definition) : d.ListsCollisions d.schema.collisions where
  names_ascend := d.schema.pairwise_collisions
  mem_names_iff name := by
    rw [← one_lt_length_typesOf_iff, List.mem_map]
    constructor
    · rintro ⟨⟨_, types⟩, hentry, rfl⟩
      obtain ⟨rfl, hlength⟩ := Schema.mem_collisions_iff.1 hentry
      exact hlength
    · intro hlength
      exact ⟨_, Schema.mem_collisions_iff.2 ⟨rfl, hlength⟩, rfl⟩
  types_ascend entry hentry := by
    rw [(Schema.mem_collisions_iff.1 hentry).1]
    exact d.schema.pairwise_typesOf entry.1
  mem_types_iff entry hentry type := by
    rw [(Schema.mem_collisions_iff.1 hentry).1]
    exact mem_typesOf_iff

end Definition

/-! ## Alternatives with equal field sets -/

namespace Planner

/-- The places of the ties in a list of candidates, each pair once with the earlier place first, in
lexicographic order. -/
def tiedPlaces (order : List Candidate) : List (Fin order.length × Fin order.length) :=
  (List.finRange order.length).flatMap fun i =>
    ((List.finRange order.length).filter fun j => i < j ∧ order[i].ties order[j]).map fun j => (i, j)

theorem mem_tiedPlaces_iff {order : List Candidate} {i j : Fin order.length} :
    (i, j) ∈ tiedPlaces order ↔ i < j ∧ order[i].ties order[j] := by
  simp [tiedPlaces]

theorem pairwise_tiedPlaces (order : List Candidate) :
    (tiedPlaces order).Pairwise (Prod.Lex (· < ·) (· < ·)) := by
  unfold tiedPlaces
  rw [List.pairwise_flatMap]
  constructor
  · intro i _
    rw [List.pairwise_map]
    exact ((List.pairwise_lt_finRange _).filter _).imp fun hlt => Prod.Lex.right _ hlt
  · refine (List.pairwise_lt_finRange _).imp fun {i i'} hlt => ?_
    intro place hplace place' hplace'
    obtain ⟨j, -, rfl⟩ := List.mem_map.1 hplace
    obtain ⟨j', -, rfl⟩ := List.mem_map.1 hplace'
    exact Prod.Lex.left _ _ hlt

/-- The pairs of ties are those at their places. -/
theorem tiedPairs_eq_map (order : List Candidate) :
    tiedPairs order = (tiedPlaces order).map fun place => (order[place.1], order[place.2]) := by
  induction order with
  | nil => rfl
  | cons c later ih =>
    have hfirst : (later.filter (c.ties ·)).map (fun e => (c, e)) =
        ((List.finRange later.length).filter fun j => c.ties later[j]).map fun j => (c, later[j]) := by
      conv_lhs => rw [← List.map_getElem_finRange later]
      rw [List.filter_map, List.map_map]
      rfl
    rw [tiedPairs, ih, hfirst, tiedPlaces, tiedPlaces]
    simp [List.finRange_succ, List.flatMap_map, List.filter_map, List.map_flatMap, Function.comp_def]

end Planner

namespace Definition

/-- The pairs of places are those of candidates with equal field sets, each pair of candidates once
with the earlier one first, in lexicographic order. -/
structure ListsTies (d : Definition)
    (pairs : List (Fin d.planner.order.length × Fin d.planner.order.length)) : Prop where
  places_ascend : pairs.Pairwise (Prod.Lex (· < ·) (· < ·))
  mem_iff : ∀ i j, (i, j) ∈ pairs ↔ i < j ∧
    d.planner.order[i].alternative.fieldSet = d.planner.order[j].alternative.fieldSet

variable {d : Definition}

theorem listsTies (d : Definition) : d.ListsTies (Planner.tiedPlaces d.planner.order) where
  places_ascend := Planner.pairwise_tiedPlaces _
  mem_iff i j := by
    obtain ⟨a, ha, hi⟩ := mem_order_iff.1 (List.getElem_mem i.isLt)
    obtain ⟨b, hb, hj⟩ := mem_order_iff.1 (List.getElem_mem j.isLt)
    rw [Planner.mem_tiedPlaces_iff, Fin.getElem_fin, Fin.getElem_fin, ← hi, ← hj,
      Candidate.ties_iff (covers_of_mem ha) (covers_of_mem hb)]
    rfl

/-- The candidates are the alternatives, those with more fields first, and by their names where the
fields are equally many. -/
structure OrdersCandidates (d : Definition) : Prop where
  perm : (d.planner.order.map (·.alternative)).Perm d.alternatives
  pairwise : d.planner.order.Pairwise fun c e =>
    e.alternative.fields.length < c.alternative.fields.length ∨
      (c.alternative.fields.length = e.alternative.fields.length ∧ c.name < e.name)

theorem WellFormed.ordersCandidates (h : d.WellFormed) : d.OrdersCandidates where
  perm := by
    have hperm := d.order_perm.map (·.alternative)
    have hid : (fun c : Candidate => c.alternative) ∘ Candidate.of d.schema = id := rfl
    rwa [List.map_map, hid, List.map_id] at hperm
  pairwise := by
    have hnames := List.pairwise_map.1 h.order_names_nodup
    refine (d.order_pairwise.and hnames).imp fun {c e} ⟨hprecedes, hne⟩ => ?_
    rcases Candidate.precedes_iff.1 hprecedes with hmore | ⟨hequal, hle⟩
    · exact .inl hmore
    · rcases string_lt_trichotomy c.name e.name with hlt | heq | hlt
      · exact .inr ⟨hequal, hlt⟩
      · exact absurd heq hne
      · exact absurd hlt (String.not_lt.2 hle)

/-- The warnings about names with several types and, unless these are denied, about alternatives with
equal field sets. -/
def warnings (d : Definition) (entries : List (String × List String))
    (pairs : List (Fin d.planner.order.length × Fin d.planner.order.length)) (deny : Bool) :
    List Event :=
  (entries.map fun entry => .collision d.name entry.1 entry.2) ++
    if deny then []
    else pairs.map fun place =>
      .identical d.name d.planner.order[place.1].name d.planner.order[place.2].name

theorem WellFormed.collisionEvents_append (h : d.WellFormed) (deny : Bool) :
    collisionEvents d d.unify ++ (checkAmbiguity d d.planner deny).warnings =
      d.warnings d.schema.collisions (Planner.tiedPlaces d.planner.order) deny := by
  rw [warnings_checkAmbiguity, Planner.ambiguousPairs, h.pairsFrom_order, Planner.tiedPairs_eq_map,
    List.map_map, List.map_map]
  rfl

end Definition

/-! ## Runs -/

/-- For every description that has a definition: there is the list of the names that alternatives
give at least two types, in ascending order, each once with all of its types in ascending order; and
there is the list of the pairs of candidates with equal field sets, each pair once, in the order of
the candidates. For all options, the warnings of a generation, whatever the skeleton, and those of an
analysis are one for each of these names and then, unless ambiguity is denied, one for each of these
pairs, and no others. This does not depend on how the run ends. -/
theorem warnings_exact {description : Description} {d : Definition} (h : description.build = .ok d) :
    ∃ entries pairs, d.ListsCollisions entries ∧ d.ListsTies pairs ∧ d.OrdersCandidates ∧
      ∀ options : Options,
        (∀ t, (generate description t options).warnings =
          d.warnings entries pairs options.denyAmbiguous) ∧
        (analyze description options).warnings = d.warnings entries pairs options.denyAmbiguous := by
  have hwf := Description.build_wellFormed h
  refine ⟨_, _, d.listsCollisions, d.listsTies, hwf.ordersCandidates, fun options => ⟨?_, ?_⟩⟩
  · intro t
    rw [warnings_generate h, hwf.collisionEvents_append]
  · rw [warnings_analyze h, hwf.collisionEvents_append]

/-- Both types of a moment are announced, in whatever run. -/
theorem warnings_exact_moment :
    moment.build = .ok momentDefinition ∧
      ∃ types : List String, types.Pairwise (· < ·) ∧ "int" ∈ types ∧ "long" ∈ types ∧
        ∀ options t, .collision "com.acme.When" "at" types ∈ (generate moment t options).warnings := by
  have hbuild : moment.build = .ok momentDefinition := by
    decide
  have hint : momentDefinition.GivesType "at" "int" :=
    ⟨_, List.mem_cons_self, .of "at" "int", List.mem_cons_self, rfl, rfl⟩
  have hlong : momentDefinition.GivesType "at" "long" :=
    ⟨_, .tail _ List.mem_cons_self, .of "at" "long", List.mem_cons_self, rfl, rfl⟩
  obtain ⟨entries, pairs, hentries, -, -, hruns⟩ := warnings_exact hbuild
  have hname : "at" ∈ entries.map Prod.fst :=
    (hentries.mem_names_iff "at").2 ⟨"int", "long", by decide, hint, hlong⟩
  obtain ⟨⟨_, types⟩, hentry, rfl⟩ := List.mem_map.1 hname
  refine ⟨hbuild, types, hentries.types_ascend _ hentry, (hentries.mem_types_iff _ hentry _).2 hint,
    (hentries.mem_types_iff _ hentry _).2 hlong, fun options t => ?_⟩
  rw [(hruns options).1 t]
  exact List.mem_append_left _ (List.mem_map_of_mem hentry)

end WideRow
