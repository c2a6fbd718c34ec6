import WideRow.Proofs.Adapter.Report
import WideRow.Proofs.Unification

/-!
# The members of the row type

The row type declares a member for each column, and a column is a name with a type. So a name that
alternatives declare with several types is declared as often as it has types, which is announced
while the adapter is generated. Where nothing is announced, the members have distinct names.

Main definitions:
* `declaredName`: the name in a line of the row type;
* `Definition.members`: the names that the row type declares;
* `Definition.HasOneTypePerName`: no name is declared with several types.

Results:
* `Schema.collisions_eq_nil_iff`: what the search for names with several types finds;
* `mem_generate_events_iff`: the announcements of a generation;
* `members_exact`: the members of a generated adapter.
-/

namespace WideRow

/-! ## Declared names -/

/-- The name that a declaration introduces: what stands between the last blank and the semicolon at
the end. -/
def declaredName (line : String) : String :=
  String.ofList ((line.toList.reverse.drop 1).takeWhile (· != ' ')).reverse

theorem declaredName_append (before : String) {name : String} (h : ' ' ∉ name.toList) :
    declaredName (before ++ " " ++ name ++ ";") = name := by
  have hchars : (before ++ " " ++ name ++ ";").toList.reverse =
      ';' :: ((before.toList ++ [' ']) ++ name.toList).reverse := by
    simp
  have hstop : (before.toList ++ [' ']).reverse.takeWhile (· != ' ') = [] := by
    rw [List.reverse_concat, List.takeWhile_cons_of_neg (by decide)]
  rw [declaredName, hchars, List.drop_one, List.tail_cons, Name.takeWhile_reverse_append _ h, hstop,
    List.append_nil, List.reverse_reverse, String.ofList_toList]

/-- The line that declares a field introduces its name. -/
theorem Declares.declaredName_eq {line : String} {f : Field} (h : Declares line f)
    (hname : Name.isIdentifier f.name) : declaredName line = f.name := by
  have hblank : ' ' ∉ f.name.toList := fun hmem =>
    absurd (Name.isInner_of_mem_identifier hname hmem) (by decide)
  rcases h with rfl | rfl
  · exact declaredName_append _ hblank
  · rw [← String.append_assoc, ← String.append_assoc, ← String.append_assoc]
    exact declaredName_append _ hblank

/-! ## Names with several types -/

namespace Schema

variable {s : Schema}

/-- A name stands in the schema as often as it has types. -/
theorem count_map_name (s : Schema) (name : String) :
    (s.fields.toList.map (·.name)).count name = (s.typesOf name).length := by
  rw [typesOf, List.length_map, ← List.countP_eq_length_filter, List.count, List.countP_map]
  refine List.countP_congr fun f _ => ?_
  simp

theorem mem_collisions_iff {name : String} {types : List String} :
    (name, types) ∈ s.collisions ↔ types = s.typesOf name ∧ 1 < types.length := by
  rw [collisions, List.mem_filter, List.mem_map, decide_eq_true_eq]
  constructor
  · rintro ⟨⟨other, -, heq⟩, hlength⟩
    cases heq
    exact ⟨rfl, hlength⟩
  · rintro ⟨rfl, hlength⟩
    refine ⟨⟨name, ?_, rfl⟩, hlength⟩
    rw [List.mem_eraseDups, ← List.count_pos_iff, count_map_name]
    omega

/-- No name has several types iff no name stands in the schema twice. -/
theorem collisions_eq_nil_iff : s.collisions = [] ↔ (s.fields.toList.map (·.name)).Nodup := by
  rw [List.nodup_iff_count_le_one, List.eq_nil_iff_forall_not_mem]
  constructor
  · intro hnone name
    rw [count_map_name]
    by_contra hlength
    exact hnone (name, s.typesOf name) (mem_collisions_iff.2 ⟨rfl, by omega⟩)
  · rintro hle ⟨name, types⟩ hmem
    obtain ⟨rfl, hlength⟩ := mem_collisions_iff.1 hmem
    have := hle name
    rw [count_map_name] at this
    omega

end Schema

namespace Definition

/-- No name is declared with several types, in whatever alternatives. -/
def HasOneTypePerName (d : Definition) : Prop :=
  ∀ a ∈ d.alternatives, ∀ f ∈ a.fields, ∀ b ∈ d.alternatives, ∀ g ∈ b.fields,
    f.name = g.name → f.type = g.type

instance (d : Definition) : Decidable d.HasOneTypePerName :=
  inferInstanceAs (Decidable (∀ a ∈ d.alternatives, ∀ f ∈ a.fields, ∀ b ∈ d.alternatives,
    ∀ g ∈ b.fields, f.name = g.name → f.type = g.type))

theorem nodup_map_name_iff (d : Definition) :
    (d.schema.fields.toList.map (·.name)).Nodup ↔ d.HasOneTypePerName := by
  rw [List.nodup_map_iff_inj_on d.schema.fields.toList_nodup]
  constructor
  · intro hinj a ha f hf b hb g hg hname
    exact congrArg Field.type
      (hinj f (mem_schema_iff.2 ⟨a, ha, hf⟩) g (mem_schema_iff.2 ⟨b, hb, hg⟩) hname)
  · rintro hone ⟨name, type⟩ hf ⟨name', type'⟩ hg (rfl : name = name')
    obtain ⟨a, ha, hf⟩ := mem_schema_iff.1 hf
    obtain ⟨b, hb, hg⟩ := mem_schema_iff.1 hg
    exact congrArg (Field.mk name) (hone a ha _ hf b hb _ hg rfl)

/-- The names that the row type declares. -/
def members (d : Definition) (nonNullHints : Bool) : List String :=
  (embeddableContent d.unify nonNullHints).lines.toList.map declaredName

/-- The members are named like the fields of the schema. -/
theorem WellFormed.members_eq {d : Definition} (h : d.WellFormed) (nonNullHints : Bool) :
    d.members nonNullHints = d.schema.fields.toList.map (·.name) := by
  rw [members, lines_embeddableContent, List.map_map]
  refine List.map_congr_left fun f hf => ?_
  obtain ⟨a, ha, hf⟩ := mem_schema_iff.1 hf
  have hname := (h.alternative_wellFormed a ha).name_free hf
  exact (declares_fieldDeclaration _ _ f).declaredName_eq hname.1

end Definition

/-! ## Generation -/

section Generation

variable {description : Description} {t : Template} {options : Options} {a : Adapter}

/-- The row type and both bodies of the adapter of a definition. -/
theorem Definition.fillsIn_of_adapter {d : Definition} (h : d.adapter t options = .ok a) :
    a.FillsIn t (Naming.embeddableName d.name) (embeddableContent d.unify options.nonNullHints)
      (propertyCascade d.planner) (instantiateCascade d.planner) := by
  obtain ⟨n, hnaming, rfl⟩ := adapter_eq_ok_iff.1 h
  rw [Naming.of?_eq_ok hnaming]
  rfl

/-- What is generated is the adapter of the definition, and ambiguity was not denied. -/
theorem exists_adapter_of_generate (h : (generate description t options).outcome = .ok a) :
    ∃ d, description.build = .ok d ∧ d.adapter t options = .ok a ∧
      ∃ pairs, (checkAmbiguity d d.planner options.denyAmbiguous).outcome = .ok pairs := by
  cases hbuild : description.build with
  | error e =>
    rw [generate_of_error t options hbuild] at h
    cases h
  | ok d =>
    rw [generate_of_built t options hbuild, bind_eq_ok_iff] at h
    obtain ⟨pairs, hpairs, hadapter⟩ := h
    exact ⟨d, rfl, hadapter, pairs, hpairs⟩

theorem Run.events_bind {α β : Type} {r : Run α} {b : α} (h : r.outcome = .ok b) (f : α → Run β) :
    (r >>= f).events = r.events ++ (f b).events := by
  show (Run.bind r f).events = _
  rw [Run.bind, h]

theorem Run.events_record_bind {β : Type} (events : List Event) (f : Unit → Run β) :
    (Run.record events >>= f).events = events ++ (f ()).events :=
  Run.events_bind (Run.outcome_record events) f

/-- A search for ambiguous pairs announces nothing else. -/
theorem identical_of_mem_checkAmbiguity {d : Definition} {p : Planner} {deny : Bool} {e : Event}
    (h : e ∈ (checkAmbiguity d p deny).events) : ∃ x y, e = .identical d.name x y := by
  unfold checkAmbiguity at h
  dsimp only at h
  split_ifs at h
  · cases h
  · obtain ⟨pair, -, rfl⟩ := List.mem_map.1 h
    exact ⟨pair.1, pair.2, rfl⟩

/-- What a generation announces on its way to an adapter. -/
theorem generate_events_eq {d : Definition} (hbuild : description.build = .ok d)
    (h : (generate description t options).outcome = .ok a) :
    (generate description t options).events =
      [.built d.name d.alternatives.length] ++ (collisionEvents d d.unify ++
        ((checkAmbiguity d d.planner options.denyAmbiguous).events ++
          [.emitted d.name a.typeName a.source.utf8ByteSize])) := by
  obtain ⟨_, hbuild', hadapter, pairs, hpairs⟩ := exists_adapter_of_generate h
  cases hbuild.symm.trans hbuild'
  obtain ⟨n, hnaming, rfl⟩ := Definition.adapter_eq_ok_iff.1 hadapter
  have hplanner : Planner.of d d.unify.schema = d.planner := rfl
  rw [generate, hbuild, Run.structural_ok_bind, Run.events_record_bind, Run.events_record_bind,
    hplanner, Run.events_bind hpairs, hnaming, Run.structural_ok_bind, Run.events_record_bind]
  rfl

/-- The names with several types are announced, and no others. -/
theorem mem_generate_events_iff {d : Definition} (hbuild : description.build = .ok d)
    (h : (generate description t options).outcome = .ok a) {name : String} {types : List String} :
    .collision d.name name types ∈ (generate description t options).events ↔
      (name, types) ∈ d.schema.collisions := by
  rw [generate_events_eq hbuild h, List.mem_append, List.mem_append, List.mem_append,
    List.mem_singleton, List.mem_singleton]
  constructor
  · rintro (hbuilt | hcollision | hidentical | hemitted)
    · cases hbuilt
    · obtain ⟨entry, hentry, heq⟩ := List.mem_map.1 hcollision
      cases heq
      exact hentry
    · obtain ⟨x, y, heq⟩ := identical_of_mem_checkAmbiguity hidentical
      cases heq
    · cases hemitted
  · exact fun hmem => .inr (.inl (List.mem_map_of_mem hmem))

/-- For every description, skeleton and options with which an adapter is generated: its row type
declares the fields of the schema, which are the pairs of a name and a type that some alternative
declares, each in one declaration. So a name is declared as often as it has types; the declared
names are distinct iff no name is declared with several types, and iff no name with several types
has been announced. -/
theorem members_exact (h : (generate description t options).outcome = .ok a) :
    ∃ d, description.build = .ok d ∧
      a.FillsIn t (Naming.embeddableName d.name) (embeddableContent d.unify options.nonNullHints)
        (propertyCascade d.planner) (instantiateCascade d.planner) ∧
      List.Forall₂ Declares (embeddableContent d.unify options.nonNullHints).lines.toList
        d.schema.fields.toList ∧
      d.schema.fields.toList.Nodup ∧
      (∀ f, f ∈ d.schema.fields.toList ↔ ∃ b ∈ d.alternatives, f ∈ b.fields) ∧
      d.members options.nonNullHints = d.schema.fields.toList.map (·.name) ∧
      (∀ name, (d.members options.nonNullHints).count name = (d.schema.typesOf name).length) ∧
      ((d.members options.nonNullHints).Nodup ↔ d.HasOneTypePerName) ∧
      ((d.members options.nonNullHints).Nodup ↔ ∀ name types,
        .collision d.name name types ∉ (generate description t options).events) := by
  obtain ⟨d, hbuild, hadapter, -⟩ := exists_adapter_of_generate h
  have hmembers := (Description.build_wellFormed hbuild).members_eq options.nonNullHints
  refine ⟨d, hbuild, Definition.fillsIn_of_adapter hadapter,
    declares_embeddableContent d.unify options.nonNullHints, d.schema.fields.toList_nodup,
    fun f => Definition.mem_schema_iff, hmembers, ?_, ?_, ?_⟩
  · intro name
    rw [hmembers, Schema.count_map_name]
  · rw [hmembers, d.nodup_map_name_iff]
  · rw [hmembers, ← Schema.collisions_eq_nil_iff, List.eq_nil_iff_forall_not_mem, Prod.forall]
    simp only [mem_generate_events_iff hbuild h]

end Generation

theorem members_exact_overlapping :
    ∃ a, (generate overlapping ⟨Slot.all.map .slot⟩ ⟨true, none, false⟩).outcome = .ok a ∧
      (overlappingDefinition.members true).Nodup ∧
      (overlappingDefinition.members true).count "x" = 1 ∧
      ∀ name types, .collision "a.Pick" name types ∉
        (generate overlapping ⟨Slot.all.map .slot⟩ ⟨true, none, false⟩).events := by
  have hnaming : Naming.of? overlappingDefinition none =
      .ok ⟨"PickCompositeUserType", "a", "a.Pick", "PickEmbeddable"⟩ := by
    decide
  obtain ⟨a, ha⟩ : ∃ a, overlappingDefinition.adapter ⟨Slot.all.map .slot⟩ ⟨true, none, false⟩ =
      .ok a :=
    ⟨_, Definition.adapter_eq_ok_iff.2 ⟨_, hnaming, rfl⟩⟩
  have hgenerate := (generate_lenient ⟨Slot.all.map .slot⟩ ⟨true, none, false⟩
    overlapping_build).trans ha
  obtain ⟨d, hbuild, -, -, -, -, -, hcount, hone, hannounced⟩ := members_exact hgenerate
  cases overlapping_build.symm.trans hbuild
  have hnodup := hone.2 (by decide)
  exact ⟨a, hgenerate, hnodup, (hcount "x").trans (by decide), hannounced.1 hnodup⟩

/-- A moment, which is a day or an instant, in fields of one name and different types. -/
def moment : Description :=
  { name := "com.acme.When", package := none, closed := true
    alternatives :=
      [⟨"com.acme.Day", .record [⟨"at", "int"⟩]⟩, ⟨"com.acme.Instant", .record [⟨"at", "long"⟩]⟩] }

/-- The definition of a moment. -/
def momentDefinition : Definition :=
  ⟨"com.acme.When", none,
    [⟨"com.acme.Day", [.of "at" "int"]⟩, ⟨"com.acme.Instant", [.of "at" "long"]⟩]⟩

/-- A name with two types is declared twice. -/
theorem name_declared_twice :
    ∃ a, (generate moment ⟨Slot.all.map .slot⟩ ⟨false, none, false⟩).outcome = .ok a ∧
      a.FillsIn ⟨Slot.all.map .slot⟩ "WhenEmbeddable" (embeddableContent momentDefinition.unify false)
        (propertyCascade momentDefinition.planner) (instantiateCascade momentDefinition.planner) ∧
      momentDefinition.members false = ["at", "at"] ∧
      ¬ (momentDefinition.members false).Nodup := by
  have hbuild : moment.build = .ok momentDefinition := by
    decide
  have hnaming : Naming.of? momentDefinition none =
      .ok ⟨"WhenCompositeUserType", "com.acme", "com.acme.When", "WhenEmbeddable"⟩ := by
    decide
  obtain ⟨a, ha⟩ : ∃ a, momentDefinition.adapter ⟨Slot.all.map .slot⟩ ⟨false, none, false⟩ =
      .ok a :=
    ⟨_, Definition.adapter_eq_ok_iff.2 ⟨_, hnaming, rfl⟩⟩
  have hfills := Definition.fillsIn_of_adapter ha
  have hembeddable : Naming.embeddableName momentDefinition.name = "WhenEmbeddable" := by
    decide
  rw [hembeddable] at hfills
  have hmembers : momentDefinition.members false = ["at", "at"] := by
    rw [(Description.build_wellFormed hbuild).members_eq]
    decide
  refine ⟨a, (generate_lenient ⟨Slot.all.map .slot⟩ ⟨false, none, false⟩ hbuild).trans ha, hfills,
    hmembers, ?_⟩
  rw [hmembers]
  decide

end WideRow
