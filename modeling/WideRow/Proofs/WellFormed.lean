import Mathlib.Data.List.Nodup
import Mathlib.Tactic.SplitIfs
import WideRow.Definition.Build

/-!
# What built definitions promise

A definition that `build` accepts keeps rules that its type does not show: names are dotted paths of
identifiers, no two alternatives share a name, no two fields of an alternative share a name, and
every field has an identifier for a name and a type.

Results:
* `buildFields_eq_ok_iff`, `buildAlternative_eq_ok_iff`, `buildAlternatives_eq_ok_iff`: when each
  stage accepts, and what it makes;
* `Description.build_eq_ok_iff`: the same for a whole description;
* `Description.build_wellFormed`: built definitions are well formed.
-/

namespace WideRow

/-! ## Rules -/

/-- The name can be that of a field: an identifier which is not reserved. -/
def Name.IsFree (name : String) : Prop := Name.isIdentifier name ∧ ¬ Name.isReserved name

/-- The description of a field is accepted on its own. -/
def FieldDescription.Accepted (f : FieldDescription) : Prop :=
  Name.IsFree f.name ∧ ¬ Text.isAllBlank f.type

/-- The field that is described. -/
def FieldDescription.field (f : FieldDescription) : Field := .of f.name f.type

/-- The rules of an alternative. -/
structure Alternative.WellFormed (a : Alternative) : Prop where
  name_qualified : Name.isQualified a.name
  fieldNames_nodup : (a.fields.map (·.name)).Nodup
  field_accepted : ∀ f ∈ a.fields, ∃ g : FieldDescription, g.Accepted ∧ f = g.field

/-- The rules of a definition. -/
structure Definition.WellFormed (d : Definition) : Prop where
  name_qualified : Name.isQualified d.name
  alternatives_ne_nil : d.alternatives ≠ []
  names_nodup : (d.alternatives.map (·.name)).Nodup
  alternative_wellFormed : ∀ a ∈ d.alternatives, a.WellFormed

namespace Alternative.WellFormed

variable {a : Alternative}

theorem fields_nodup (h : a.WellFormed) : a.fields.Nodup :=
  List.Nodup.of_map _ h.fieldNames_nodup

theorem name_free (h : a.WellFormed) {f : Field} (hf : f ∈ a.fields) : Name.IsFree f.name := by
  obtain ⟨g, hg, rfl⟩ := h.field_accepted f hf
  exact hg.1

/-- The fields of an alternative are known by their names. -/
theorem eq_of_name_eq (h : a.WellFormed) {f g : Field} (hf : f ∈ a.fields) (hg : g ∈ a.fields)
    (e : f.name = g.name) : f = g :=
  List.inj_on_of_nodup_map h.fieldNames_nodup hf hg e

end Alternative.WellFormed

/-- The alternatives of a definition are known by their names. -/
theorem Definition.WellFormed.eq_of_name_eq {d : Definition} (h : d.WellFormed) {a b : Alternative}
    (ha : a ∈ d.alternatives) (hb : b ∈ d.alternatives) (e : a.name = b.name) : a = b :=
  List.inj_on_of_nodup_map h.names_nodup ha hb e

/-! ## What each stage accepts -/

/-- A computation in two stages succeeds if both do. -/
theorem bind_eq_ok_iff {ε α β : Type} {x : Except ε α} {f : α → Except ε β} {b : β} :
    x >>= f = .ok b ↔ ∃ a, x = .ok a ∧ f a = .ok b := by
  cases x <;> simp [bind, Except.bind]

theorem pure_eq_ok_iff {ε α : Type} {a b : α} : (pure a : Except ε α) = .ok b ↔ a = b := by
  show Except.ok a = .ok b ↔ a = b
  rw [Except.ok.injEq]

theorem buildFields_cons_eq_ok_iff {alternative : String} {seen : List String}
    {f : FieldDescription} {rest : List FieldDescription} {fields : List Field} :
    buildFields alternative seen (f :: rest) = .ok fields ↔
      f.Accepted ∧ f.name ∉ seen ∧
        ∃ others, buildFields alternative (f.name :: seen) rest = .ok others ∧
          f.field :: others = fields := by
  rw [buildFields, FieldDescription.Accepted, FieldDescription.field, Name.IsFree,
    List.contains_eq_mem]
  split_ifs with hid hres hblank hseen
  · tauto
  · tauto
  · have : f.name ∈ seen := by simpa using hseen
    tauto
  · have : f.name ∉ seen := by simpa using hseen
    simp only [bind_eq_ok_iff, pure_eq_ok_iff]
    tauto
  · tauto

theorem buildFields_eq_ok_iff {alternative : String} {seen : List String}
    {descriptions : List FieldDescription} {fields : List Field} :
    buildFields alternative seen descriptions = .ok fields ↔
      (∀ f ∈ descriptions, f.Accepted ∧ f.name ∉ seen) ∧
        (descriptions.map (·.name)).Nodup ∧ fields = descriptions.map (·.field) := by
  induction descriptions generalizing seen fields with
  | nil => simp [buildFields, eq_comm]
  | cons f rest ih =>
    rw [buildFields_cons_eq_ok_iff, List.forall_mem_cons, List.map_cons, List.nodup_cons]
    simp only [ih, List.mem_cons, not_or]
    constructor
    · rintro ⟨hf, hnew, others, ⟨hrest, hnodup, rfl⟩, rfl⟩
      refine ⟨⟨⟨hf, hnew⟩, fun g hg => ⟨(hrest g hg).1, (hrest g hg).2.2⟩⟩, ⟨?_, hnodup⟩, rfl⟩
      rw [List.mem_map]
      rintro ⟨g, hg, e⟩
      exact (hrest g hg).2.1 e
    · rintro ⟨⟨⟨hf, hnew⟩, hrest⟩, ⟨hfirst, hnodup⟩, rfl⟩
      refine ⟨hf, hnew, _, ⟨fun g hg => ⟨(hrest g hg).1, ?_, (hrest g hg).2⟩, hnodup, rfl⟩, rfl⟩
      exact fun e => hfirst (e ▸ List.mem_map_of_mem hg)

/-- The description of an alternative is accepted, and what is made of it. -/
def AlternativeDescription.Builds (description : AlternativeDescription) (a : Alternative) : Prop :=
  Name.isQualified description.name ∧
    ∃ fields, description.shape = .record fields ∧ (∀ f ∈ fields, f.Accepted) ∧
      (fields.map (·.name)).Nodup ∧ a = ⟨description.name, fields.map (·.field)⟩

theorem buildAlternative_eq_ok_iff {description : AlternativeDescription} {a : Alternative} :
    buildAlternative description = .ok a ↔ AlternativeDescription.Builds description a := by
  rw [buildAlternative, AlternativeDescription.Builds]
  split_ifs with hname
  · cases hshape : description.shape with
    | record fields =>
      simp only [bind_eq_ok_iff, pure_eq_ok_iff, buildFields_eq_ok_iff, hname, true_and,
        Shape.record.injEq]
      constructor
      · rintro ⟨_, ⟨hok, hnodup, rfl⟩, rfl⟩
        exact ⟨fields, rfl, fun f hf => (hok f hf).1, hnodup, rfl⟩
      · rintro ⟨_, rfl, hok, hnodup, rfl⟩
        exact ⟨_, ⟨fun f hf => ⟨hok f hf, by simp⟩, hnodup, rfl⟩, rfl⟩
    | sum _ => simp
    | other => simp
  · tauto

theorem buildAlternatives_eq_ok_iff {sumType : String} {seen : List String}
    {descriptions : List AlternativeDescription} {alternatives : List Alternative} :
    buildAlternatives sumType seen descriptions = .ok alternatives ↔
      (∀ a ∈ descriptions, a.name ∉ seen) ∧ (descriptions.map (·.name)).Nodup ∧
        List.Forall₂ AlternativeDescription.Builds descriptions alternatives := by
  induction descriptions generalizing seen alternatives with
  | nil => simp [buildAlternatives, eq_comm]
  | cons a rest ih =>
    rw [buildAlternatives]
    split_ifs with hseen
    · have : a.name ∈ seen := by simpa using hseen
      simp [this]
    · have hnew : a.name ∉ seen := by simpa using hseen
      rw [List.forall_mem_cons, List.map_cons, List.nodup_cons]
      simp only [bind_eq_ok_iff, pure_eq_ok_iff, buildAlternative_eq_ok_iff, ih, List.mem_cons,
        not_or]
      constructor
      · rintro ⟨first, hfirst, others, ⟨hrest, hnodup, hothers⟩, rfl⟩
        refine ⟨⟨hnew, fun b hb => (hrest b hb).2⟩, ⟨?_, hnodup⟩, .cons hfirst hothers⟩
        rw [List.mem_map]
        rintro ⟨b, hb, e⟩
        exact (hrest b hb).1 e
      · rintro ⟨⟨-, hrest⟩, ⟨hdistinct, hnodup⟩, hbuilds⟩
        cases hbuilds with
        | cons hfirst hothers =>
          refine ⟨_, hfirst, _, ⟨fun b hb => ⟨?_, hrest b hb⟩, hnodup, hothers⟩, rfl⟩
          exact fun e => hdistinct (e ▸ List.mem_map_of_mem hb)

/-! ## Built definitions -/

section Builds

variable {description : AlternativeDescription} {a : Alternative}

theorem AlternativeDescription.Builds.name_eq (h : Builds description a) :
    a.name = description.name := by
  obtain ⟨-, fields, -, -, -, rfl⟩ := h
  rfl

theorem AlternativeDescription.Builds.wellFormed (h : Builds description a) : a.WellFormed := by
  obtain ⟨hname, fields, -, hok, hnodup, rfl⟩ := h
  refine ⟨hname, ?_, ?_⟩
  · rw [List.map_map]
    exact hnodup
  · intro f hf
    obtain ⟨g, hg, rfl⟩ := List.mem_map.1 hf
    exact ⟨g, hok g hg, rfl⟩

theorem map_name_of_builds {descriptions : List AlternativeDescription}
    {alternatives : List Alternative}
    (h : List.Forall₂ AlternativeDescription.Builds descriptions alternatives) :
    alternatives.map (·.name) = descriptions.map (·.name) := by
  induction h with
  | nil => rfl
  | cons hfirst _ ih => rw [List.map_cons, List.map_cons, hfirst.name_eq, ih]

theorem wellFormed_of_builds {descriptions : List AlternativeDescription}
    {alternatives : List Alternative}
    (h : List.Forall₂ AlternativeDescription.Builds descriptions alternatives) :
    ∀ a ∈ alternatives, a.WellFormed := by
  induction h with
  | nil => simp
  | cons hfirst _ ih => exact List.forall_mem_cons.2 ⟨hfirst.wellFormed, ih⟩

end Builds

namespace Description

/-- A description has a definition iff its names are well formed, it is closed and not empty, and
every alternative is accepted under a name of its own. -/
theorem build_eq_ok_iff {description : Description} {d : Definition} :
    description.build = .ok d ↔
      Name.isQualified description.name ∧ description.closed ∧ description.alternatives ≠ [] ∧
        (description.alternatives.map (·.name)).Nodup ∧ d.name = description.name ∧
        d.package = description.package ∧
        List.Forall₂ AlternativeDescription.Builds description.alternatives d.alternatives := by
  rw [build]
  split_ifs with hname hclosed hempty
  · have : description.alternatives = [] := by simpa using hempty
    simp [this]
  · have : description.alternatives ≠ [] := by simpa using hempty
    simp only [bind_eq_ok_iff, pure_eq_ok_iff, buildAlternatives_eq_ok_iff]
    constructor
    · rintro ⟨alternatives, ⟨-, hnodup, hbuilds⟩, rfl⟩
      exact ⟨hname, hclosed, this, hnodup, rfl, rfl, hbuilds⟩
    · rintro ⟨-, -, -, hnodup, hn, hp, hbuilds⟩
      exact ⟨d.alternatives, ⟨by simp, hnodup, hbuilds⟩, by cases d; simp_all⟩
  · tauto
  · tauto

theorem build_wellFormed {description : Description} {d : Definition}
    (h : description.build = .ok d) : d.WellFormed := by
  obtain ⟨hname, -, hne, hnodup, hn, -, hbuilds⟩ := build_eq_ok_iff.1 h
  have hnames := map_name_of_builds hbuilds
  refine ⟨hn ▸ hname, ?_, hnames ▸ hnodup, wellFormed_of_builds hbuilds⟩
  intro e
  rw [e, List.map_nil, eq_comm, List.map_eq_nil_iff] at hnames
  exact hne hnames

end Description

end WideRow
