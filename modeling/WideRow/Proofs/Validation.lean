import WideRow.Proofs.WellFormed

/-!
# What is accepted, and what is reported otherwise

The rules for descriptions, listed in the order of the document. A description is built iff all of
them are kept, and otherwise the violation of the first that is not kept is reported, so that
nothing that comes later in the document can change the report.

Main definitions:
* `Name.Identifier`, `Name.DottedPath`: how names are spelt;
* `Description.rules`: the rules in the order of the document;
* `FirstViolated`: what the first rule that is not kept reports.

Results:
* `Name.isIdentifier_iff`, `Name.isQualified_iff`: the checks of names;
* `Description.build_reports`: building agrees with the rules;
* `validation`: what is accepted, what is made of it, and what is reported otherwise.
-/

namespace WideRow

/-! ## Names -/

namespace Name

/-- A Latin letter, `_` or `$`. -/
def Initial (c : Char) : Prop := ('A' ≤ c ∧ c ≤ 'Z') ∨ ('a' ≤ c ∧ c ≤ 'z') ∨ c = '_' ∨ c = '$'

/-- A Latin letter, `_`, `$` or a digit. -/
def Inner (c : Char) : Prop := Initial c ∨ ('0' ≤ c ∧ c ≤ '9')

/-- A Latin letter, `_` or `$`, and then any number of these and of digits. -/
def Identifier (s : String) : Prop :=
  ∃ c rest, s.toList = c :: rest ∧ Initial c ∧ ∀ c' ∈ rest, Inner c'

/-- One or more identifiers with dots between them. -/
def DottedPath (s : String) : Prop :=
  ∃ parts : List String, parts ≠ [] ∧ (∀ part ∈ parts, Identifier part) ∧
    s = String.intercalate "." parts

theorem isInitial_iff {c : Char} : isInitial c ↔ Initial c := by
  have hupper : c.isUpper = decide ('A' ≤ c ∧ c ≤ 'Z') := rfl
  have hlower : c.isLower = (decide ('a' ≤ c) && decide (c ≤ 'z')) := rfl
  have halpha : c.isAlpha = (c.isUpper || c.isLower) := rfl
  simp [isInitial, Initial, halpha, hupper, hlower, or_assoc]

theorem isInner_iff {c : Char} : isInner c ↔ Inner c := by
  rw [isInner, Bool.or_eq_true, isInitial_iff, Inner]
  simp [Char.isDigit, Char.le_def]

theorem isIdentifier_iff {s : String} : isIdentifier s ↔ Identifier s := by
  rw [isIdentifier, Identifier]
  cases s.toList with
  | nil => simp [isIdentifierChars]
  | cons c rest => simp [isIdentifierChars, isInitial_iff, isInner_iff]

/-- A text is a dotted path iff all pieces between its dots are identifiers. -/
theorem isQualified_iff {s : String} : isQualified s ↔ DottedPath s := by
  rw [isQualified, List.all_eq_true]
  constructor
  · intro hall
    refine ⟨(segments s).map String.ofList, by simpa using segments_ne_nil s, ?_, ?_⟩
    · rw [List.forall_mem_map]
      intro w hw
      rw [← isIdentifier_iff, isIdentifier, String.toList_ofList]
      exact hall w hw
    · exact (intercalate_map_segments s).symm
  · rintro ⟨parts, hne, hall, rfl⟩
    have hsegments := segments_intercalate hne fun part hpart =>
      dot_notMem_identifier (isIdentifier_iff.2 (hall part hpart))
    rw [hsegments, List.forall_mem_map]
    exact fun part hpart => isIdentifier_iff.2 (hall part hpart)

end Name

/-! ## Rules -/

/-- A rule that a description must keep, and what is reported if it does not. -/
structure Rule where
  Kept : Prop
  violation : StructuralError

/-- The rules for the items of a list, one after the other. The rules for an item may depend on the
items before it. -/
def rulesInOrder {α : Type} (rules : List α → α → List Rule) :
    (earlier : List α) → List α → List Rule
  | _, [] => []
  | earlier, a :: rest => rules earlier a ++ rulesInOrder rules (earlier ++ [a]) rest

/-- The rules for a field: its name, whether that is free, its type, and that no field before it has
its name. -/
def FieldDescription.rules (alternative : String) (earlier : List FieldDescription)
    (f : FieldDescription) : List Rule :=
  [⟨Name.Identifier f.name, .notAProduct alternative (.badFieldName f.name)⟩,
    ⟨f.name ∉ Name.reservedWords, .reservedFieldName alternative f.name⟩,
    ⟨Text.trim f.type ≠ "", .notAProduct alternative (.noType f.name)⟩,
    ⟨f.name ∉ earlier.map (·.name), .notAProduct alternative (.repeatedField f.name)⟩]

/-- The rules for the shape of an alternative: it must be a record. -/
def Shape.rules (alternative : String) : Shape → List Rule
  | .record fields => rulesInOrder (FieldDescription.rules alternative) [] fields
  | .sum _ => [⟨False, .nestedSum alternative⟩]
  | .other => [⟨False, .notAProduct alternative .noFields⟩]

/-- The rules for an alternative: that none before it has its name, its name and its shape. -/
def AlternativeDescription.rules (sumType : String) (earlier : List AlternativeDescription)
    (a : AlternativeDescription) : List Rule :=
  ⟨a.name ∉ earlier.map (·.name), .duplicateAlternative sumType a.name⟩ ::
    ⟨Name.DottedPath a.name, .invalidTypeName a.name⟩ :: a.shape.rules a.name

/-- The rules for a description: its name, that it is closed and has alternatives, and these. -/
def Description.rules (d : Description) : List Rule :=
  ⟨Name.DottedPath d.name, .invalidTypeName d.name⟩ :: ⟨d.closed = true, .notClosed d.name⟩ ::
    ⟨d.alternatives ≠ [], .noAlternatives d.name⟩ ::
      rulesInOrder (AlternativeDescription.rules d.name) [] d.alternatives

/-- What the first of the rules reports that is not kept. -/
inductive FirstViolated : List Rule → StructuralError → Prop
  | here {r : Rule} {later : List Rule} : ¬ r.Kept → FirstViolated (r :: later) r.violation
  | later {r : Rule} {later : List Rule} {e : StructuralError} :
      r.Kept → FirstViolated later e → FirstViolated (r :: later) e

namespace FirstViolated

variable {rules more : List Rule} {e e' : StructuralError}

/-- Rules after the first that is violated do not matter. -/
theorem append_left (h : FirstViolated rules e) (more : List Rule) :
    FirstViolated (rules ++ more) e := by
  induction h with
  | here hnot => exact .here hnot
  | later hkept _ ih => exact .later hkept ih

theorem append_right (hkept : ∀ r ∈ rules, r.Kept) (h : FirstViolated more e) :
    FirstViolated (rules ++ more) e := by
  induction rules with
  | nil => exact h
  | cons r rules ih =>
    rw [List.forall_mem_cons] at hkept
    exact .later hkept.1 (ih hkept.2)

theorem not_forall_kept (h : FirstViolated rules e) : ¬ ∀ r ∈ rules, r.Kept := by
  induction h with
  | here hnot => exact fun hall => hnot (hall _ List.mem_cons_self)
  | later _ _ ih => exact fun hall => ih fun r hr => hall r (.tail _ hr)

/-- One violation is the first. -/
theorem unique (h : FirstViolated rules e) (h' : FirstViolated rules e') : e = e' := by
  induction h with
  | here hnot =>
    cases h' with
    | here => rfl
    | later hkept => exact absurd hkept hnot
  | later hkept _ ih =>
    cases h' with
    | here hnot => exact absurd hkept hnot
    | later _ h' => exact ih h'

end FirstViolated

/-! ## Checks and rules -/

/-- The outcome of checks is what the rules say: a value if all are kept, and otherwise the
violation of the first that is not. -/
def Reports {α : Type} (outcome : Except StructuralError α) (rules : List Rule) : Prop :=
  match outcome with
  | .ok _ => ∀ r ∈ rules, r.Kept
  | .error e => FirstViolated rules e

namespace Reports

variable {α β : Type} {x : Except StructuralError α} {rules more : List Rule}

theorem ok (a : α) : Reports (.ok a) [] := by
  intro r hr
  cases hr

/-- A check in front, for a rule in front. -/
theorem check {p q : Prop} [Decidable q] (hq : q ↔ ¬ p) (e : StructuralError)
    (hx : p → Reports x rules) : Reports (if q then .error e else x) (⟨p, e⟩ :: rules) := by
  split_ifs with h
  · exact .here (hq.1 h)
  · have hp : p := not_not.1 fun hnot => h (hq.2 hnot)
    have hrest := hx hp
    cases x with
    | ok a => exact List.forall_mem_cons.2 ⟨hp, hrest⟩
    | error e' => exact .later hp hrest

/-- Checks one after the other, for rules one after the other. -/
theorem bind {f : α → Except StructuralError β} (hx : Reports x rules)
    (hf : ∀ a, Reports (f a) more) : Reports (x >>= f) (rules ++ more) := by
  cases x with
  | error e => exact hx.append_left more
  | ok a =>
    have hmore := hf a
    show Reports (f a) (rules ++ more)
    generalize f a = y at hmore ⊢
    cases y with
    | ok b => exact List.forall_mem_append.2 ⟨hx, hmore⟩
    | error e => exact FirstViolated.append_right hx hmore

/-- What is made of the value does not matter. -/
theorem map (hx : Reports x rules) (g : α → β) :
    Reports (x >>= fun a => pure (g a)) rules := by
  have hbind := hx.bind (f := fun a => pure (g a)) fun a => ok (g a)
  rwa [List.append_nil] at hbind

/-- An outcome is an error iff that is the first violation. -/
theorem eq_error_iff (h : Reports x rules) {e : StructuralError} :
    x = .error e ↔ FirstViolated rules e := by
  cases x with
  | ok a => exact ⟨fun he => (by cases he), fun he => absurd h he.not_forall_kept⟩
  | error e' => exact ⟨fun he => (by cases he; exact h), fun he => congrArg _ (h.unique he)⟩

end Reports

/-- Names that have been seen are those of the earlier items. -/
theorem mem_cons_iff_mem_map_concat {α : Type} {name : α → String} {seen : List String}
    {earlier : List α} (hseen : ∀ n, n ∈ seen ↔ n ∈ earlier.map name) (a : α) :
    ∀ n, n ∈ name a :: seen ↔ n ∈ (earlier ++ [a]).map name := by
  intro n
  rw [List.mem_cons, hseen, List.map_append, List.mem_append, List.map_singleton,
    List.mem_singleton, or_comm]

theorem buildFields_reports (alternative : String) {seen : List String}
    {earlier : List FieldDescription}
    (hseen : ∀ name, name ∈ seen ↔ name ∈ earlier.map (·.name)) (fields : List FieldDescription) :
    Reports (buildFields alternative seen fields)
      (rulesInOrder (FieldDescription.rules alternative) earlier fields) := by
  induction fields generalizing seen earlier with
  | nil => exact .ok []
  | cons f rest ih =>
    have hseen' := mem_cons_iff_mem_map_concat hseen f
    rw [buildFields]
    refine .check (not_congr Name.isIdentifier_iff) _ fun _ => ?_
    refine .check (by simp [Name.isReserved]) _ fun _ => ?_
    refine .check (by rw [ne_eq, not_not, Text.trim_eq_empty_iff]) _ fun _ => ?_
    refine .check (by rw [not_not, ← hseen, List.contains_iff_mem]) _ fun _ => ?_
    exact (ih hseen').map _

theorem buildAlternative_reports (a : AlternativeDescription) :
    Reports (buildAlternative a)
      (⟨Name.DottedPath a.name, .invalidTypeName a.name⟩ :: a.shape.rules a.name) := by
  rw [buildAlternative]
  refine .check (not_congr Name.isQualified_iff) _ fun _ => ?_
  cases a.shape with
  | record fields => exact (buildFields_reports a.name (by simp) fields).map _
  | sum _ => exact .here id
  | other => exact .here id

theorem buildAlternatives_reports (sumType : String) {seen : List String}
    {earlier : List AlternativeDescription}
    (hseen : ∀ name, name ∈ seen ↔ name ∈ earlier.map (·.name))
    (alternatives : List AlternativeDescription) :
    Reports (buildAlternatives sumType seen alternatives)
      (rulesInOrder (AlternativeDescription.rules sumType) earlier alternatives) := by
  induction alternatives generalizing seen earlier with
  | nil => exact .ok []
  | cons a rest ih =>
    have hseen' := mem_cons_iff_mem_map_concat hseen a
    rw [buildAlternatives]
    refine .check (by rw [not_not, ← hseen, List.contains_iff_mem]) _ fun _ => ?_
    exact (buildAlternative_reports a).bind fun _ => (ih hseen').map _

namespace Description

/-- Building agrees with the rules. -/
theorem build_reports (d : Description) : Reports d.build d.rules := by
  rw [build]
  refine .check (not_congr Name.isQualified_iff) _ fun _ => ?_
  refine .check (by simp) _ fun _ => ?_
  refine .check (by simp) _ fun _ => ?_
  exact (buildAlternatives_reports d.name (by simp) d.alternatives).map _

end Description

/-! ## Acceptance -/

/-- The description of an alternative can be accepted: a record under a dotted path, whose fields
have distinct names that are free identifiers, and types. -/
structure AlternativeDescription.Acceptable (a : AlternativeDescription) : Prop where
  name_path : Name.DottedPath a.name
  record : ∃ fields, a.shape = .record fields ∧ (fields.map (·.name)).Nodup ∧
    ∀ f ∈ fields, Name.Identifier f.name ∧ f.name ∉ Name.reservedWords ∧ Text.trim f.type ≠ ""

/-- The description can be accepted: a closed sum of records under distinct names. -/
structure Description.Acceptable (d : Description) : Prop where
  name_path : Name.DottedPath d.name
  closed : d.closed = true
  alternatives_ne_nil : d.alternatives ≠ []
  names_nodup : (d.alternatives.map (·.name)).Nodup
  alternative : ∀ a ∈ d.alternatives, AlternativeDescription.Acceptable a

/-- The alternative has the name and the fields that are described, with their types trimmed. -/
def AlternativeDescription.Describes (a : AlternativeDescription) (b : Alternative) : Prop :=
  b.name = a.name ∧ ∃ fields, a.shape = .record fields ∧
    b.fields = fields.map fun f => ⟨f.name, ⟨Text.trim f.type⟩⟩

theorem FieldDescription.accepted_iff {f : FieldDescription} :
    f.Accepted ↔ Name.Identifier f.name ∧ f.name ∉ Name.reservedWords ∧ Text.trim f.type ≠ "" := by
  rw [Accepted, Name.IsFree, Name.isIdentifier_iff, Name.isReserved, List.contains_iff_mem,
    and_assoc, ne_eq, Text.trim_eq_empty_iff]

theorem AlternativeDescription.exists_builds_iff {a : AlternativeDescription} :
    (∃ b, Builds a b) ↔ Acceptable a := by
  constructor
  · rintro ⟨b, hname, fields, hshape, haccepted, hnodup, -⟩
    exact ⟨Name.isQualified_iff.1 hname, fields, hshape, hnodup,
      fun f hf => FieldDescription.accepted_iff.1 (haccepted f hf)⟩
  · rintro ⟨hname, fields, hshape, hnodup, haccepted⟩
    exact ⟨_, Name.isQualified_iff.2 hname, fields, hshape,
      fun f hf => FieldDescription.accepted_iff.2 (haccepted f hf), hnodup, rfl⟩

theorem exists_forall₂_builds_iff {descriptions : List AlternativeDescription} :
    (∃ alternatives, List.Forall₂ AlternativeDescription.Builds descriptions alternatives) ↔
      ∀ a ∈ descriptions, AlternativeDescription.Acceptable a := by
  induction descriptions with
  | nil => exact ⟨fun _ _ ha => (by cases ha), fun _ => ⟨[], .nil⟩⟩
  | cons a rest ih =>
    rw [List.forall_mem_cons, ← ih, ← AlternativeDescription.exists_builds_iff]
    constructor
    · rintro ⟨_, hbuilds⟩
      cases hbuilds with
      | cons hfirst hothers => exact ⟨⟨_, hfirst⟩, _, hothers⟩
    · rintro ⟨⟨b, hfirst⟩, others, hothers⟩
      exact ⟨b :: others, .cons hfirst hothers⟩

theorem AlternativeDescription.Builds.describes {a : AlternativeDescription} {b : Alternative}
    (h : Builds a b) : Describes a b := by
  obtain ⟨-, fields, hshape, -, -, rfl⟩ := h
  exact ⟨rfl, fields, hshape, rfl⟩

namespace Description

/-- A description has a definition iff it can be accepted. -/
theorem exists_build_eq_ok_iff {description : Description} :
    (∃ d, description.build = .ok d) ↔ description.Acceptable := by
  constructor
  · rintro ⟨d, hd⟩
    obtain ⟨hname, hclosed, hne, hnodup, -, -, hbuilds⟩ := build_eq_ok_iff.1 hd
    exact ⟨Name.isQualified_iff.1 hname, hclosed, hne, hnodup,
      exists_forall₂_builds_iff.1 ⟨_, hbuilds⟩⟩
  · rintro ⟨hname, hclosed, hne, hnodup, hall⟩
    obtain ⟨alternatives, hbuilds⟩ := exists_forall₂_builds_iff.2 hall
    exact ⟨⟨description.name, description.package, alternatives⟩, build_eq_ok_iff.2
      ⟨Name.isQualified_iff.2 hname, hclosed, hne, hnodup, rfl, rfl, hbuilds⟩⟩

/-! ## Longer documents -/

/-- The second description goes on where the first ends: after its last alternative, or after the
last field of that. -/
inductive ContinuedBy : Description → Description → Prop
  | alternatives {d : Description} (hne : d.alternatives ≠ [])
      (more : List AlternativeDescription) :
      ContinuedBy d { d with alternatives := d.alternatives ++ more }
  | fields {d : Description} {before : List AlternativeDescription} {name : String}
      {fields : List FieldDescription} (h : d.alternatives = before ++ [⟨name, .record fields⟩])
      (moreFields : List FieldDescription) (more : List AlternativeDescription) :
      ContinuedBy d
        { d with alternatives := before ++ ⟨name, .record (fields ++ moreFields)⟩ :: more }

end Description

theorem rulesInOrder_append {α : Type} (rules : List α → α → List Rule) (earlier xs ys : List α) :
    rulesInOrder rules earlier (xs ++ ys) =
      rulesInOrder rules earlier xs ++ rulesInOrder rules (earlier ++ xs) ys := by
  induction xs generalizing earlier with
  | nil => rw [List.append_nil]; rfl
  | cons a xs ih =>
    rw [List.cons_append, rulesInOrder, rulesInOrder, ih, List.append_assoc, List.append_assoc]
    rfl

namespace Description

theorem rules_isPrefix {d : Description} {alternatives : List AlternativeDescription}
    (hne : d.alternatives ≠ []) (hne' : alternatives ≠ [])
    (h : rulesInOrder (AlternativeDescription.rules d.name) [] d.alternatives <+:
      rulesInOrder (AlternativeDescription.rules d.name) [] alternatives) :
    d.rules <+: ({ d with alternatives := alternatives } : Description).rules := by
  have hsame : (d.alternatives ≠ []) = (alternatives ≠ []) := propext (iff_of_true hne hne')
  unfold rules
  rw [hsame]
  simpa only [List.prefix_cons_inj] using h

/-- The rules of a description come first among those of a longer one. -/
theorem ContinuedBy.rules_isPrefix {d other : Description} (h : d.ContinuedBy other) :
    d.rules <+: other.rules := by
  cases h with
  | alternatives hne more =>
    refine Description.rules_isPrefix hne (by simp [hne]) ?_
    rw [rulesInOrder_append]
    exact List.prefix_append _ _
  | @fields before name fields h moreFields more =>
    refine Description.rules_isPrefix (by simp [h]) (by simp) ?_
    rw [h, rulesInOrder_append, rulesInOrder_append, List.prefix_append_right_inj, rulesInOrder,
      rulesInOrder, rulesInOrder, List.append_nil]
    refine List.IsPrefix.trans ?_ (List.prefix_append _ _)
    simp only [AlternativeDescription.rules, Shape.rules, List.prefix_cons_inj, rulesInOrder_append]
    exact List.prefix_append _ _

end Description

/-- For every description: it has a definition iff its name is a dotted path, it is closed and has
alternatives, these have distinct dotted paths for names and are records, and the fields of each
have distinct names, which are identifiers and not reserved, and types that are not blank. The
definition keeps name, package, alternatives and fields in their order, with the types trimmed.
Otherwise what is reported is the violation of the first rule that is not kept, in the order of the
document, and it stays the same however the document goes on. -/
theorem validation (description : Description) :
    ((∃ d, description.build = .ok d) ↔ description.Acceptable) ∧
    (∀ d, description.build = .ok d → d.name = description.name ∧ d.package = description.package ∧
      List.Forall₂ AlternativeDescription.Describes description.alternatives d.alternatives) ∧
    (∀ e, description.build = .error e ↔ FirstViolated description.rules e) ∧
    ∀ other e, description.ContinuedBy other → description.build = .error e →
      other.build = .error e := by
  refine ⟨Description.exists_build_eq_ok_iff, fun d hd => ?_,
    fun e => description.build_reports.eq_error_iff, fun other e hother he => ?_⟩
  · obtain ⟨-, -, -, -, hname, hpackage, hbuilds⟩ := Description.build_eq_ok_iff.1 hd
    exact ⟨hname, hpackage, hbuilds.imp fun _ _ => AlternativeDescription.Builds.describes⟩
  · obtain ⟨more, hrules⟩ := hother.rules_isPrefix
    rw [other.build_reports.eq_error_iff, ← hrules]
    exact (description.build_reports.eq_error_iff.1 he).append_left more

/-- A pair of which one field has the name of the other, and no type. -/
def untypedPair : Description :=
  { name := "a.Pair", package := none, closed := true
    alternatives := [⟨"a.Pair.Both", .record [⟨"x", "int"⟩, ⟨"x", " "⟩]⟩] }

/-- That the type is missing comes before the repeated name, a reserved one and an alternative that
is no record. -/
theorem validation_untypedPair :
    FirstViolated untypedPair.rules (.notAProduct "a.Pair.Both" (.noType "x")) ∧
      ({ untypedPair with alternatives :=
        [⟨"a.Pair.Both", .record [⟨"x", "int"⟩, ⟨"x", " "⟩, ⟨"class", "int"⟩]⟩,
          ⟨"9", .other⟩] } : Description).build =
        .error (.notAProduct "a.Pair.Both" (.noType "x")) := by
  have hbuild : untypedPair.build = .error (.notAProduct "a.Pair.Both" (.noType "x")) := by
    decide
  obtain ⟨-, -, hfirst, hcontinued⟩ := validation untypedPair
  have hother : untypedPair.ContinuedBy { untypedPair with alternatives :=
      [] ++ ⟨"a.Pair.Both", .record ([⟨"x", "int"⟩, ⟨"x", " "⟩] ++ [⟨"class", "int"⟩])⟩ ::
        [⟨"9", .other⟩] } := .fields rfl _ _
  exact ⟨(hfirst _).1 hbuild, hcontinued _ _ hother hbuild⟩

end WideRow
