import Mathlib.Tactic.SplitIfs
import WideRow.Adapter.Emission
import WideRow.Proofs.Text.Lines
import WideRow.Proofs.WellFormed

/-!
# Names in adapters

The characters of dotted names, their last segments, and the pattern variables made from these. A
pattern variable is an identifier that nothing else in the body of a method is called: where the
decapitalized name of an alternative is taken, one underscore behind it is always enough.

Main definitions:
* `IsPatternVariable`: the names that a pattern variable can have;
* `IsAlternativeName`: the names that built definitions give to alternatives.

Results:
* `Name.isInner_of_mem`: the characters of a dotted path;
* `Name.isIdentifier_simpleName`: the last segment of a dotted path is an identifier;
* `isPatternVariable_append_underscore`: what an underscore does;
* `isPatternVariable_localName`: what a pattern variable is called;
* `pattern_variables_legal`: the pattern variables of all names that alternatives can have.
-/

namespace WideRow

/-! ## Dotted paths -/

namespace Name

/-- A dotted path has no characters but dots and those of identifiers. -/
theorem isInner_of_mem {s : String} (h : isQualified s) {c : Char} (hc : c ∈ s.toList) :
    c = '.' ∨ isInner c := by
  rw [← intercalate_map_segments s] at hc
  rcases Text.mem_of_mem_intercalate hc with hdot | ⟨part, hpart, hmem⟩
  · exact .inl (List.mem_singleton.1 hdot)
  · obtain ⟨w, hw, rfl⟩ := List.mem_map.1 hpart
    rw [String.toList_ofList] at hmem
    exact .inr (isInner_of_mem_identifier (List.all_eq_true.1 h w hw) hmem)

theorem lastSegment_append_dot (cs ds : List Char) :
    lastSegment (cs ++ '.' :: ds) = lastSegment ds := by
  have hstop : ('.' :: cs.reverse).takeWhile (· != '.') = [] := by
    rw [List.takeWhile_cons, if_neg (by decide)]
  have hreverse : (cs ++ '.' :: ds).reverse = ds.reverse ++ '.' :: cs.reverse := by
    simp
  rw [lastSegment, hreverse, List.takeWhile_append, hstop, List.append_nil, lastSegment]
  split_ifs with hall
  · rw [(List.takeWhile_prefix _).eq_of_length hall]
  · rfl

/-- The last segment of a dotted path is an identifier. -/
theorem isIdentifier_simpleName {s : String} (h : isQualified s) : isIdentifier (simpleName s) := by
  have hsegments : ∀ segments : List (List Char), segments ≠ [] →
      (∀ w ∈ segments, isIdentifierChars w) →
      isIdentifierChars (lastSegment (['.'].intercalate segments)) := by
    intro segments hne hall
    induction segments with
    | nil => exact absurd rfl hne
    | cons w rest ih =>
      rw [List.forall_mem_cons] at hall
      cases rest with
      | nil =>
        rw [List.intercalate_singleton, ← List.nil_append w,
          lastSegment_append _ (dot_notMem_identifier hall.1)]
        exact hall.1
      | cons v rest =>
        rw [List.intercalate_cons_cons, List.append_assoc, List.singleton_append,
          lastSegment_append_dot]
        exact ih (List.cons_ne_nil _ _) hall.2
  have hlast := hsegments (segments s) (segments_ne_nil s) (List.all_eq_true.1 h)
  rw [intercalate_segments] at hlast
  rwa [isIdentifier, simpleName, String.toList_ofList]

end Name

/-! ## Lower case -/

theorem Name.toNat_lt_of_isInitial {c : Char} (h : Name.isInitial c) : c.toNat < 0x80 := by
  rw [Name.isInitial, Bool.or_eq_true, Bool.or_eq_true, beq_iff_eq, beq_iff_eq] at h
  rcases h with (hletter | rfl) | rfl
  · rcases Bool.or_eq_true_iff.1 hletter with hupper | hlower
    · have hle : c.val ≤ 90 := (of_decide_eq_true hupper).2
      exact Nat.lt_of_le_of_lt (UInt32.le_iff_toNat_le.1 hle) (by decide)
    · have hle : c.val ≤ 122 := of_decide_eq_true (Bool.and_eq_true_iff.1 hlower).2
      exact Nat.lt_of_le_of_lt (UInt32.le_iff_toNat_le.1 hle) (by decide)
  · decide
  · decide

theorem Name.isInitial_toLower {c : Char} (h : Name.isInitial c) : Name.isInitial c.toLower := by
  have hlower : ∀ n < 0x80, Name.isInitial (Char.ofNat n) →
      Name.isInitial (Char.ofNat n).toLower := by
    decide
  have hc := hlower c.toNat (Name.toNat_lt_of_isInitial h)
  rw [Char.ofNat_toNat] at hc
  exact hc h

/-- The characters that can begin an identifier are those below U+0080 that can, so a lower case
letter is one character. -/
theorem decapitalized_cons {c : Char} (h : Name.isInitial c) (rest : List Char) :
    decapitalized (c :: rest) = String.ofList (c.toLower :: rest) := by
  rw [decapitalized, Text.lowercase_ascii (Name.toNat_lt_of_isInitial h), List.singleton_append]

theorem isIdentifier_decapitalized {cs : List Char} (h : Name.isIdentifierChars cs) :
    Name.isIdentifier (decapitalized cs) := by
  cases cs with
  | nil => cases h
  | cons c rest =>
    obtain ⟨hc, hrest⟩ := Bool.and_eq_true_iff.1 h
    rw [decapitalized_cons hc, Name.isIdentifier, String.toList_ofList, Name.isIdentifierChars,
      Name.isInitial_toLower hc, hrest]
    rfl

/-! ## Pattern variables -/

/-- A name that a pattern variable can have: it is not empty, an identifier, no reserved word or
literal of the language, and not to be avoided. -/
structure IsPatternVariable (name : String) : Prop where
  ne_empty : name ≠ ""
  free : Name.IsFree name
  not_avoided : name ∉ avoidedNames

theorem ne_empty_of_isIdentifier {name : String} (h : Name.isIdentifier name) : name ≠ "" := by
  rintro rfl
  revert h
  decide

/-- Identifiers that are not taken are the names of pattern variables. -/
theorem isPatternVariable_iff {name : String} (h : Name.isIdentifier name) :
    IsPatternVariable name ↔ ¬ (Name.isReserved name || avoidedNames.contains name) := by
  rw [Bool.or_eq_true, not_or, List.contains_iff_mem]
  constructor
  · intro hvariable
    exact ⟨hvariable.free.2, hvariable.not_avoided⟩
  · rintro ⟨hreserved, havoided⟩
    exact ⟨ne_empty_of_isIdentifier h, ⟨h, hreserved⟩, havoided⟩

/-- A name with an underscore at its end is none of some names that have none there. -/
theorem append_underscore_notMem {names : List String}
    (h : names.all fun w => w.toList.getLast? ≠ some '_' || w = "_") {name : String}
    (hname : name ≠ "") : name ++ "_" ∉ names := by
  intro hmem
  have hw := List.all_eq_true.1 h _ hmem
  have hlast : (name ++ "_").toList.getLast? = some '_' := by
    rw [String.toList_append]
    exact List.getLast?_concat
  have hunderscore : name ++ "_" = "_" := by
    simpa [hlast] using hw
  have hlength := congrArg String.length hunderscore
  rw [String.length_append] at hlength
  exact hname (String.length_eq_zero_iff.1 (by simpa using hlength))

theorem isIdentifier_append_underscore {name : String} (h : Name.isIdentifier name) :
    Name.isIdentifier (name ++ "_") := by
  rw [Name.isIdentifier, String.toList_append]
  rw [Name.isIdentifier] at h
  cases hcs : name.toList with
  | nil =>
    rw [hcs] at h
    cases h
  | cons c rest =>
    rw [hcs] at h
    obtain ⟨hc, hrest⟩ := Bool.and_eq_true_iff.1 h
    rw [List.cons_append, Name.isIdentifierChars, hc, List.all_append, hrest]
    decide

/-- With an underscore behind it every identifier can be a pattern variable, as no word that is
taken ends in an underscore and has something before it. -/
theorem isPatternVariable_append_underscore {name : String} (h : Name.isIdentifier name) :
    IsPatternVariable (name ++ "_") := by
  have hne := ne_empty_of_isIdentifier h
  have hidentifier := isIdentifier_append_underscore h
  have hreserved : ¬ Name.isReserved (name ++ "_") := by
    unfold Name.isReserved
    rw [List.contains_iff_mem]
    exact append_underscore_notMem (by decide) hne
  have havoided : name ++ "_" ∉ avoidedNames := append_underscore_notMem (by decide) hne
  exact ⟨ne_empty_of_isIdentifier hidentifier, ⟨hidentifier, hreserved⟩, havoided⟩

section LocalName

variable {alternative : String}

theorem isPatternVariable_localName (h : Name.isQualified alternative) :
    IsPatternVariable (localName alternative) := by
  have hname := isIdentifier_decapitalized (Name.isIdentifier_simpleName h)
  unfold localName
  dsimp only
  split_ifs with htaken
  · exact isPatternVariable_append_underscore hname
  · exact (isPatternVariable_iff hname).2 htaken

/-- A pattern variable is an identifier that is not reserved. -/
theorem isFree_localName (h : Name.isQualified alternative) :
    Name.IsFree (localName alternative) :=
  (isPatternVariable_localName h).free

/-- A pattern variable has none of the names to avoid. -/
theorem localName_notMem_avoidedNames (h : Name.isQualified alternative) :
    localName alternative ∉ avoidedNames :=
  (isPatternVariable_localName h).not_avoided

end LocalName

/-! ## Names of alternatives -/

/-- Some built definition has an alternative of the name. -/
def IsAlternativeName (name : String) : Prop :=
  ∃ (description : Description) (d : Definition),
    description.build = .ok d ∧ ∃ a ∈ d.alternatives, a.name = name

/-- Every dotted path of identifiers can name an alternative, and nothing else can. -/
theorem isAlternativeName_iff {name : String} :
    IsAlternativeName name ↔ Name.isQualified name := by
  constructor
  · rintro ⟨description, d, hbuild, a, ha, rfl⟩
    exact ((Description.build_wellFormed hbuild).alternative_wellFormed a ha).name_qualified
  · intro hname
    let alternative : AlternativeDescription := ⟨name, .record []⟩
    have hbuilds : alternative.Builds ⟨name, []⟩ := ⟨hname, [], rfl, by simp, .nil, rfl⟩
    refine ⟨⟨name, none, true, [alternative]⟩, ⟨name, none, [⟨name, []⟩]⟩, ?_, _,
      List.mem_singleton_self _, rfl⟩
    rw [Description.build_eq_ok_iff]
    exact ⟨hname, rfl, by simp, by simp, rfl, rfl, .cons hbuilds .nil⟩

/-- The names of alternatives are the dotted paths of identifiers. For each of them, the pattern
variable has a name that it can have: the last segment with its first letter in lower case, if a
pattern variable can have that, and otherwise the same with one underscore behind it. -/
theorem pattern_variables_legal (name : String) :
    (IsAlternativeName name ↔ Name.isQualified name) ∧
      (IsAlternativeName name → IsPatternVariable (localName name) ∧
        ∃ (first : Char) (rest : List Char), (Name.simpleName name).toList = first :: rest ∧
          (IsPatternVariable (String.ofList (first.toLower :: rest)) →
            localName name = String.ofList (first.toLower :: rest)) ∧
          (¬ IsPatternVariable (String.ofList (first.toLower :: rest)) →
            localName name = String.ofList (first.toLower :: rest) ++ "_")) := by
  refine ⟨isAlternativeName_iff, ?_⟩
  intro halternative
  have hqualified := isAlternativeName_iff.1 halternative
  refine ⟨isPatternVariable_localName hqualified, ?_⟩
  have hsimple : Name.isIdentifierChars (Name.simpleName name).toList :=
    Name.isIdentifier_simpleName hqualified
  cases hchars : (Name.simpleName name).toList with
  | nil =>
    rw [hchars] at hsimple
    cases hsimple
  | cons first rest =>
    rw [hchars] at hsimple
    have hfirst : Name.isInitial first := (Bool.and_eq_true_iff.1 hsimple).1
    have hname := decapitalized_cons hfirst rest
    have hidentifier := isIdentifier_decapitalized hsimple
    rw [hname] at hidentifier
    refine ⟨first, rest, rfl, ?_, ?_⟩
    · intro hvariable
      unfold localName
      rw [hchars, hname]
      exact if_neg ((isPatternVariable_iff hidentifier).1 hvariable)
    · intro hnot
      rw [isPatternVariable_iff hidentifier, not_not] at hnot
      unfold localName
      rw [hchars, hname]
      exact if_pos hnot

theorem pattern_variables_legal_default :
    IsAlternativeName "com.acme.Shape.Default" ∧
      IsPatternVariable (localName "com.acme.Shape.Default") ∧
      localName "com.acme.Shape.Default" = "default_" := by
  have hname : IsAlternativeName "com.acme.Shape.Default" := by
    rw [isAlternativeName_iff]
    decide
  obtain ⟨hvariable, first, rest, hchars, -, htaken⟩ :=
    (pattern_variables_legal "com.acme.Shape.Default").2 hname
  have hsimple : (Name.simpleName "com.acme.Shape.Default").toList = 'D' :: "efault".toList := by
    decide
  obtain ⟨rfl, rfl⟩ := List.cons.inj (hsimple.symm.trans hchars)
  have hreserved : Name.isReserved (String.ofList ('D'.toLower :: "efault".toList)) := by
    decide
  exact ⟨hname, hvariable, htaken fun h => h.free.2 hreserved⟩

end WideRow
