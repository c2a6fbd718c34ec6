import WideRow.Proofs.Delivery

/-!
# Where the file of an adapter lies

The folders on the way to the file of an adapter are the pieces of its package between dots and
slashes. Two points in a row leave no piece, so no piece leads upwards, and the path of the adapter
added to that of a folder leads on from there. A segment of the package that begins at the root takes
the place of all that stands in front of it, the given folder included. A package of plain segments is
spelled by its folders.

Main definitions:
* `packageNames`: the folders of a package;
* `StaysRelative`: no segment of a package begins at the root.

Results:
* `Adapter.Placed.relative_and_names`: the names on the path of an adapter;
* `intercalate_packageNames_eq_iff`: the packages that are spelled by their folders;
* `Adapter.Placed.isAbsolute_iff`: the adapters whose path begins at the root;
* `adapters_lie_below_root`: the path of an adapter from the folder it is added to;
* `packages_not_spelled_by_folders`: a package with other folders;
* `absolute_path_leaves_root`: an adapter that no folder holds.
-/

namespace WideRow

open Files (Store)
open Files.Path

/-! ## Names on a path -/

namespace Files.Path

/-- A relative path adds its names to those of the path in front. -/
theorem names_pushPath (path : String) {piece : String} (h : isAbsolute piece = false) :
    names (pushPath path piece) = names path ++ names piece := by
  by_cases hpath : path = ""
  · subst hpath
    have hpush : pushPath "" piece = piece := by
      rw [pushPath_of_relative h]
      simp
    rw [hpush]
    rfl
  · obtain ⟨front, hpush, hfront⟩ := pieces_pushPath h hpath
    rw [names, hpush, List.filter_append, names, names]
    rcases hfront with hfront | ⟨hfront, -⟩
    · rw [hfront]
    · rw [hfront, List.filter_append]
      simp

theorem isAbsolute_foldl_pushPath (pieces : List String) (path : String) :
    isAbsolute (pieces.foldl pushPath path) = (isAbsolute path || pieces.any isAbsolute) := by
  induction pieces generalizing path with
  | nil => rw [List.foldl_nil, List.any_nil, Bool.or_false]
  | cons piece pieces ih =>
    rw [List.foldl_cons, ih, isAbsolute_pushPath, List.any_cons, Bool.or_assoc]

/-- Relative paths added one after the other add all their names. -/
theorem names_foldl_pushPath {pieces : List String} (h : ∀ piece ∈ pieces, isAbsolute piece = false)
    (path : String) :
    names (pieces.foldl pushPath path) = names path ++ pieces.flatMap names := by
  induction pieces generalizing path with
  | nil => simp
  | cons piece pieces ih =>
    rw [List.forall_mem_cons] at h
    rw [List.foldl_cons, ih h.2, names_pushPath path h.1, List.flatMap_cons, List.append_assoc]

end Files.Path

/-! ## Folders of a package -/

/-- The folders of a package: the pieces between its dots and slashes that are not empty. -/
def packageNames (package : String) : List String :=
  (Name.segments package).flatMap fun w => names (String.ofList w)

/-- No segment of the package begins at the root. -/
def StaysRelative (package : String) : Prop :=
  ∀ w ∈ Name.segments package, isAbsolute (String.ofList w) = false

theorem isAbsolute_packageFolder (package : String) :
    isAbsolute (packageFolder package) ↔ ¬ StaysRelative package := by
  -- an empty segment, which gets no folder, does not begin at the root
  have hempty : isAbsolute (String.ofList []) = false := rfl
  rw [packageFolder, isAbsolute_foldl_pushPath, show isAbsolute "" = false from rfl, Bool.false_or,
    List.any_map, List.any_filter, List.any_eq_true, StaysRelative]
  constructor
  · rintro ⟨w, hw, hfound⟩ hstays
    simp [hstays w hw] at hfound
  · intro hleaves
    push Not at hleaves
    obtain ⟨w, hw, habsolute⟩ := hleaves
    refine ⟨w, hw, ?_⟩
    cases w with
    | nil => exact absurd hempty habsolute
    | cons c w => simpa using habsolute

theorem names_packageFolder {package : String} (h : StaysRelative package) :
    names (packageFolder package) = packageNames package := by
  have hpieces : ∀ piece ∈ ((Name.segments package).filter (!·.isEmpty)).map String.ofList,
      isAbsolute piece = false := by
    rw [List.forall_mem_map]
    exact fun w hw => h w (List.mem_filter.1 hw).1
  -- an empty segment has no names
  have hfilter : ∀ segments : List (List Char),
      ((segments.filter (!·.isEmpty)).map String.ofList).flatMap names =
        segments.flatMap fun w => names (String.ofList w) := by
    intro segments
    induction segments with
    | nil => rfl
    | cons w segments ih =>
      cases w with
      | nil => exact ih
      | cons c w => exact congrArg (names (String.ofList (c :: w)) ++ ·) ih
  rw [packageFolder, names_foldl_pushPath hpieces, hfilter]
  rfl

theorem mem_packageNames {package piece : String} (h : piece ∈ packageNames package) :
    piece ≠ "" ∧ '/' ∉ piece.toList ∧ '.' ∉ piece.toList := by
  obtain ⟨w, hw, hpiece⟩ := List.mem_flatMap.1 h
  obtain ⟨hpiece, hnonempty⟩ := List.mem_filter.1 hpiece
  refine ⟨by simpa using hnonempty, fun hslash => ?_, fun hdot => ?_⟩
  · obtain ⟨v, hv, rfl⟩ := List.mem_map.1 hpiece
    rw [String.toList_ofList] at hslash
    exact (mem_of_mem_splitOn hv hslash).2 rfl
  · have hmem := mem_of_mem_pieces hpiece hdot
    rw [String.toList_ofList] at hmem
    exact (mem_of_mem_splitOn hw hmem).2 rfl

/-- A package is spelled by its folders, with dots between them, iff it has no slash and no empty
segment. -/
theorem intercalate_packageNames_eq_iff {package : String} (hpackage : package ≠ "") :
    String.intercalate "." (packageNames package) = package ↔
      ∀ w ∈ Name.segments package, w ≠ [] ∧ '/' ∉ w := by
  constructor
  · intro hspelled
    have hne : packageNames package ≠ [] := by
      intro hnil
      rw [hnil, String.intercalate_nil] at hspelled
      exact hpackage hspelled.symm
    have hsegments := Name.segments_intercalate hne fun piece hpiece =>
      (mem_packageNames hpiece).2.2
    rw [hspelled] at hsegments
    intro w hw
    rw [hsegments] at hw
    obtain ⟨piece, hpiece, rfl⟩ := List.mem_map.1 hw
    have hplain := mem_packageNames hpiece
    exact ⟨fun hnil => hplain.1 (String.toList_eq_nil_iff.1 hnil), hplain.2.1⟩
  · intro hplain
    have hnames : packageNames package = (Name.segments package).map String.ofList := by
      rw [packageNames, List.map_eq_flatMap]
      refine List.flatMap_congr fun w hw => ?_
      obtain ⟨hne, hslash⟩ := hplain w hw
      rw [names, pieces_of_slash_notMem (by rwa [String.toList_ofList])]
      simp [hne]
    rw [hnames, Name.intercalate_map_segments]

/-- A dotted path of identifiers has plain segments. -/
theorem Name.plain_of_isQualified {package : String} (h : Name.isQualified package) :
    ∀ w ∈ Name.segments package, w ≠ [] ∧ '/' ∉ w := by
  intro w hw
  have hname := Name.isName_of_isIdentifierChars (List.all_eq_true.1 h w hw)
  refine ⟨?_, by simpa using hname.slash_notMem⟩
  rintro rfl
  exact hname.ne_empty rfl

/-- The package in which a sum type lies is a dotted path of identifiers, unless it is empty. -/
theorem Name.isQualified_inferPackage {sumType : String} (h : Name.isQualified sumType)
    (hpackage : Name.inferPackage sumType ≠ "") : Name.isQualified (Name.inferPackage sumType) := by
  unfold Name.inferPackage at hpackage ⊢
  have hfront := List.takeWhile_subset (fun seg => !startsUppercase seg) (l := segments sumType)
  generalize (segments sumType).takeWhile (fun seg => !startsUppercase seg) = front at hfront hpackage ⊢
  have hidentifier : ∀ w ∈ front, Name.isIdentifierChars w := fun w hw =>
    List.all_eq_true.1 h w (hfront hw)
  have hne : front.map String.ofList ≠ [] := by
    rintro hnil
    rw [hnil, String.intercalate_nil] at hpackage
    exact hpackage rfl
  have hsegments := Name.segments_intercalate hne (by
    rw [List.forall_mem_map]
    intro w hw
    rw [String.toList_ofList]
    exact dot_notMem_identifier (hidentifier w hw))
  rw [Name.isQualified, hsegments, List.map_map, List.all_map]
  exact List.all_eq_true.2 fun w hw => by simpa using hidentifier w hw

/-! ## Adapters -/

section Adapters

variable {description : Description} {t : Template} {options : Options} {a : Adapter}

/-- What is generated has the names of its sum type, and a package that is not empty. -/
theorem generate_eq_ok (h : (generate description t options).outcome = .ok a) :
    a.Placed ∧ fileNameOf a.sumType = a.typeName ++ ".java" ∧ a.package ≠ "" ∧
      (description.package = none → options.package = none →
        Name.isQualified description.name ∧ a.package = Name.inferPackage description.name) := by
  have hmem : .ok a ∈ generateAll [description] t options :=
    List.mem_map.2 ⟨description, List.mem_singleton_self description, h⟩
  have hplaced := placed_of_mem_generateAll hmem
  obtain ⟨p, hp, rfl⟩ := prepare_of_generate_eq_ok h
  obtain ⟨hbuild, -, hnaming⟩ := prepare_eq_ok hp
  obtain ⟨hname, -, -, -, hsame, hpackage, -⟩ := Description.build_eq_ok_iff.1 hbuild
  have hn := Naming.of?_eq_ok hnaming
  dsimp only [Preparation.adapter] at hplaced ⊢
  refine ⟨hplaced, by rw [hn, fileNameOf], ?_, fun hnone hrequested => ⟨hname, ?_⟩⟩
  · intro hempty
    have hblank : Naming.packageOf p.definition options.package = "" := by
      rw [hn] at hempty
      exact hempty
    rw [Naming.of?, hblank] at hnaming
    cases hnaming
  · rw [hn, hrequested]
    dsimp only [Naming.packageOf]
    rw [hpackage, hnone, hsame]
    rfl

namespace Adapter

/-- The path of an adapter begins at the root iff a segment of its package does. -/
theorem Placed.isAbsolute_iff (h : a.Placed) :
    isAbsolute a.relativePath ↔ ¬ StaysRelative a.package := by
  have hfile := isAbsolute_eq_false_of_slash_notMem h.isName.slash_notMem
  rw [h.relativePath_eq, isAbsolute_pushPath, hfile, Bool.or_false]
  exact isAbsolute_packageFolder a.package

/-- The path of an adapter is relative and has the folders of its package and the file on it. -/
theorem Placed.relative_and_names (h : a.Placed) (hpackage : StaysRelative a.package) :
    isAbsolute a.relativePath = false ∧
      names a.relativePath = packageNames a.package ++ [fileNameOf a.sumType] := by
  refine ⟨?_, ?_⟩
  · rw [← Bool.not_eq_true, h.isAbsolute_iff, not_not]
    exact hpackage
  · have hfile := isAbsolute_eq_false_of_slash_notMem h.isName.slash_notMem
    rw [h.relativePath_eq, names_pushPath _ hfile, names_packageFolder hpackage,
      names_of_isName h.isName]

end Adapter

end Adapters

/-- If no segment of its package begins at the root, the path of an adapter is relative: the names of
the folders of its package and that of the file. Added to the path of any folder, it leads on from
there by these names, none of which leads upwards. The package is spelled by its folders, with dots
between them, iff it has no slash and no empty segment, as is the case for dotted paths of identifiers
and for the package in which the sum type lies. -/
theorem adapters_lie_below_root {description : Description} {t : Template} {options : Options}
    {a : Adapter} (h : (generate description t options).outcome = .ok a)
    (hpackage : StaysRelative a.package) :
    isAbsolute a.relativePath = false ∧
    components a.relativePath = (packageNames a.package ++ [a.typeName ++ ".java"]).map .name ∧
    (∀ root, components (pushPath root a.relativePath) =
      components root ++ (packageNames a.package ++ [a.typeName ++ ".java"]).map .name) ∧
    (String.intercalate "." (packageNames a.package) = a.package ↔
      ∀ w ∈ Name.segments a.package, w ≠ [] ∧ '/' ∉ w) ∧
    (Name.isQualified a.package ∨ description.package = none ∧ options.package = none →
      String.intercalate "." (packageNames a.package) = a.package) := by
  obtain ⟨hplaced, hfile, hnonempty, hinferred⟩ := generate_eq_ok h
  obtain ⟨hrelative, hnames⟩ := hplaced.relative_and_names hpackage
  rw [hfile] at hnames
  have hdirect := hplaced.isDirect
  have hspelled := intercalate_packageNames_eq_iff hnonempty
  refine ⟨hrelative, ?_, fun root => ?_, hspelled, fun hqualified => ?_⟩
  · rw [hdirect.components_eq, hrelative, hnames]
    rfl
  · rw [hdirect.components_pushPath root hrelative, hnames]
  · refine hspelled.2 (Name.plain_of_isQualified (hqualified.elim id fun hnone => ?_))
    obtain ⟨hname, hsame⟩ := hinferred hnone.1 hnone.2
    rw [hsame] at hnonempty ⊢
    exact Name.isQualified_inferPackage hname hnonempty

/-- The adapter of a range in the package `com.acme`, below the folder `out`. -/
theorem adapters_lie_below_root_range :
    ∃ a : Adapter,
      (generate (rangeNamed "com.acme.Range") bareTemplate ⟨false, none, false⟩).outcome = .ok a ∧
      StaysRelative a.package ∧ isAbsolute a.relativePath = false ∧
      components (pushPath "out" a.relativePath) =
        ["out", "com", "acme", "RangeCompositeUserType.java"].map .name ∧
      String.intercalate "." (packageNames a.package) = a.package := by
  have hbuild : (rangeNamed "com.acme.Range").build = .ok (rangeDefinition "com.acme.Range") := by
    decide
  have hnaming : Naming.of? (rangeDefinition "com.acme.Range") none =
      .ok (rangeNaming "com.acme.Range") :=
    rfl
  obtain ⟨a, ha, hpackage, htype, -⟩ := generate_rangeNamed_of_naming bareTemplate hbuild hnaming
  have hfolder : a.package = "com.acme" := hpackage.trans (by decide +kernel)
  have hstays : StaysRelative a.package := by
    rw [hfolder]
    unfold StaysRelative
    decide
  obtain ⟨hrelative, -, hbelow, -, hspelled⟩ := adapters_lie_below_root ha hstays
  refine ⟨a, ha, hstays, hrelative, ?_, hspelled (.inr ⟨rfl, rfl⟩)⟩
  rw [hbelow, hfolder, htype]
  decide +kernel

/-- Two points in a row leave no folder between them, so the folders spell another package. -/
theorem packages_not_spelled_by_folders :
    ∃ a : Adapter,
      (generate (rangeNamed "com.acme.Range") bareTemplate
        ⟨false, some "com..acme", false⟩).outcome = .ok a ∧
      ¬ ∃ folders : List String,
        components a.relativePath = (folders ++ [a.typeName ++ ".java"]).map .name ∧
        String.intercalate "." folders = a.package := by
  have hnaming : Naming.of? (rangeDefinition "com.acme.Range") (some "com..acme") =
      .ok { rangeNaming "com.acme.Range" with package := "com..acme" } :=
    rfl
  obtain ⟨a, ha, hpackage, htype, hpath⟩ := generate_rangeNamed_of_naming bareTemplate (by decide) hnaming
  refine ⟨a, ha, ?_⟩
  rintro ⟨folders, hcomponents, hspelled⟩
  have hfolders : components a.relativePath =
      (["com", "acme"] ++ [a.typeName ++ ".java"]).map .name := by
    rw [hpath, htype]
    decide +kernel
  have hname : Function.Injective Component.name := fun _ _ => Component.name.inj
  rw [hcomponents, hname.list_map.eq_iff, List.append_cancel_right_eq] at hfolders
  rw [hfolders, hpackage] at hspelled
  exact absurd hspelled (by decide +kernel)

/-- If a segment of its package begins at the root, so does the path of an adapter, and added to the
path of any folder it stays as it is: the folder does not hold the file. -/
theorem absolute_path_leaves_root {description : Description} {t : Template} {options : Options}
    {a : Adapter} (h : (generate description t options).outcome = .ok a)
    (hpackage : ¬ StaysRelative a.package) :
    isAbsolute a.relativePath ∧ ∀ root, pushPath root a.relativePath = a.relativePath := by
  obtain ⟨hplaced, -⟩ := generate_eq_ok h
  have habsolute := hplaced.isAbsolute_iff.2 hpackage
  exact ⟨habsolute, fun root => pushPath_of_absolute root habsolute⟩

-- a package that the command line may be given
example : ¬ StaysRelative "/srv" := by
  unfold StaysRelative
  decide

end WideRow
