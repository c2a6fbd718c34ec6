import Mathlib.Tactic.SplitIfs
import WideRow.Files.Path
import WideRow.Proofs.Adapter.Names

/-!
# Paths with a name added

A path to which a name is added has the parts of the path and the name. So paths that are made of a
folder and the name of a file in it are the same iff both folders and names are.

Main definitions:
* `Path.IsName`: a piece that names a file or a folder;
* `Path.IsDirect`: a path without points, which leads down from where it begins;
* `packageFolder`: the folder of a package.

Results:
* `Path.components_pushPath`: the parts of a path with a name added;
* `Path.IsDirect.components_eq`: the parts of a direct path are the names on it;
* `components_packageFolder`: the folder of a dotted path of identifiers has its segments for parts.
-/

namespace WideRow

namespace Files.Path

/-! ## Pieces -/

/-- The piece names a file or a folder. -/
structure IsName (piece : String) : Prop where
  slash_notMem : '/' ∉ piece.toList
  ne_empty : piece ≠ ""
  ne_here : piece ≠ "."
  ne_above : piece ≠ ".."

instance (piece : String) : Decidable (IsName piece) :=
  decidable_of_iff ('/' ∉ piece.toList ∧ piece ≠ "" ∧ piece ≠ "." ∧ piece ≠ "..")
    ⟨fun ⟨hs, he, hh, ha⟩ => ⟨hs, he, hh, ha⟩, fun ⟨hs, he, hh, ha⟩ => ⟨hs, he, hh, ha⟩⟩

theorem pieces_ne_nil (path : String) : pieces path ≠ [] := by
  simp [pieces]

theorem pieces_of_slash_notMem {piece : String} (h : '/' ∉ piece.toList) :
    pieces piece = [piece] := by
  rw [pieces, List.splitOn_eq_singleton h, List.map_singleton, String.ofList_toList]

/-- What stands between separators comes from the list and holds no separator. -/
theorem mem_of_mem_splitOn {a : Char} {l w : List Char} (h : w ∈ l.splitOn a) {c : Char}
    (hc : c ∈ w) : c ∈ l ∧ c ≠ a := by
  induction l generalizing w with
  | nil =>
    rw [List.splitOn_nil, List.mem_singleton] at h
    subst h
    cases hc
  | cons b l ih =>
    rw [List.splitOn, List.splitOnP_cons_eq_if_modifyHead, ← List.splitOn] at h
    split_ifs at h with hb
    · rcases List.mem_cons.1 h with rfl | h
      · cases hc
      · exact ⟨List.mem_cons_of_mem _ (ih h hc).1, (ih h hc).2⟩
    · cases hsplit : l.splitOn a with
      | nil => exact absurd hsplit (List.splitOn_ne_nil _ _)
      | cons v rest =>
        rw [hsplit, List.modifyHead_cons] at h
        rw [hsplit] at ih
        rcases List.mem_cons.1 h with rfl | h
        · rcases List.mem_cons.1 hc with rfl | hc
          · exact ⟨List.mem_cons_self, by simpa using hb⟩
          · have hv := ih List.mem_cons_self hc
            exact ⟨List.mem_cons_of_mem _ hv.1, hv.2⟩
        · have hw := ih (List.mem_cons_of_mem _ h) hc
          exact ⟨List.mem_cons_of_mem _ hw.1, hw.2⟩

theorem mem_of_mem_pieces {path piece : String} (h : piece ∈ pieces path) {c : Char}
    (hc : c ∈ piece.toList) : c ∈ path.toList := by
  obtain ⟨w, hw, rfl⟩ := List.mem_map.1 h
  rw [String.toList_ofList] at hc
  exact (mem_of_mem_splitOn hw hc).1

/-- A slash ends a piece. -/
theorem pieces_append_slash (front back : String) :
    pieces (front ++ "/" ++ back) = pieces front ++ pieces back := by
  have hslash : (front ++ "/" ++ back).toList = front.toList ++ '/' :: back.toList := by
    simp
  rw [pieces, hslash, List.splitOn_append_cons_self, List.map_append, pieces, pieces]

theorem pieces_eq_singleton_empty_iff {path : String} : pieces path = [""] ↔ path = "" := by
  constructor
  · intro h
    have hchars : path.toList.splitOn '/' = [[]] := by
      cases hsplit : path.toList.splitOn '/' with
      | nil => exact absurd hsplit (List.splitOn_ne_nil _ _)
      | cons cs rest => simpa [pieces, hsplit] using h
    have hjoin : ['/'].intercalate (path.toList.splitOn '/') = path.toList :=
      List.intercalate_splitOn '/'
    rw [hchars] at hjoin
    exact String.toList_eq_nil_iff.1 hjoin.symm
  · rintro rfl
    decide

theorem isAbsolute_eq_false_of_slash_notMem {piece : String} (h : '/' ∉ piece.toList) :
    isAbsolute piece = false := by
  rw [isAbsolute, beq_eq_false_iff_ne]
  exact fun hhead => h (List.mem_of_head? hhead)

theorem pushPath_of_relative {path piece : String} (h : isAbsolute piece = false) :
    pushPath path piece =
      if path.isEmpty || path.endsWith "/" then path ++ piece else path ++ "/" ++ piece := by
  have hstart : ¬ piece.startsWith "/" := by
    rw [String.startsWith_string_iff]
    rintro ⟨rest, hrest⟩
    rw [isAbsolute, ← hrest] at h
    cases h
  rw [pushPath, if_neg hstart]

theorem pushPath_of_absolute (path : String) {piece : String} (h : isAbsolute piece) :
    pushPath path piece = piece := by
  have hstart : piece.startsWith "/" := by
    rw [String.startsWith_string_iff]
    cases hchars : piece.toList with
    | nil => simp [isAbsolute, hchars] at h
    | cons c cs =>
      have hc : c = '/' := by
        simpa [isAbsolute, hchars] using h
      exact ⟨cs, by rw [hc]; rfl⟩
  rw [pushPath, if_pos hstart]

/-- A path that another is added to begins at the root iff one of the two does. -/
theorem isAbsolute_pushPath (path piece : String) :
    isAbsolute (pushPath path piece) = (isAbsolute path || isAbsolute piece) := by
  cases hpiece : isAbsolute piece with
  | true => rw [pushPath_of_absolute path hpiece, hpiece, Bool.or_true]
  | false =>
    rw [Bool.or_false, pushPath_of_relative hpiece]
    by_cases hempty : path = ""
    · subst hempty
      simpa [show isAbsolute "" = false from rfl] using hpiece
    · obtain ⟨c, cs, hchars⟩ :=
        List.exists_cons_of_ne_nil fun hnil => hempty (String.toList_eq_nil_iff.1 hnil)
      split_ifs <;> simp [isAbsolute, hchars]

/-- The pieces of a relative path stand after those of the path that it is added to, of which an
empty last one is dropped. -/
theorem pieces_pushPath {path piece : String} (hpiece : isAbsolute piece = false)
    (hpath : path ≠ "") :
    ∃ front, pieces (pushPath path piece) = front ++ pieces piece ∧
      (pieces path = front ∨ pieces path = front ++ [""] ∧ front ≠ []) := by
  have hnonempty : path.isEmpty = false := by
    simpa using hpath
  rw [pushPath_of_relative hpiece, hnonempty, Bool.false_or]
  split_ifs with hend
  · obtain ⟨front, hfront⟩ : "/".toList <:+ path.toList := by
      rw [String.endsWith_eq_endsWith_toSlice, String.Slice.endsWith_string_iff] at hend
      simpa using hend
    have hsplit : path = String.ofList front ++ "/" ++ "" := by
      rw [← String.toList_inj, ← hfront]
      simp
    refine ⟨pieces (String.ofList front), ?_, .inr ⟨?_, pieces_ne_nil _⟩⟩
    · rw [hsplit, String.append_empty, pieces_append_slash]
    · have hpieces := pieces_append_slash (String.ofList front) ""
      rw [← hsplit] at hpieces
      exact hpieces
  · exact ⟨pieces path, pieces_append_slash path piece, .inl rfl⟩

/-! ## Parts -/

/-- The parts of the pieces after the first. -/
def laterComponents (pieces : List String) : List Component :=
  (pieces.filter fun p => !isIdle p).map fun p => if p = ".." then .above else .name p

/-- The parts of the first piece. -/
def leadingComponents (first : String) : List Component :=
  if first.isEmpty then [.root] else if first = "." then [.here] else laterComponents [first]

theorem laterComponents_append (front back : List String) :
    laterComponents (front ++ back) = laterComponents front ++ laterComponents back := by
  rw [laterComponents, List.filter_append, List.map_append, laterComponents, laterComponents]

theorem components_eq {path first : String} {rest : List String} (h : pieces path = first :: rest)
    (hpath : path ≠ "") :
    components path = leadingComponents first ++ laterComponents rest := by
  have hfirst : first.isEmpty → rest.isEmpty = false := by
    intro hempty
    cases rest with
    | nil =>
      rw [String.isEmpty_iff] at hempty
      rw [hempty, pieces_eq_singleton_empty_iff] at h
      exact absurd h hpath
    | cons p rest => rfl
  unfold components leadingComponents
  rw [h]
  dsimp only
  split_ifs with hempty hrest hhere
  · rw [hfirst hempty] at hrest
    cases hrest
  · rfl
  · rfl
  · exact laterComponents_append [first] rest

/-! ## Direct paths -/

/-- No piece of the path is a point or two. -/
def IsDirect (path : String) : Prop := ∀ piece ∈ pieces path, piece ≠ "." ∧ piece ≠ ".."

/-- The names on a direct path. -/
def names (path : String) : List String := (pieces path).filter (!·.isEmpty)

/-- A path that begins at the root has an empty piece in front of the others. -/
theorem pieces_of_isAbsolute {path : String} (h : isAbsolute path) :
    ∃ rest, rest ≠ [] ∧ pieces path = "" :: rest := by
  obtain ⟨back, hback⟩ : ∃ back, path.toList = '/' :: back := by
    cases hpath : path.toList with
    | nil => simp [isAbsolute, hpath] at h
    | cons c back => exact ⟨back, by simpa [isAbsolute, hpath] using h⟩
  have hsplit : path = "" ++ "/" ++ String.ofList back := by
    rw [← String.toList_inj, hback]
    simp
  refine ⟨pieces (String.ofList back), pieces_ne_nil _, ?_⟩
  rw [hsplit, pieces_append_slash]
  rfl

/-- The first piece of a path that does not begin at the root is not empty. -/
theorem pieces_of_not_isAbsolute {path : String} (h : isAbsolute path = false) (hpath : path ≠ "") :
    ∃ first rest, first ≠ "" ∧ pieces path = first :: rest := by
  cases hchars : path.toList with
  | nil => exact absurd (String.toList_eq_nil_iff.1 hchars) hpath
  | cons c cs =>
    have hc : (c == '/') = false := by
      simpa [isAbsolute, hchars] using h
    cases hrest : cs.splitOn '/' with
    | nil => exact absurd hrest (List.splitOn_ne_nil _ _)
    | cons w rest =>
      refine ⟨String.ofList (c :: w), rest.map String.ofList, by simp, ?_⟩
      rw [pieces, hchars, List.splitOn, List.splitOnP_cons_eq_if_modifyHead, hc,
        if_neg Bool.false_ne_true, ← List.splitOn, hrest]
      rfl

theorem laterComponents_of_isDirect {l : List String}
    (h : ∀ piece ∈ l, piece ≠ "." ∧ piece ≠ "..") :
    laterComponents l = (l.filter (!·.isEmpty)).map .name := by
  have hfilter : l.filter (fun p => !isIdle p) = l.filter (!·.isEmpty) := by
    refine List.filter_congr fun piece hpiece => ?_
    simp [isIdle, (h piece hpiece).1]
  rw [laterComponents, hfilter]
  refine List.map_congr_left fun piece hpiece => ?_
  rw [if_neg (h piece (List.mem_filter.1 hpiece).1).2]

/-- The parts of a direct path are the names on it. -/
theorem IsDirect.components_eq {path : String} (h : IsDirect path) :
    components path = (if isAbsolute path then [.root] else []) ++ (names path).map .name := by
  by_cases hpath : path = ""
  · subst hpath
    decide
  unfold IsDirect at h
  rw [names]
  cases habsolute : isAbsolute path with
  | true =>
    obtain ⟨rest, -, hpieces⟩ := pieces_of_isAbsolute habsolute
    rw [hpieces, List.forall_mem_cons] at h
    rw [Path.components_eq hpieces hpath, hpieces, laterComponents_of_isDirect h.2]
    rfl
  | false =>
    obtain ⟨first, rest, hfirst, hpieces⟩ := pieces_of_not_isAbsolute habsolute hpath
    rw [hpieces] at h
    have hlead : leadingComponents first = laterComponents [first] := by
      rw [leadingComponents, if_neg (by simpa using hfirst), if_neg (h first List.mem_cons_self).1]
    rw [Path.components_eq hpieces hpath, hlead, ← laterComponents_append, List.singleton_append,
      hpieces, laterComponents_of_isDirect h]
    rfl

/-- A path with a direct relative path added has the parts of the path and the names on the other. -/
theorem IsDirect.components_pushPath (path : String) {piece : String} (h : IsDirect piece)
    (hrelative : isAbsolute piece = false) :
    components (WideRow.pushPath path piece) = components path ++ (names piece).map .name := by
  by_cases hpath : path = ""
  · subst hpath
    have hsame : WideRow.pushPath "" piece = piece := by
      rw [pushPath_of_relative hrelative]
      simp
    rw [hsame, h.components_eq, hrelative]
    rfl
  · have hne : WideRow.pushPath path piece ≠ "" := by
      rw [pushPath_of_relative hrelative]
      split_ifs <;> simp [hpath]
    obtain ⟨front, hpieces, hfront⟩ := pieces_pushPath hrelative hpath
    cases front with
    | nil =>
      rcases hfront with hfront | ⟨-, hfront⟩
      · exact absurd hfront (pieces_ne_nil path)
      · exact absurd rfl hfront
    | cons first rest =>
      rw [List.cons_append] at hpieces hfront
      rw [Path.components_eq hpieces hne, laterComponents_append, laterComponents_of_isDirect h,
        ← List.append_assoc, ← names]
      rcases hfront with hfront | ⟨hfront, -⟩
      · rw [Path.components_eq hfront hpath]
      · rw [Path.components_eq hfront hpath, laterComponents_append]
        simp [laterComponents, isIdle]

theorem IsName.isDirect {piece : String} (h : IsName piece) : IsDirect piece := by
  rw [IsDirect, pieces_of_slash_notMem h.slash_notMem]
  exact List.forall_mem_singleton.2 ⟨h.ne_here, h.ne_above⟩

theorem names_of_isName {piece : String} (h : IsName piece) : names piece = [piece] := by
  rw [names, pieces_of_slash_notMem h.slash_notMem]
  simp [h.ne_empty]

/-- A path with a name added has the parts of the path and the name. -/
theorem components_pushPath (path : String) {piece : String} (h : IsName piece) :
    components (pushPath path piece) = components path ++ [.name piece] := by
  rw [h.isDirect.components_pushPath path (isAbsolute_eq_false_of_slash_notMem h.slash_notMem),
    names_of_isName h, List.map_singleton]

/-- A path without the character of points is direct. -/
theorem isDirect_of_dot_notMem {path : String} (h : '.' ∉ path.toList) : IsDirect path := by
  intro piece hpiece
  have hdot : '.' ∉ piece.toList := fun hmem => h (mem_of_mem_pieces hpiece hmem)
  constructor
  · rintro rfl
    exact hdot (by decide)
  · rintro rfl
    exact hdot (by decide)

theorem IsDirect.pushPath {path piece : String} (h : IsDirect path) (hpiece : IsName piece) :
    IsDirect (pushPath path piece) := by
  have hrelative := isAbsolute_eq_false_of_slash_notMem hpiece.slash_notMem
  by_cases hpath : path = ""
  · subst hpath
    have hpush : WideRow.pushPath "" piece = piece := by
      rw [pushPath_of_relative hrelative]
      simp
    rw [hpush]
    exact hpiece.isDirect
  · obtain ⟨front, hpush, hfront⟩ := pieces_pushPath hrelative hpath
    rw [IsDirect, hpush, List.forall_mem_append]
    refine ⟨fun p hp => h p ?_, hpiece.isDirect⟩
    rcases hfront with hfront | ⟨hfront, -⟩
    · rwa [hfront]
    · rw [hfront]
      exact List.mem_append_left _ hp

end Files.Path

/-! ## Packages -/

open Files.Path

/-- The folder of a package: its segments, without empty ones. -/
def packageFolder (package : String) : String :=
  (((Name.segments package).filter (!·.isEmpty)).map String.ofList).foldl pushPath ""

/-- The file of an adapter lies in the folder of its package. -/
theorem Naming.relativePath_eq (n : Naming) :
    n.relativePath = pushPath (packageFolder n.package) n.fileName := by
  rw [relativePath, List.foldl_append, List.foldl_cons, List.foldl_nil]
  rfl

theorem components_foldl_pushPath (path : String) {names : List String}
    (h : ∀ piece ∈ names, IsName piece) :
    components (names.foldl pushPath path) = components path ++ names.map .name := by
  induction names generalizing path with
  | nil => simp
  | cons piece names ih =>
    rw [List.forall_mem_cons] at h
    rw [List.foldl_cons, ih _ h.2, components_pushPath _ h.1, List.append_assoc,
      List.singleton_append, List.map_cons]

theorem mem_pushPath {path piece : String} {c : Char} (h : c ∈ (pushPath path piece).toList) :
    c ∈ path.toList ∨ c = '/' ∨ c ∈ piece.toList := by
  unfold pushPath at h
  split_ifs at h
  · exact .inr (.inr h)
  · rw [String.toList_append, List.mem_append] at h
    exact h.imp_right .inr
  · rw [String.toList_append, List.mem_append, String.toList_append, List.mem_append] at h
    rcases h with (h | h) | h
    · exact .inl h
    · exact .inr (.inl (List.mem_singleton.1 h))
    · exact .inr (.inr h)

/-- The folder of a package has no points on it, whatever the package is. -/
theorem isDirect_packageFolder (package : String) : IsDirect (packageFolder package) := by
  have hfold : ∀ (pieces : List String) (path : String), '.' ∉ path.toList →
      (∀ piece ∈ pieces, '.' ∉ piece.toList) → '.' ∉ (pieces.foldl pushPath path).toList := by
    intro pieces
    induction pieces with
    | nil => exact fun path hpath _ => hpath
    | cons piece pieces ih =>
      intro path hpath hall
      rw [List.forall_mem_cons] at hall
      refine ih _ (fun hdot => ?_) hall.2
      rcases mem_pushPath hdot with h | h | h
      · exact hpath h
      · exact absurd h (by decide)
      · exact hall.1 h
  refine isDirect_of_dot_notMem (hfold _ _ (by decide) ?_)
  rintro piece hpiece hdot
  obtain ⟨w, hw, rfl⟩ := List.mem_map.1 hpiece
  rw [String.toList_ofList] at hdot
  exact (mem_of_mem_splitOn (List.mem_filter.1 hw).1 hdot).2 rfl

theorem Name.isName_of_isIdentifierChars {w : List Char} (h : isIdentifierChars w) :
    IsName (String.ofList w) := by
  have hinner : ∀ c ∈ w, isInner c := fun c hc => isInner_of_mem_identifier h hc
  have hdot : '.' ∉ w := dot_notMem_identifier h
  refine ⟨?_, ?_, ?_, ?_⟩
  · rw [String.toList_ofList]
    exact fun hslash => absurd (hinner _ hslash) (by decide)
  · intro hempty
    rw [String.ofList_eq_empty_iff] at hempty
    subst hempty
    cases h
  all_goals
    intro heq
    have hlist := congrArg String.toList heq
    rw [String.toList_ofList] at hlist
    exact hdot (hlist ▸ List.mem_cons_self)

/-- The folder of a dotted path of identifiers has its segments for parts. -/
theorem components_packageFolder {package : String} (h : Name.isQualified package) :
    components (packageFolder package) =
      ((Name.segments package).map String.ofList).map .name := by
  have hall : ∀ w ∈ Name.segments package, Name.isIdentifierChars w := List.all_eq_true.1 h
  have hfilter : (Name.segments package).filter (!·.isEmpty) = Name.segments package := by
    refine List.filter_eq_self.2 fun w hw => ?_
    cases w with
    | nil => cases hall [] hw
    | cons c w => rfl
  rw [packageFolder, hfilter, components_foldl_pushPath]
  · rfl
  · intro piece hpiece
    obtain ⟨w, hw, rfl⟩ := List.mem_map.1 hpiece
    exact Name.isName_of_isIdentifierChars (hall w hw)

/-- Dotted paths of identifiers with one folder are the same. -/
theorem eq_of_components_packageFolder {p q : String} (hp : Name.isQualified p)
    (hq : Name.isQualified q)
    (h : components (packageFolder p) = components (packageFolder q)) : p = q := by
  rw [components_packageFolder hp, components_packageFolder hq] at h
  have hname : Function.Injective Component.name := fun _ _ => Component.name.inj
  have hofList : Function.Injective String.ofList := fun _ _ => String.ofList_injective
  have hsegments := hofList.list_map (hname.list_map h)
  rw [← String.toList_inj, ← Name.intercalate_segments p, hsegments, Name.intercalate_segments]

end WideRow
