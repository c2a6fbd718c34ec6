import WideRow.Files.Store
import WideRow.Proofs.Files.Paths
import WideRow.Proofs.WellFormed

/-!
# Writing files

A path leads to one spot, if it leads anywhere: which spot depends on the home and on the pieces of
the path, not on the files that are there. A text that is written to a path is found at its spot,
and stays there as long as nothing is written to that spot again.

Main definitions:
* `Store.spot`: the location that a path leads to;
* `Store.Extends`: a store with at least the files and the folders of another;
* `Store.AddsFolders`: a store with the files of another, and its folders, and some at the spots of
  paths.

Results:
* `Store.write_eq_ok`: what a text written to a path changes, and that it is read back;
* `Store.makeFolders_eq_ok`: folders that are made change no file, and where they lie;
* `Store.Extends.read`: what has been read is read again later on, if no one has changed it;
* `Store.spot_pushPath_of_isDirect`: the spot of a path without detours below a folder.
-/

namespace WideRow.Files.Store

variable {s s' s'' : Store}

/-! ## Where paths lead -/

/-- The location after one more piece. -/
def enter (l : Location) (piece : String) : Location :=
  if Path.isIdle piece then l else if piece = ".." then l.dropLast else l ++ [piece]

/-- The location that a path leads to if it leads anywhere. -/
def spot (s : Store) (path : String) : Location := (Path.pieces path).foldl enter (s.startOf path)

/-- A piece can be taken from a location: that is a folder, and what the piece names is in it. -/
def CanEnter (s : Store) (l : Location) (piece : String) : Prop :=
  s.hasFolder l ∧ (Path.isIdle piece ∨ piece = ".." ∨ s.has (l ++ [piece]))

/-- A walk goes on from the location behind its first piece. -/
theorem walk_cons {l : Location} {piece : String} (h : s.CanEnter l piece) (rest : List String) :
    s.walk l (piece :: rest) = s.walk (enter l piece) rest := by
  obtain ⟨hfolder, hpiece⟩ := h
  rw [walk, enter, hfolder, Bool.not_true, if_neg Bool.false_ne_true]
  split_ifs with hidle habove hmem
  · rfl
  · rfl
  · rfl
  · exact absurd hpiece (by simp [hidle, habove, hmem])

theorem canEnter_of_walk {l m : Location} {piece : String} {rest : List String}
    (h : s.walk l (piece :: rest) = .ok m) : s.CanEnter l piece := by
  rw [walk] at h
  split_ifs at h with hfolder hidle habove hmem
  all_goals refine ⟨by simpa using hfolder, ?_⟩
  · exact .inl hidle
  · exact .inr (.inl habove)
  · exact .inr (.inr hmem)

/-- One step of a walk that leads somewhere. -/
theorem walk_cons_eq_ok_iff {l m : Location} {piece : String} {rest : List String} :
    s.walk l (piece :: rest) = .ok m ↔ s.CanEnter l piece ∧ s.walk (enter l piece) rest = .ok m := by
  constructor
  · intro h
    have henter := canEnter_of_walk h
    exact ⟨henter, walk_cons henter rest ▸ h⟩
  · rintro ⟨henter, h⟩
    rw [walk_cons henter, h]

theorem walk_eq_ok {l m : Location} {pieces : List String} (h : s.walk l pieces = .ok m) :
    m = pieces.foldl enter l := by
  induction pieces generalizing l with
  | nil => exact (Except.ok.inj h).symm
  | cons piece rest ih =>
    rw [List.foldl_cons]
    exact ih (walk_cons_eq_ok_iff.1 h).2

/-- Only what a folder holds is walked to. -/
theorem hasFolder_of_walk {l m : Location} {front rest : List String} {piece : String}
    (h : s.walk l (front ++ piece :: rest) = .ok m) :
    s.walk l front = .ok (front.foldl enter l) ∧ s.hasFolder (front.foldl enter l) := by
  induction front generalizing l with
  | nil => exact ⟨rfl, (walk_cons_eq_ok_iff.1 h).1.1⟩
  | cons p front ih =>
    obtain ⟨henter, hrest⟩ := walk_cons_eq_ok_iff.1 h
    obtain ⟨hfront, hfolder⟩ := ih hrest
    exact ⟨walk_cons_eq_ok_iff.2 ⟨henter, hfront⟩, hfolder⟩

/-- A path goes on from where the pieces in front lead. -/
theorem walk_append {l : Location} {front rest : List String} {m : Location}
    (h : s.walk l front = .ok m) : s.walk l (front ++ rest) = s.walk m rest := by
  induction front generalizing l with
  | nil =>
    cases h
    rfl
  | cons p front ih =>
    obtain ⟨henter, hfront⟩ := walk_cons_eq_ok_iff.1 h
    rw [List.cons_append, walk_cons henter, ih hfront]

/-- A walk with a look around at its end has come to a folder, where the pieces before lead. -/
theorem walk_here_eq_ok {l m : Location} {front : List String}
    (h : s.walk l (front ++ ["."]) = .ok m) :
    m = front.foldl enter l ∧ s.walk l front = .ok m ∧ s.hasFolder m := by
  have hm : m = front.foldl enter l := by
    rw [walk_eq_ok h, List.foldl_append]
    rfl
  exact ⟨hm, hm ▸ hasFolder_of_walk h⟩

theorem locate_eq_ok_iff {path : String} {l : Location} :
    s.locate path = .ok l ↔ path ≠ "" ∧ s.walk (s.startOf path) (Path.pieces path) = .ok l := by
  rw [locate]
  split_ifs with hpath
  · simp [String.isEmpty_iff.1 hpath]
  · rw [String.isEmpty_iff] at hpath
    simp [hpath]

theorem read_eq_ok_iff {path text : String} :
    s.read path = .ok text ↔ ∃ l, s.locate path = .ok l ∧ s.fileAt? l = some text := by
  rw [read, bind_eq_ok_iff]
  refine exists_congr fun l => and_congr_right fun _ => ?_
  cases s.fileAt? l with
  | none => exact ⟨nofun, nofun⟩
  | some found => simp [pure, Except.pure]

/-! ## Growing stores -/

/-- The second store has the files and the folders of the first, and maybe more. The texts of the
files may differ. -/
structure Extends (s s' : Store) : Prop where
  home : s'.home = s.home
  hasFolder : ∀ l, s.hasFolder l → s'.hasFolder l
  hasFile : ∀ l, (s.fileAt? l).isSome → (s'.fileAt? l).isSome

theorem Extends.refl (s : Store) : s.Extends s := ⟨rfl, fun _ h => h, fun _ h => h⟩

theorem Extends.trans (h : s.Extends s') (h' : s'.Extends s'') : s.Extends s'' :=
  ⟨h'.home.trans h.home, fun l hl => h'.hasFolder l (h.hasFolder l hl),
    fun l hl => h'.hasFile l (h.hasFile l hl)⟩

theorem Extends.has (h : s.Extends s') {l : Location} (hl : s.has l) : s'.has l := by
  rw [Store.has, Bool.or_eq_true] at hl ⊢
  exact hl.imp (h.hasFile l) (h.hasFolder l)

theorem Extends.canEnter (h : s.Extends s') {l : Location} {piece : String}
    (henter : s.CanEnter l piece) : s'.CanEnter l piece :=
  ⟨h.hasFolder l henter.1, henter.2.imp_right (.imp_right h.has)⟩

theorem Extends.startOf (h : s.Extends s') (path : String) : s'.startOf path = s.startOf path := by
  rw [Store.startOf, Store.startOf, h.home]

theorem Extends.spot (h : s.Extends s') (path : String) : s'.spot path = s.spot path := by
  rw [Store.spot, Store.spot, h.startOf]

/-- A path that leads somewhere leads there also later on. -/
theorem Extends.walk (h : s.Extends s') {l m : Location} {pieces : List String}
    (hwalk : s.walk l pieces = .ok m) : s'.walk l pieces = .ok m := by
  induction pieces generalizing l with
  | nil => exact hwalk
  | cons piece rest ih =>
    obtain ⟨henter, hrest⟩ := walk_cons_eq_ok_iff.1 hwalk
    exact walk_cons_eq_ok_iff.2 ⟨h.canEnter henter, ih hrest⟩

/-- What is read at a path is the text of the file at its spot. -/
theorem fileAt?_of_read {path text : String} (h : s.read path = .ok text) :
    s.fileAt? (s.spot path) = some text := by
  obtain ⟨l, hlocate, htext⟩ := read_eq_ok_iff.1 h
  have hl : l = s.spot path := walk_eq_ok (locate_eq_ok_iff.1 hlocate).2
  rw [← hl, htext]

/-- A path at which something is read is one also later on. -/
theorem Extends.exists_read (h : s.Extends s') {path text : String}
    (hread : s.read path = .ok text) : ∃ text', s'.read path = .ok text' := by
  obtain ⟨l, hlocate, htext⟩ := read_eq_ok_iff.1 hread
  obtain ⟨hpath, hwalk⟩ := locate_eq_ok_iff.1 hlocate
  obtain ⟨text', htext'⟩ := Option.isSome_iff_exists.1 (h.hasFile l (by rw [htext]; rfl))
  refine ⟨text', read_eq_ok_iff.2 ⟨l, locate_eq_ok_iff.2 ⟨hpath, ?_⟩, htext'⟩⟩
  rw [h.startOf]
  exact h.walk hwalk

/-- The text at a path is read as before if the file at its spot is as before. -/
theorem Extends.read (h : s.Extends s') {path text : String} (hread : s.read path = .ok text)
    (hfile : s'.fileAt? (s.spot path) = s.fileAt? (s.spot path)) : s'.read path = .ok text := by
  obtain ⟨text', hread'⟩ := h.exists_read hread
  have htext := fileAt?_of_read hread'
  rw [h.spot, hfile, fileAt?_of_read hread, Option.some.injEq] at htext
  rw [hread', htext]

/-! ## Texts put into files -/

theorem lookup_cons_eq_ite (k m : Location) (text : String) (files : List (Location × String)) :
    List.lookup m ((k, text) :: files) = if m = k then some text else files.lookup m := by
  rw [List.lookup_cons]
  by_cases h : m = k
  · rw [if_pos h, h, beq_self_eq_true]
  · rw [if_neg h, beq_false_of_ne h]

theorem lookup_setFile (l m : Location) (text : String) (files : List (Location × String)) :
    (setFile l text files).lookup m = if m = l then some text else files.lookup m := by
  induction files with
  | nil => rw [setFile, lookup_cons_eq_ite]
  | cons entry files ih =>
    obtain ⟨k, old⟩ := entry
    rw [setFile]
    by_cases hk : k = l
    · subst hk
      rw [if_pos rfl, lookup_cons_eq_ite, lookup_cons_eq_ite]
      split_ifs <;> rfl
    · rw [if_neg hk, lookup_cons_eq_ite, lookup_cons_eq_ite, ih]
      split_ifs with hmk hml
      · exact absurd (hmk.symm.trans hml) hk
      all_goals rfl

theorem fileAt?_putFile (s : Store) (l m : Location) (text : String) :
    (s.putFile l text).fileAt? m = if m = l then some text else s.fileAt? m :=
  lookup_setFile l m text s.files

theorem extends_putFile (s : Store) (l : Location) (text : String) :
    s.Extends (s.putFile l text) where
  home := rfl
  hasFolder _ h := h
  hasFile m h := by
    rw [fileAt?_putFile]
    split_ifs with hm
    · rfl
    · exact h

/-- The last step of a path that ends in a name is taken from where the pieces in front lead. Only
slashes follow. -/
theorem lastStep_eq_ok {path : String} {step : LastStep} (h : s.lastStep path = .ok step)
    (hdots : step.isDots = false) :
    path ≠ "" ∧ ∃ front back, Path.pieces path = front ++ step.piece :: back ∧
      (∀ piece ∈ back, piece.isEmpty) ∧ (step.slash = false → back = []) ∧
      Path.isIdle step.piece = false ∧ step.piece ≠ ".." ∧
      s.walk (s.startOf path) (front ++ ["."]) = .ok step.folder := by
  rw [LastStep.isDots, Bool.or_eq_false_iff, beq_eq_false_iff_ne, beq_eq_false_iff_ne] at hdots
  rw [lastStep] at h
  split_ifs at h with hpath
  rw [← List.reverse_reverse (Path.pieces path)]
  generalize (Path.pieces path).reverse = reversed at h ⊢
  have hsplit := List.takeWhile_append_dropWhile (p := fun p : String => p.isEmpty) (l := reversed)
  have hhead := List.head_dropWhile_not (fun p : String => p.isEmpty) (l := reversed)
  have hempty := List.all_takeWhile (p := fun p : String => p.isEmpty) (l := reversed)
  dsimp only at h
  generalize reversed.takeWhile (·.isEmpty) = empty at hsplit hempty
  cases htrimmed : reversed.dropWhile (·.isEmpty) with
  | nil =>
    rw [htrimmed] at h
    cases h
    exact absurd rfl hdots.1
  | cons piece front =>
    simp only [htrimmed] at h hsplit hhead
    obtain ⟨folder, hwalk, hstep⟩ := bind_eq_ok_iff.1 h
    rw [pure_eq_ok_iff] at hstep
    subst hstep
    have hnonempty : piece.isEmpty = false := by
      simpa using hhead
    refine ⟨by simpa using hpath, front.reverse, empty.reverse, ?_, fun q hq => ?_,
      fun hslash => ?_, by simp [Path.isIdle, hnonempty, hdots.1], hdots.2, hwalk⟩
    · rw [← hsplit]
      simp
    · exact List.all_eq_true.1 hempty q (List.mem_reverse.1 hq)
    · rw [← hsplit, List.length_append, decide_eq_false_iff_not] at hslash
      rw [List.reverse_eq_nil_iff, List.eq_nil_iff_length_eq_zero]
      omega

theorem foldl_enter_of_isEmpty {pieces : List String} (h : ∀ piece ∈ pieces, piece.isEmpty)
    (l : Location) : pieces.foldl enter l = l := by
  induction pieces with
  | nil => rfl
  | cons piece rest ih =>
    rw [List.forall_mem_cons] at h
    rw [List.foldl_cons, enter, Path.isIdle, h.1, Bool.true_or, if_pos rfl, ih h.2]

/-- The last step of a path that ends in a name leads to the spot of the path. -/
theorem location_of_lastStep {path : String} {step : LastStep} (h : s.lastStep path = .ok step)
    (hdots : step.isDots = false) : step.location = s.spot path := by
  obtain ⟨-, front, back, hpieces, hback, -, hidle, habove, hwalk⟩ := lastStep_eq_ok h hdots
  have hfolder := (walk_here_eq_ok hwalk).1
  rw [LastStep.location, spot, hpieces, List.foldl_append, List.foldl_cons,
    foldl_enter_of_isEmpty hback, ← hfolder, enter, hidle, if_neg Bool.false_ne_true,
    if_neg habove]

/-- A path whose last step is taken in one store leads to the location of that step in every larger
store that has it. -/
theorem locate_of_lastStep {path : String} {step : LastStep} (h : s.lastStep path = .ok step)
    (hslash : step.slash = false) (hdots : step.isDots = false) (hextends : s.Extends s')
    (hhas : s'.has step.location) : s'.locate path = .ok step.location := by
  obtain ⟨hpath, front, back, hpieces, -, hback, hidle, habove, hwalk⟩ := lastStep_eq_ok h hdots
  obtain ⟨-, hfront, hfolder⟩ := walk_here_eq_ok hwalk
  have henter : s'.CanEnter step.folder step.piece :=
    ⟨hextends.hasFolder _ hfolder, .inr (.inr hhas)⟩
  refine locate_eq_ok_iff.2 ⟨hpath, ?_⟩
  rw [hextends.startOf, hpieces, hback hslash, walk_append (hextends.walk hfront), walk_cons henter,
    enter, hidle, if_neg Bool.false_ne_true, if_neg habove, walk, LastStep.location]

/-- A text written to a path stands in the file at the spot of the path, and is read back. -/
theorem write_eq_ok {path text : String} (h : s.write path text = .ok s') :
    s' = s.putFile (s.spot path) text ∧ s'.read path = .ok text := by
  obtain ⟨step, hstep, hput⟩ := bind_eq_ok_iff.1 h
  dsimp only at hput
  split_ifs at hput with hrefused
  · cases hput
  rw [pure_eq_ok_iff] at hput
  subst hput
  rw [Bool.not_eq_true, Bool.or_eq_false_iff, Bool.or_eq_false_iff] at hrefused
  obtain ⟨⟨hslash, hdots⟩, -⟩ := hrefused
  have hextends := s.extends_putFile step.location text
  have hfile : (s.putFile step.location text).fileAt? step.location = some text := by
    rw [fileAt?_putFile, if_pos rfl]
  have hhas : (s.putFile step.location text).has step.location := by
    rw [has, hfile]
    rfl
  have hlocate := locate_of_lastStep hstep hslash hdots hextends hhas
  exact ⟨by rw [location_of_lastStep hstep hdots],
    read_eq_ok_iff.2 ⟨step.location, hlocate, hfile⟩⟩

/-! ## Folders made -/

/-- The second store has the files of the first and its folders, and maybe more folders, at the spots
of some paths. -/
structure AddsFolders (paths : List String) (s s' : Store) : Prop where
  files : s'.files = s.files
  home : s'.home = s.home
  hasFolder : ∀ l, s.hasFolder l → s'.hasFolder l
  spot_of_hasFolder : ∀ l, s'.hasFolder l → s.hasFolder l ∨ ∃ path ∈ paths, s.spot path = l

variable {paths : List String}

theorem AddsFolders.refl (paths : List String) (s : Store) : s.AddsFolders paths s :=
  ⟨rfl, rfl, fun _ h => h, fun _ h => .inl h⟩

theorem AddsFolders.fileAt?_eq (h : s.AddsFolders paths s') (l : Location) :
    s'.fileAt? l = s.fileAt? l := by
  rw [fileAt?, h.files, fileAt?]

theorem AddsFolders.toExtends (h : s.AddsFolders paths s') : s.Extends s' :=
  ⟨h.home, h.hasFolder, fun l hl => by rwa [h.fileAt?_eq]⟩

theorem AddsFolders.mono (h : s.AddsFolders paths s') {more : List String} (hmore : paths ⊆ more) :
    s.AddsFolders more s' where
  files := h.files
  home := h.home
  hasFolder := h.hasFolder
  spot_of_hasFolder l hl :=
    (h.spot_of_hasFolder l hl).imp_right fun ⟨path, hpath, hspot⟩ => ⟨path, hmore hpath, hspot⟩

theorem AddsFolders.trans (h : s.AddsFolders paths s') (h' : s'.AddsFolders paths s'') :
    s.AddsFolders paths s'' where
  files := h'.files.trans h.files
  home := h'.home.trans h.home
  hasFolder l hl := h'.hasFolder l (h.hasFolder l hl)
  spot_of_hasFolder l hl := by
    rcases h'.spot_of_hasFolder l hl with hl | ⟨path, hpath, hspot⟩
    · exact h.spot_of_hasFolder l hl
    · exact .inr ⟨path, hpath, by rw [← h.toExtends.spot, hspot]⟩

theorem addsFolders_putFolder (path : String) (s : Store) :
    s.AddsFolders [path] (s.putFolder (s.spot path)) := by
  rw [putFolder]
  split_ifs with hfolder
  · exact .refl _ s
  · refine ⟨rfl, rfl, fun m hm => ?_, fun m hm => ?_⟩ <;>
      rw [hasFolder, Bool.or_eq_true, List.contains_iff_mem] at hm ⊢
    · exact hm.imp_right (List.mem_append_left _)
    · rw [List.mem_append, List.mem_singleton, ← or_assoc] at hm
      exact hm.imp_right fun hspot => ⟨path, List.mem_singleton_self path, hspot.symm⟩

theorem makeFolder_eq_ok {path : String} (h : s.makeFolder path = .ok s') :
    s.AddsFolders [path] s' := by
  obtain ⟨step, hstep, hput⟩ := bind_eq_ok_iff.1 h
  dsimp only at hput
  split_ifs at hput with hrefused
  · cases hput
  · rw [pure_eq_ok_iff] at hput
    rw [Bool.not_eq_true, Bool.or_eq_false_iff] at hrefused
    rw [← hput, location_of_lastStep hstep hrefused.1]
    exact addsFolders_putFolder path s

theorem ensureFolder_eq_ok {path : String} (h : s.ensureFolder path = .ok s') :
    s.AddsFolders [path] s' := by
  rw [ensureFolder] at h
  cases hmake : s.makeFolder path with
  | ok made =>
    rw [hmake] at h
    cases h
    exact makeFolder_eq_ok hmake
  | error e =>
    rw [hmake] at h
    dsimp only at h
    split_ifs at h
    cases h
    exact .refl _ s

theorem ensureAll_eq_ok (h : s.ensureAll paths = .ok s') : s.AddsFolders paths s' := by
  induction paths generalizing s' with
  | nil =>
    cases h
    exact .refl _ s
  | cons path above ih =>
    have hpath : [path] ⊆ path :: above := by simp
    have habove : above ⊆ path :: above := List.subset_cons_self path above
    rw [ensureAll] at h
    split at h
    · cases h
      exact .refl _ s
    split at h
    · next made hmake =>
      cases h
      exact (makeFolder_eq_ok hmake).mono hpath
    · obtain ⟨around, haround, hensure⟩ := bind_eq_ok_iff.1 h
      exact ((ih haround).mono habove).trans ((ensureFolder_eq_ok hensure).mono hpath)
    · split at h
      · cases h
        exact .refl _ s
      · cases h

/-- Folders that are made change no file, and lie on the way. -/
theorem makeFolders_eq_ok {path : String} (h : s.makeFolders path = .ok s') :
    s.AddsFolders (Path.ancestors path) s' :=
  ensureAll_eq_ok h

/-! ## Spots below a folder -/

/-- A relative path is followed from the spot of the path that it is added to. -/
theorem spot_pushPath (s : Store) (path : String) {piece : String}
    (h : Path.isAbsolute piece = false) :
    s.spot (pushPath path piece) = (Path.pieces piece).foldl enter (s.spot path) := by
  by_cases hpath : path = ""
  · subst hpath
    have hpush : pushPath "" piece = piece := by
      rw [Path.pushPath_of_relative h]
      simp
    rw [hpush, spot, startOf, h]
    rfl
  · obtain ⟨front, hpush, hfront⟩ := Path.pieces_pushPath h hpath
    rw [spot, hpush, List.foldl_append, startOf, Path.isAbsolute_pushPath, h, Bool.or_false, ← startOf, spot]
    rcases hfront with hfront | ⟨hfront, -⟩
    · rw [hfront]
    · rw [hfront, List.foldl_append]
      rfl

theorem foldl_enter_of_isDirect {path : String} (h : Path.IsDirect path) (l : Location) :
    (Path.pieces path).foldl enter l = l ++ Path.names path := by
  unfold Path.IsDirect at h
  rw [Path.names]
  generalize Path.pieces path = pieces at h ⊢
  induction pieces generalizing l with
  | nil => simp
  | cons piece rest ih =>
    rw [List.forall_mem_cons] at h
    rw [List.foldl_cons, ih _ h.2, List.filter_cons]
    by_cases hempty : piece = ""
    · simp [enter, Path.isIdle, hempty]
    · simp [enter, Path.isIdle, hempty, h.1.1, h.1.2]

/-- A direct path leads down from the root, or from the spot of the path that it is added to. -/
theorem spot_pushPath_of_isDirect (s : Store) (root : String) {path : String}
    (h : Path.IsDirect path) :
    s.spot (pushPath root path) =
      (if Path.isAbsolute path then [] else s.spot root) ++ Path.names path := by
  cases habsolute : Path.isAbsolute path with
  | true =>
    rw [Path.pushPath_of_absolute root habsolute, spot, startOf, habsolute,
      foldl_enter_of_isDirect h]
    rfl
  | false =>
    rw [spot_pushPath s root habsolute, foldl_enter_of_isDirect h]
    rfl

end WideRow.Files.Store
