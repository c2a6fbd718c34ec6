import WideRow.Proofs.Files.Writing
import WideRow.Proofs.Loading

/-!
# Delivered adapters

The file of an adapter is named for the last segment of its sum type and lies in the folder of its
package, so adapters of different sum types may share a file: nested types of one package with one
simple name do. A run writes the adapters one after the other; each stays as it was written as long
as no later one goes to the same place.

Main definitions:
* `Adapter.Coincides`: two adapters have one simple name and one folder;
* `Wrote`: what the files are after a text has been written to a path;
* `lastAt?`: the last adapter that lies at a location;
* `Received`: what the files are after adapters have been written;
* `Delivered`: a run has got to the end of its adapters.

Results:
* `Adapter.components_relativePath_eq_iff`: when two adapters have one path;
* `writeFile_run_eq_ok`: what a file that is written changes;
* `received_of_deliverAll`: what all adapters change, by induction on the results;
* `adapters_keep_their_files`: which adapters are found in their files in the end;
* `nested_types_share_path`: distinct sum types whose adapters have one path.
-/

namespace WideRow

open Files (Store Location)
open Files.Path

/-! ## Paths of adapters -/

/-- Two adapters are named for one simple name and lie in one folder. -/
def Adapter.Coincides (a b : Adapter) : Prop :=
  Name.simpleName a.sumType = Name.simpleName b.sumType ∧
    components (packageFolder a.package) = components (packageFolder b.package)

/-- The name of the file of the adapter of a sum type. -/
def fileNameOf (sumType : String) : String := Naming.adapterName sumType ++ ".java"

theorem isName_fileNameOf {sumType : String} (h : Name.isQualified sumType) :
    IsName (fileNameOf sumType) := by
  have hchars : (fileNameOf sumType).toList =
      (Name.simpleName sumType).toList ++ "CompositeUserType.java".toList := by
    rw [fileNameOf, Naming.adapterName, String.append_assoc, String.toList_append]
    rfl
  have hlength : ∀ s : String, s.length < 22 → fileNameOf sumType ≠ s := by
    rintro s hs rfl
    rw [← String.length_toList, hchars, List.length_append] at hs
    have : "CompositeUserType.java".toList.length = 22 := by decide
    omega
  refine ⟨?_, hlength _ (by decide), hlength _ (by decide), hlength _ (by decide)⟩
  rw [hchars, List.mem_append, not_or]
  refine ⟨fun hslash => ?_, by decide⟩
  have hinner := Name.isInner_of_mem_identifier (Name.isIdentifier_simpleName h) hslash
  exact absurd hinner (by decide)

theorem fileNameOf_eq_iff {p q : String} :
    fileNameOf p = fileNameOf q ↔ Name.simpleName p = Name.simpleName q := by
  rw [fileNameOf, Naming.adapterName, fileNameOf, Naming.adapterName, ← String.toList_inj]
  simp only [String.toList_append, List.append_cancel_right_eq]
  exact String.toList_inj

/-- What is generated lies in the folder of its package, in a file named for its sum type. -/
structure Adapter.Placed (a : Adapter) : Prop where
  isName : IsName (fileNameOf a.sumType)
  relativePath_eq : a.relativePath = pushPath (packageFolder a.package) (fileNameOf a.sumType)

theorem placed_of_mem_generateAll {ds : List Description} {t : Template} {options : Options}
    {a : Adapter} (h : .ok a ∈ generateAll ds t options) : a.Placed := by
  obtain ⟨d, -, hd⟩ := List.mem_map.1 h
  obtain ⟨p, hp, rfl⟩ := prepare_of_generate_eq_ok hd
  obtain ⟨hbuild, -, hnaming⟩ := prepare_eq_ok hp
  have hadapter : p.naming.adapter = Naming.adapterName p.definition.name := by
    rw [Naming.of?_eq_ok hnaming]
  refine ⟨isName_fileNameOf (Description.build_wellFormed hbuild).name_qualified, ?_⟩
  rw [Preparation.adapter, Naming.relativePath_eq, Naming.fileName, hadapter, fileNameOf]

namespace Adapter

variable {a b : Adapter}

theorem Placed.components_eq (h : a.Placed) :
    components a.relativePath =
      components (packageFolder a.package) ++ [.name (fileNameOf a.sumType)] := by
  rw [h.relativePath_eq, components_pushPath _ h.isName]

theorem Placed.isDirect (h : a.Placed) : IsDirect a.relativePath := by
  rw [h.relativePath_eq]
  exact (isDirect_packageFolder a.package).pushPath h.isName

/-- Adapters have one path iff they coincide. -/
theorem components_relativePath_eq_iff (ha : a.Placed) (hb : b.Placed) :
    components a.relativePath = components b.relativePath ↔ a.Coincides b := by
  rw [ha.components_eq, hb.components_eq, Adapter.Coincides, ← fileNameOf_eq_iff]
  constructor
  · intro h
    obtain ⟨hfolder, hname⟩ := List.append_inj' h (by simp)
    exact ⟨Component.name.inj (List.singleton_inj.1 hname), hfolder⟩
  · rintro ⟨hname, hfolder⟩
    rw [hname, hfolder]

/-- In packages that are dotted paths of identifiers, adapters have one path iff they have one
package and are named for one simple name. -/
theorem relativePath_eq_iff (ha : a.Placed) (hb : b.Placed)
    (hpackages : Name.isQualified a.package ∧ Name.isQualified b.package) :
    a.relativePath = b.relativePath ↔
      Name.simpleName a.sumType = Name.simpleName b.sumType ∧ a.package = b.package := by
  constructor
  · intro h
    obtain ⟨hname, hfolder⟩ := (components_relativePath_eq_iff ha hb).1 (congrArg components h)
    exact ⟨hname, eq_of_components_packageFolder hpackages.1 hpackages.2 hfolder⟩
  · rintro ⟨hname, hpackage⟩
    rw [ha.relativePath_eq, hb.relativePath_eq, hpackage, fileNameOf_eq_iff.2 hname]

/-- Paths that both begin at the root, or neither, lead to one place iff they are the same. -/
theorem spot_eq_iff (ha : a.Placed) (hb : b.Placed)
    (habsolute : isAbsolute a.relativePath = isAbsolute b.relativePath) (s : Store)
    (root : String) :
    s.spot (pushPath root a.relativePath) = s.spot (pushPath root b.relativePath) ↔
      components a.relativePath = components b.relativePath := by
  have hname : Function.Injective Component.name := fun _ _ => Component.name.inj
  rw [Store.spot_pushPath_of_isDirect s root ha.isDirect,
    Store.spot_pushPath_of_isDirect s root hb.isDirect, ha.isDirect.components_eq,
    hb.isDirect.components_eq, habsolute, List.append_cancel_left_eq, List.append_cancel_left_eq,
    hname.list_map.eq_iff]

end Adapter

namespace CommandLine

/-! ## Steps that succeed -/

namespace Action

variable {α β : Type} {x : Action α} {f : α → Action β} {σ σ' : Session}

theorem bind_run_of_ok {a : α} {τ : Session} (h : x.run σ = (.ok a, τ)) :
    (x >>= f).run σ = (f a).run τ := by
  show (ExceptT.bindCont f (x.run σ).1) (x.run σ).2 = _
  rw [h]
  rfl

theorem bind_run_of_error {e : Failure} {τ : Session} (h : x.run σ = (.error e, τ)) :
    (x >>= f).run σ = (.error e, τ) := by
  show (ExceptT.bindCont f (x.run σ).1) (x.run σ).2 = _
  rw [h]
  rfl

/-- Two actions, one after the other, come to an end if both do. -/
theorem bind_run_eq_ok_iff {b : β} : (x >>= f).run σ = (.ok b, σ') ↔
    ∃ a τ, x.run σ = (.ok a, τ) ∧ (f a).run τ = (.ok b, σ') := by
  constructor
  · intro h
    rcases hx : x.run σ with ⟨_ | a, τ⟩
    · rw [bind_run_of_error hx] at h
      cases h
    · rw [bind_run_of_ok hx] at h
      exact ⟨a, τ, rfl, h⟩
  · rintro ⟨a, τ, hx, h⟩
    rw [bind_run_of_ok hx, h]

/-- Two actions, one after the other, fail if one of them does. -/
theorem bind_run_eq_error_iff {e : Failure} : (x >>= f).run σ = (.error e, σ') ↔
    x.run σ = (.error e, σ') ∨ ∃ a τ, x.run σ = (.ok a, τ) ∧ (f a).run τ = (.error e, σ') := by
  constructor
  · intro h
    rcases hx : x.run σ with ⟨e' | a, τ⟩
    · rw [bind_run_of_error hx] at h
      cases h
      exact .inl rfl
    · rw [bind_run_of_ok hx] at h
      exact .inr ⟨a, τ, rfl, h⟩
  · rintro (hx | ⟨a, τ, hx, h⟩)
    · exact bind_run_of_error hx
    · rw [bind_run_of_ok hx, h]

end Action

variable {σ σ' : Session}

theorem consult_run {α : Type} (f : Store → Except Failure α) :
    (consult f).run σ = (f σ.store, σ) :=
  rfl

theorem change_run_eq_ok {f : Store → Except Failure Store}
    (h : (change f).run σ = (.ok (), σ')) : f σ.store = .ok σ'.store := by
  obtain ⟨s, τ, hs, hset⟩ := Action.bind_run_eq_ok_iff.1 h
  rw [consult_run, Prod.mk.injEq] at hs
  obtain ⟨hs, rfl⟩ := hs
  cases hset
  exact hs

theorem change_run_eq_error {f : Store → Except Failure Store} {e : Failure}
    (h : (change f).run σ = (.error e, σ')) : f σ.store = .error e := by
  rcases Action.bind_run_eq_error_iff.1 h with h | ⟨s, τ, -, hset⟩
  · rw [consult_run, Prod.mk.injEq] at h
    exact h.1
  · cases hset

/-! ## One file written -/

/-- The paths of the folders around the place of a path. -/
def foldersAround (path : String) : List String := (parent? path).elim [] ancestors

/-- The second store is the first with a text at a path: the text is read back there, no other file
has changed, and new folders are those around it. -/
structure Wrote (path text : String) (s s' : Store) : Prop where
  grows : s.Extends s'
  read_eq : s'.read path = .ok text
  others : ∀ l, s.spot path ≠ l → s'.fileAt? l = s.fileAt? l
  folders : ∀ l, s'.hasFolder l → s.hasFolder l ∨ ∃ folder ∈ foldersAround path, s.spot folder = l

theorem wrote_of_write {path text : String} {s s' : Store} (h : s.write path text = .ok s') :
    Wrote path text s s' := by
  obtain ⟨hput, hread⟩ := Store.write_eq_ok h
  subst hput
  refine ⟨s.extends_putFile _ _, hread, fun l hl => ?_, fun l hl => .inl hl⟩
  rw [Store.fileAt?_putFile, if_neg (Ne.symm hl)]

/-- What is written after folders have been made is written to the store before. -/
theorem Wrote.after_folders {path text : String} {s s' s'' : Store}
    (hfolders : s.AddsFolders (foldersAround path) s') (h : Wrote path text s' s'') :
    Wrote path text s s'' where
  grows := hfolders.toExtends.trans h.grows
  read_eq := h.read_eq
  others l hl := by
    rw [h.others l (by rwa [hfolders.toExtends.spot]), hfolders.fileAt?_eq]
  folders l hl := by
    rcases h.folders l hl with hl | ⟨folder, hfolder, hspot⟩
    · exact hfolders.spot_of_hasFolder l hl
    · exact .inr ⟨folder, hfolder, by rw [← hfolders.toExtends.spot, hspot]⟩

theorem writeFile_run_eq_ok {path text : String}
    (h : (writeFile path text).run σ = (.ok (), σ')) : Wrote path text σ.store σ'.store := by
  unfold writeFile at h
  cases hparent : parent? path with
  | none =>
    rw [hparent] at h
    exact wrote_of_write (mapError_eq_ok_iff.1 (change_run_eq_ok h))
  | some folder =>
    rw [hparent] at h
    obtain ⟨_, τ, hmake, hwrite⟩ := Action.bind_run_eq_ok_iff.1 h
    have hfolders : σ.store.AddsFolders (foldersAround path) τ.store := by
      rw [foldersAround, hparent]
      exact Store.makeFolders_eq_ok (mapError_eq_ok_iff.1 (change_run_eq_ok hmake))
    exact (wrote_of_write (mapError_eq_ok_iff.1 (change_run_eq_ok hwrite))).after_folders hfolders

/-- Writing fails for a folder that cannot be made or for the file. -/
def Failure.IsUnwritten : Failure → Prop
  | .unmadeFolder _ _ => True
  | .unwrittenFile _ _ => True
  | _ => False

theorem isUnwritten_of_mapError {f : Files.Refusal → Failure} {x : Except Files.Refusal Store}
    {e : Failure} (h : x.mapError f = .error e) (hf : ∀ r, (f r).IsUnwritten) : e.IsUnwritten := by
  cases x with
  | ok s => cases h
  | error r =>
    cases h
    exact hf r

theorem writeFile_run_eq_error {path text : String} {e : Failure}
    (h : (writeFile path text).run σ = (.error e, σ')) : e.IsUnwritten := by
  unfold writeFile at h
  cases hparent : parent? path with
  | none =>
    rw [hparent] at h
    exact isUnwritten_of_mapError (change_run_eq_error h) fun _ => trivial
  | some folder =>
    rw [hparent] at h
    rcases Action.bind_run_eq_error_iff.1 h with h | ⟨_, τ, -, h⟩
    · exact isUnwritten_of_mapError (change_run_eq_error h) fun _ => trivial
    · exact isUnwritten_of_mapError (change_run_eq_error h) fun _ => trivial

/-! ## Adapters one after the other -/

variable {root : String}

/-- The last adapter among results that lies at a location. -/
def lastAt? (s : Store) (root : String) (results : List (Except GenerateError Adapter))
    (l : Location) : Option Adapter :=
  (results.filterMap Except.toOption).reverse.find? fun a =>
    s.spot (pushPath root a.relativePath) = l

/-- The second store is the first after the adapters among results have been written below a root. -/
structure Received (root : String) (results : List (Except GenerateError Adapter))
    (s s' : Store) : Prop where
  grows : s.Extends s'
  /-- where adapters lie, the last of them stands, and elsewhere what was there before -/
  fileAt?_eq : ∀ l, s'.fileAt? l = ((lastAt? s root results l).map (·.source)).or (s.fileAt? l)
  /-- at the path of an adapter the last one of its place is read -/
  read_eq : ∀ a, .ok a ∈ results → ∃ b,
    lastAt? s root results (s.spot (pushPath root a.relativePath)) = some b ∧
      s'.read (pushPath root a.relativePath) = .ok b.source
  /-- new folders are those around adapters -/
  folders : ∀ l, s'.hasFolder l → s.hasFolder l ∨ ∃ a folder, .ok a ∈ results ∧
    folder ∈ foldersAround (pushPath root a.relativePath) ∧ s.spot folder = l

section Receiving

variable {s s' s'' : Store} {results : List (Except GenerateError Adapter)} {a : Adapter}

theorem lastAt?_cons_error (s : Store) (root : String) (e : GenerateError)
    (results : List (Except GenerateError Adapter)) (l : Location) :
    lastAt? s root (.error e :: results) l = lastAt? s root results l :=
  rfl

theorem lastAt?_cons_ok (s : Store) (root : String) (a : Adapter)
    (results : List (Except GenerateError Adapter)) (l : Location) :
    lastAt? s root (.ok a :: results) l = (lastAt? s root results l).or
      (if s.spot (pushPath root a.relativePath) = l then some a else none) := by
  have hadapter : (Except.ok a : Except GenerateError Adapter).toOption = some a := rfl
  rw [lastAt?, lastAt?, List.filterMap_cons_some hadapter, List.reverse_cons, List.find?_append,
    List.find?_singleton]
  simp only [decide_eq_true_eq]

theorem of_lastAt?_eq_some {l : Location} (h : lastAt? s root results l = some a) :
    .ok a ∈ results ∧ s.spot (pushPath root a.relativePath) = l := by
  have hmem := List.mem_reverse.1 (List.mem_of_find?_eq_some h)
  obtain ⟨result, hresult, hok⟩ := List.mem_filterMap.1 hmem
  refine ⟨?_, by simpa using List.find?_some h⟩
  cases result with
  | error e => cases hok
  | ok b =>
    cases hok
    exact hresult

/-- An adapter is the last of its place if every later one lies elsewhere. -/
theorem lastAt?_of_getElem? {i : Nat} (hi : results[i]? = some (.ok a))
    (hlast : ∀ j b, i < j → results[j]? = some (.ok b) →
      s.spot (pushPath root b.relativePath) ≠ s.spot (pushPath root a.relativePath)) :
    lastAt? s root results (s.spot (pushPath root a.relativePath)) = some a := by
  induction results generalizing i with
  | nil => cases hi
  | cons result rest ih =>
    cases i with
    | zero =>
      cases hi
      rw [lastAt?_cons_ok, if_pos rfl]
      cases hrest : lastAt? s root rest (s.spot (pushPath root a.relativePath)) with
      | none => rfl
      | some b =>
        obtain ⟨hmem, hspot⟩ := of_lastAt?_eq_some hrest
        obtain ⟨j, hj⟩ := List.getElem?_of_mem hmem
        exact absurd hspot (hlast (j + 1) b j.succ_pos hj)
    | succ i =>
      have hrest := ih hi fun j b hij hj => hlast (j + 1) b (Nat.succ_lt_succ hij) hj
      cases result with
      | error e => rw [lastAt?_cons_error, hrest]
      | ok b =>
        rw [lastAt?_cons_ok, hrest]
        rfl

theorem lastAt?_of_extends (h : s.Extends s') (root : String)
    (results : List (Except GenerateError Adapter)) :
    lastAt? s' root results = lastAt? s root results := by
  funext l
  simp only [lastAt?, h.spot]

theorem Wrote.fileAt?_eq {path text : String} (h : Wrote path text s s') (l : Location) :
    s'.fileAt? l = if s.spot path = l then some text else s.fileAt? l := by
  split_ifs with hl
  · rw [← hl, ← h.grows.spot]
    exact Store.fileAt?_of_read h.read_eq
  · exact h.others l hl

theorem Received.nil (root : String) (s : Store) : Received root [] s s where
  grows := .refl s
  fileAt?_eq _ := rfl
  read_eq _ h := nomatch h
  folders _ h := .inl h

/-- A sum type without an adapter leaves everything to those that follow. -/
theorem Received.cons_error {e : GenerateError} (h : Received root results s s') :
    Received root (.error e :: results) s s' where
  grows := h.grows
  fileAt?_eq := h.fileAt?_eq
  read_eq a ha := h.read_eq a (by simpa using ha)
  folders l hl := (h.folders l hl).imp_right fun ⟨a, folder, ha, hfolder⟩ =>
    ⟨a, folder, List.mem_cons_of_mem _ ha, hfolder⟩

/-- An adapter is written before those that follow. -/
theorem Received.cons_ok (hwrote : Wrote (pushPath root a.relativePath) a.source s s')
    (h : Received root results s' s'') : Received root (.ok a :: results) s s'' := by
  have hgrows := hwrote.grows.trans h.grows
  have hlast := lastAt?_of_extends hwrote.grows root results
  have hfiles : ∀ l, s''.fileAt? l =
      ((lastAt? s root (.ok a :: results) l).map (·.source)).or (s.fileAt? l) := by
    intro l
    rw [h.fileAt?_eq, hwrote.fileAt?_eq, hlast, lastAt?_cons_ok]
    cases lastAt? s root results l with
    | some b => rfl
    | none => split_ifs <;> rfl
  refine ⟨hgrows, hfiles, fun b hb => ?_, fun l hl => ?_⟩
  · rcases List.mem_cons.1 hb with hb | hb
    · -- the adapter is read in its place until the last one of that place is
      cases hb
      obtain ⟨text, hread⟩ := h.grows.exists_read hwrote.read_eq
      obtain ⟨b, hb⟩ : ∃ b, lastAt? s root (.ok a :: results)
          (s.spot (pushPath root a.relativePath)) = some b := by
        rw [lastAt?_cons_ok, if_pos rfl]
        cases lastAt? s root results (s.spot (pushPath root a.relativePath)) with
        | some b => exact ⟨b, rfl⟩
        | none => exact ⟨a, rfl⟩
      have htext := Store.fileAt?_of_read hread
      rw [hgrows.spot, hfiles, hb] at htext
      exact ⟨b, hb, by rw [hread, ← Option.some.inj htext]⟩
    · obtain ⟨c, hc, hread⟩ := h.read_eq b hb
      rw [hlast, hwrote.grows.spot] at hc
      exact ⟨c, by rw [lastAt?_cons_ok, hc]; rfl, hread⟩
  · rcases h.folders l hl with hl | ⟨b, folder, hb, hfolder, hspot⟩
    · refine (hwrote.folders l hl).imp_right fun ⟨folder, hfolder, hspot⟩ => ?_
      exact ⟨a, folder, List.mem_cons_self, hfolder, hspot⟩
    · rw [hwrote.grows.spot] at hspot
      exact .inr ⟨b, folder, List.mem_cons_of_mem _ hb, hfolder, hspot⟩

end Receiving

/-! ## All adapters -/

/-- An adapter that is delivered is written below the root. -/
theorem deliver_run_eq_ok {a : Adapter} (h : (deliver (some root) a).run σ = (.ok (), σ')) :
    Wrote (pushPath root a.relativePath) a.source σ.store σ'.store := by
  obtain ⟨_, τ, hwrite, hcomplain⟩ := Action.bind_run_eq_ok_iff.1 h
  have hwrote := writeFile_run_eq_ok hwrite
  cases hcomplain
  exact hwrote

theorem deliver_run_eq_error {a : Adapter} {e : Failure}
    (h : (deliver (some root) a).run σ = (.error e, σ')) : e.IsUnwritten := by
  rcases Action.bind_run_eq_error_iff.1 h with h | ⟨_, τ, -, h⟩
  · exact writeFile_run_eq_error h
  · cases h

/-- The results of several descriptions, each with its description. -/
abbrev Results := List (Description × Except GenerateError Adapter)

/-- Delivering the results that follow a failure, which is counted, or an adapter, which is written, is
what is left of the run. -/
theorem deliverAll_cons_run_eq_ok {result : Description × Except GenerateError Adapter}
    {rest : Results} {failed : Nat}
    (h : (deliverAll (some root) (result :: rest)).run σ = (.ok failed, σ')) :
    ∃ τ failed', (deliverAll (some root) rest).run τ = (.ok failed', σ') ∧
      match result.2 with
      | .ok a =>
        Wrote (pushPath root a.relativePath) a.source σ.store τ.store ∧ failed = failed'
      | .error _ => τ.store = σ.store ∧ failed = failed' + 1 := by
  obtain ⟨d, e | a⟩ := result
  · obtain ⟨_, τ, hcomplain, h⟩ := Action.bind_run_eq_ok_iff.1 h
    cases hcomplain
    obtain ⟨failed', τ', h, hpure⟩ := Action.bind_run_eq_ok_iff.1 h
    cases hpure
    exact ⟨_, failed', h, rfl, rfl⟩
  · obtain ⟨_, τ, hdeliver, h⟩ := Action.bind_run_eq_ok_iff.1 h
    exact ⟨τ, failed, h, deliver_run_eq_ok hdeliver, rfl⟩

/-- All adapters among the results are written, and what is no adapter is counted. -/
theorem received_of_deliverAll {results : Results} {failed : Nat}
    (h : (deliverAll (some root) results).run σ = (.ok failed, σ')) :
    Received root (results.map (·.2)) σ.store σ'.store ∧
      failed = (results.map (·.2)).countP (!·.isOk) := by
  induction results generalizing σ failed with
  | nil =>
    cases h
    exact ⟨.nil root _, rfl⟩
  | cons result rest ih =>
    obtain ⟨τ, failed', hrest, hstep⟩ := deliverAll_cons_run_eq_ok h
    obtain ⟨hreceived, rfl⟩ := ih hrest
    obtain ⟨d, e | a⟩ := result
    · rw [hstep.1] at hreceived
      exact ⟨hreceived.cons_error, hstep.2.trans (List.countP_cons_of_pos rfl).symm⟩
    · exact ⟨hreceived.cons_ok hstep.1, hstep.2⟩

/-- The text of an adapter is read back in the end unless a later one is written to its place. -/
theorem read_of_deliverAll_run_eq_ok {results : Results} {failed i : Nat} {d : Description}
    {a : Adapter} (h : (deliverAll (some root) results).run σ = (.ok failed, σ'))
    (hi : results[i]? = some (d, .ok a))
    (hlast : ∀ j d' b, i < j → results[j]? = some (d', .ok b) →
      σ.store.spot (pushPath root b.relativePath) ≠ σ.store.spot (pushPath root a.relativePath)) :
    σ'.store.read (pushPath root a.relativePath) = .ok a.source := by
  have hresult : (results.map (·.2))[i]? = some (.ok a) := by
    rw [List.getElem?_map, hi]
    rfl
  have hlast' := lastAt?_of_getElem? hresult fun j b hij hj => by
    rw [List.getElem?_map, Option.map_eq_some_iff] at hj
    obtain ⟨⟨d', result⟩, hj, rfl⟩ := hj
    exact hlast j d' b hij hj
  obtain ⟨b, hb, hread⟩ := (received_of_deliverAll h).1.read_eq a (List.mem_of_getElem? hresult)
  rw [hread, Option.some.inj (hlast'.symm.trans hb)]

theorem deliverAll_run_eq_error {results : Results} {e : Failure}
    (h : (deliverAll (some root) results).run σ = (.error e, σ')) : e.IsUnwritten := by
  induction results generalizing σ with
  | nil => cases h
  | cons result rest ih =>
    obtain ⟨d, e' | a⟩ := result
    · rcases Action.bind_run_eq_error_iff.1 h with h | ⟨_, τ, -, h⟩
      · cases h
      rcases Action.bind_run_eq_error_iff.1 h with h | ⟨failed, τ', -, h⟩
      · exact ih h
      · cases h
    · rcases Action.bind_run_eq_error_iff.1 h with h | ⟨_, τ, -, h⟩
      · exact deliver_run_eq_error h
      · exact ih h

/-! ## Whole runs -/

/-- The options of a request for adapters. -/
def RenderRequest.options (r : RenderRequest) : Options :=
  ⟨r.nonNullHints, r.settings.package, r.settings.denyAmbiguous⟩

/-- The run has got to the end of its adapters, though some sum types may have none. -/
def Delivered : Except Failure Unit → Prop
  | .ok _ => True
  | .error (.ungenerated _ _) => True
  | .error _ => False

theorem Failure.IsUnwritten.not_delivered {e : Failure} (h : e.IsUnwritten) :
    ¬ Delivered (.error e) := by
  cases e <;> simp_all [IsUnwritten, Delivered]

variable {l : Filter.Language}

/-- A run delivers what is generated for the descriptions that it has read. -/
theorem renderAdapters_run {r : RenderRequest} {t : Template} {ds : List Description}
    (ht : templateOf σ.store r.template = .ok t)
    (hds : descriptionsOf l σ.store r.sources = .ok ds) :
    (renderAdapters l r).run σ =
      (deliverAll r.outDir (ds.zip (generateAll ds t r.options)) >>= fun failed =>
        if failed ≠ 0 then throw (.ungenerated failed ds.length) else pure ()).run σ := by
  have htemplate : (consult fun s => templateOf s r.template).run σ = (.ok t, σ) := by
    rw [consult_run, ht]
  have hdescriptions : (consult fun s => descriptionsOf l s r.sources).run σ = (.ok ds, σ) := by
    rw [consult_run, hds]
  rw [renderAdapters, Action.bind_run_of_ok htemplate, Action.bind_run_of_ok hdescriptions]
  rfl

/-- A run gets to the end of its adapters iff all of them are delivered. -/
theorem delivered_iff (σ : Session) {r : RenderRequest} {t : Template} {ds : List Description}
    (hroot : r.outDir = some root) (ht : templateOf σ.store r.template = .ok t)
    (hds : descriptionsOf l σ.store r.sources = .ok ds) :
    (∃ outcome, (renderAdapters l r).run σ = (outcome, σ') ∧ Delivered outcome) ↔
      ∃ failed, (deliverAll (some root) (ds.zip (generateAll ds t r.options))).run σ =
        (.ok failed, σ') := by
  rw [renderAdapters_run ht hds, hroot]
  rcases hdeliver : (deliverAll (some root) (ds.zip (generateAll ds t r.options))).run σ with
    ⟨e | failed, τ⟩
  · rw [Action.bind_run_of_error hdeliver]
    refine ⟨fun ⟨outcome, hrun, hdelivered⟩ => ?_, fun ⟨failed, hrun⟩ => by cases hrun⟩
    cases hrun
    exact absurd hdelivered (deliverAll_run_eq_error hdeliver).not_delivered
  · rw [Action.bind_run_of_ok hdeliver]
    constructor
    · rintro ⟨outcome, hrun, -⟩
      refine ⟨failed, ?_⟩
      split at hrun <;> cases hrun <;> rfl
    · rintro ⟨failed', hrun⟩
      cases hrun
      split
      · exact ⟨_, rfl, trivial⟩
      · exact ⟨_, rfl, trivial⟩

/-- A request that is not only to be written out runs as the adapters that it asks for. -/
theorem execute_render {r : RenderRequest} (hdry : r.dry = false) (s : Store) :
    (Command.render r).executeIn l s = (renderAdapters l r).run ⟨s, "", ""⟩ := by
  rw [Command.executeIn, Command.run, Command.isDry, hdry, if_neg Bool.false_ne_true]

/-- A request is delivered if its adapters can be. -/
theorem exists_delivered {r : RenderRequest} {t : Template} {ds : List Description} {s : Store}
    (hdry : r.dry = false) (hroot : r.outDir = some root)
    (ht : templateOf s r.template = .ok t) (hds : descriptionsOf l s r.sources = .ok ds)
    (hisOk : ((deliverAll (some root) (ds.zip (generateAll ds t r.options))).run
      ⟨s, "", ""⟩).1.isOk = true) :
    ∃ outcome after, (Command.render r).executeIn l s = (outcome, after) ∧ Delivered outcome := by
  rw [execute_render hdry]
  rcases hdeliver : (deliverAll (some root) (ds.zip (generateAll ds t r.options))).run ⟨s, "", ""⟩
    with ⟨e | failed, after⟩
  · rw [hdeliver] at hisOk
    cases hisOk
  · obtain ⟨outcome, hrun, hdelivered⟩ :=
      (delivered_iff ⟨s, "", ""⟩ hroot ht hds).2 ⟨failed, hdeliver⟩
    exact ⟨outcome, after, hrun, hdelivered⟩

end CommandLine

open CommandLine

/-- Two adapters have one path iff they have one simple name and one folder, which for dotted
packages means one package. When all adapters of a run have been delivered, whatever the language of
its filters, an adapter stands in its file unless a later one has been written to the same place;
paths that both begin at the root, or neither, lead to one place iff they are the same. -/
theorem adapters_keep_their_files (ds : List Description) (t : Template) (options : Options) :
    (∀ a b : Adapter, .ok a ∈ generateAll ds t options → .ok b ∈ generateAll ds t options →
      (components a.relativePath = components b.relativePath ↔ a.Coincides b) ∧
      (Name.isQualified a.package ∧ Name.isQualified b.package →
        (a.relativePath = b.relativePath ↔
          Name.simpleName a.sumType = Name.simpleName b.sumType ∧ a.package = b.package)) ∧
      (isAbsolute a.relativePath = isAbsolute b.relativePath → ∀ (s : Store) (root : String),
        s.spot (pushPath root a.relativePath) = s.spot (pushPath root b.relativePath) ↔
          components a.relativePath = components b.relativePath)) ∧
    ∀ (l : Filter.Language) (r : RenderRequest) (root : String) (s : Store)
        (outcome : Except Failure Unit) (after : Session),
      r.dry = false → r.outDir = some root → r.options = options →
      templateOf s r.template = .ok t → descriptionsOf l s r.sources = .ok ds →
      (Command.render r).executeIn l s = (outcome, after) → Delivered outcome →
      ∀ (i : Nat) (a : Adapter), (generateAll ds t options)[i]? = some (.ok a) →
        (∀ (j : Nat) (b : Adapter), i < j → (generateAll ds t options)[j]? = some (.ok b) →
          s.spot (pushPath root b.relativePath) ≠ s.spot (pushPath root a.relativePath)) →
        after.store.read (pushPath root a.relativePath) = .ok a.source := by
  refine ⟨fun a b ha hb => ?_, ?_⟩
  · have hplaced := placed_of_mem_generateAll ha
    have hplaced' := placed_of_mem_generateAll hb
    exact ⟨Adapter.components_relativePath_eq_iff hplaced hplaced',
      Adapter.relativePath_eq_iff hplaced hplaced', Adapter.spot_eq_iff hplaced hplaced'⟩
  · rintro l r root s outcome after hdry hroot rfl ht hds hrun hdelivered i a hi hlast
    rw [execute_render hdry] at hrun
    obtain ⟨failed, hdeliver⟩ := (delivered_iff ⟨s, "", ""⟩ hroot ht hds).1 ⟨outcome, hrun, hdelivered⟩
    obtain ⟨d, hd, hresult⟩ : ∃ d, ds[i]? = some d ∧ (generate d t r.options).outcome = .ok a := by
      rwa [generateAll, List.getElem?_map, Option.map_eq_some_iff] at hi
    refine read_of_deliverAll_run_eq_ok (i := i) (d := d) hdeliver ?_ fun j d' b hij hj => ?_
    · exact List.getElem?_zip_eq_some.2 ⟨hd, hi⟩
    · exact hlast j b hij (List.getElem?_zip_eq_some.1 hj).2

/-- A range with one alternative. -/
def rangeNamed (sumType : String) : Description :=
  ⟨sumType, none, true, [⟨"a.Open", .record []⟩]⟩

/-- The definition of a range with one alternative. -/
def rangeDefinition (sumType : String) : Definition := ⟨sumType, none, [⟨"a.Open", []⟩]⟩

/-- The names for a range in the package where it lies. -/
def rangeNaming (sumType : String) : Naming :=
  ⟨Naming.adapterName sumType, Name.inferPackage sumType, sumType, Naming.embeddableName sumType⟩

/-- The adapter of a range has the names for its definition. -/
theorem generate_rangeNamed_of_naming {sumType : String} {requested : Option String} {n : Naming}
    (t : Template) (hbuild : (rangeNamed sumType).build = .ok (rangeDefinition sumType))
    (hnaming : Naming.of? (rangeDefinition sumType) requested = .ok n) :
    ∃ a : Adapter, (generate (rangeNamed sumType) t ⟨false, requested, false⟩).outcome = .ok a ∧
      a.package = n.package ∧ a.typeName = n.adapter ∧ a.relativePath = n.relativePath := by
  exact ⟨_, (generate_lenient t ⟨false, requested, false⟩ hbuild).trans
    (Definition.adapter_eq_ok_iff.2 ⟨n, hnaming, rfl⟩), rfl, rfl, rfl⟩

theorem generate_rangeNamed (sumType path : String) (t : Template)
    (hbuild : (rangeNamed sumType).build = .ok (rangeDefinition sumType))
    (hpackage : Text.isAllBlank (Name.inferPackage sumType) = false)
    (hpath : (rangeNaming sumType).relativePath = path) :
    ∃ a : Adapter, (generate (rangeNamed sumType) t ⟨false, none, false⟩).outcome = .ok a ∧
      a.relativePath = path := by
  have hinferred : Naming.packageOf (rangeDefinition sumType) none = Name.inferPackage sumType :=
    rfl
  have hnaming : Naming.of? (rangeDefinition sumType) none = .ok (rangeNaming sumType) := by
    rw [Naming.of?, hinferred, hpackage, if_neg Bool.false_ne_true]
    rfl
  obtain ⟨a, ha, -, -, hrelative⟩ := generate_rangeNamed_of_naming t hbuild hnaming
  exact ⟨a, ha, hrelative.trans hpath⟩

/-- Types of one simple name that are nested in different types of one package. -/
def nestedRanges : List Description :=
  [rangeNamed "com.acme.Outer.Range", rangeNamed "com.acme.Other.Range"]

/-- The adapters of distinct sum types may share a path. -/
theorem nested_types_share_path :
    (nestedRanges.map (·.name)).Nodup ∧ ∀ t : Template, ∃ a b : Adapter,
      generateAll nestedRanges t ⟨false, none, false⟩ = [.ok a, .ok b] ∧
        a.relativePath = "com/acme/RangeCompositeUserType.java" ∧
        b.relativePath = "com/acme/RangeCompositeUserType.java" := by
  refine ⟨by decide, fun t => ?_⟩
  obtain ⟨a, ha, hpath⟩ := generate_rangeNamed "com.acme.Outer.Range"
    "com/acme/RangeCompositeUserType.java" t (by decide) (by decide) (by decide +kernel)
  obtain ⟨b, hb, hpath'⟩ := generate_rangeNamed "com.acme.Other.Range"
    "com/acme/RangeCompositeUserType.java" t (by decide) (by decide) (by decide +kernel)
  refine ⟨a, b, ?_, hpath, hpath'⟩
  rw [generateAll, nestedRanges, List.map_cons, List.map_cons, ha, hb, List.map_nil]

/-- Two ranges of one simple name in different packages. -/
def twoRanges : List Description := [rangeNamed "a.Range", rangeNamed "a.b.Range"]

/-- A skeleton with nothing but its slots. -/
def bareTemplate : Template := ⟨Slot.all.map .slot⟩

/-- The text of the skeleton with nothing but its slots. -/
def bareTemplateText : String := String.join (Slot.all.map Slot.placeholder)

/-- The files with two ranges and a skeleton. -/
def twoRangesStore : Store :=
  ⟨[(["work", "ranges"], documentText twoRanges), (["work", "bare"], bareTemplateText)],
    [["work"]], ["work"]⟩

/-- The request for the adapters of two ranges. -/
def twoRangesRequest : RenderRequest :=
  ⟨⟨none, ["ranges"]⟩, ⟨none, false⟩, some "bare", false, some "out", false⟩

theorem parse_bareTemplateText : Template.parse bareTemplateText = .ok bareTemplate := by
  decide +kernel

theorem templateOf_twoRangesStore : templateOf twoRangesStore (some "bare") = .ok bareTemplate :=
  templateOf_of_file rfl parse_bareTemplateText

theorem descriptionsOf_twoRangesStore (l : Filter.Language) :
    descriptionsOf l twoRangesStore twoRangesRequest.sources = .ok twoRanges :=
  descriptionsOf_documentText (by simp [Files.Glob.isPattern]) rfl (by decide)

theorem exists_generateAll_twoRanges :
    ∃ a b : Adapter, generateAll twoRanges bareTemplate ⟨false, none, false⟩ = [.ok a, .ok b] ∧
      a.relativePath = "a/RangeCompositeUserType.java" ∧
      b.relativePath = "a/b/RangeCompositeUserType.java" := by
  obtain ⟨a, ha, hpath⟩ := generate_rangeNamed "a.Range" "a/RangeCompositeUserType.java"
    bareTemplate (by decide) (by decide) (by decide +kernel)
  obtain ⟨b, hb, hpath'⟩ := generate_rangeNamed "a.b.Range" "a/b/RangeCompositeUserType.java"
    bareTemplate (by decide) (by decide) (by decide +kernel)
  refine ⟨a, b, ?_, hpath, hpath'⟩
  rw [generateAll, twoRanges, List.map_cons, List.map_cons, ha, hb, List.map_nil]

/-- The adapters of two ranges in different packages are both found in their files. -/
theorem adapters_keep_their_files_twoRanges :
    ∃ (a b : Adapter) (outcome : Except Failure Unit) (after : Session),
      generateAll twoRanges bareTemplate ⟨false, none, false⟩ = [.ok a, .ok b] ∧
      (Command.render twoRangesRequest).execute twoRangesStore = (outcome, after) ∧
      Delivered outcome ∧
      ¬ a.Coincides b ∧
      after.store.read "out/a/RangeCompositeUserType.java" = .ok a.source := by
  obtain ⟨a, b, hgenerate, hpath, hpath'⟩ := exists_generateAll_twoRanges
  have hpush : pushPath "out" "a/RangeCompositeUserType.java" =
      "out/a/RangeCompositeUserType.java" := by
    decide +kernel
  have hspots : twoRangesStore.spot (pushPath "out" b.relativePath) ≠
      twoRangesStore.spot (pushPath "out" a.relativePath) := by
    rw [hpath, hpath']
    decide +kernel
  have hisOk : ((deliverAll (some "out") (twoRanges.zip (generateAll twoRanges bareTemplate
      ⟨false, none, false⟩))).run ⟨twoRangesStore, "", ""⟩).1.isOk = true := by
    decide +kernel
  obtain ⟨outcome, after, hrun, hdelivered⟩ := exists_delivered (r := twoRangesRequest) rfl rfl
    templateOf_twoRangesStore (descriptionsOf_twoRangesStore Filter.jq) hisOk
  obtain ⟨hpaths, hfiles⟩ := adapters_keep_their_files twoRanges bareTemplate ⟨false, none, false⟩
  have hmem : ∀ c : Adapter, c = a ∨ c = b →
      .ok c ∈ generateAll twoRanges bareTemplate ⟨false, none, false⟩ := by
    rintro c (rfl | rfl) <;> simp [hgenerate]
  refine ⟨a, b, outcome, after, hgenerate, hrun, hdelivered, ?_, ?_⟩
  · rw [← (hpaths a b (hmem a (.inl rfl)) (hmem b (.inr rfl))).1, hpath, hpath']
    decide +kernel
  · have hkept := hfiles Filter.jq twoRangesRequest "out" twoRangesStore outcome after rfl rfl rfl
      templateOf_twoRangesStore (descriptionsOf_twoRangesStore _) hrun hdelivered 0 a
      (by rw [hgenerate]; rfl) fun j c hj hc => ?_
    · rw [hpath, hpush] at hkept
      exact hkept
    · rw [hgenerate] at hc
      match j, hj with
      | 1, _ =>
        cases hc
        exact hspots
      | j + 2, _ => cases hc

end WideRow
