import WideRow.CommandLine.Session
import WideRow.Proofs.Adapter.Report
import WideRow.Proofs.Wire.RoundTrip

/-!
# What a run loads

Before a command does anything with descriptions, it loads all of them: of every source every file,
of every file its document or what a filter gives for it, and of every document the descriptions.
Filters may be spelt in any language.

Main definitions:
* `Filter.Language.Gives`: what a filter gives for a value;
* `Documents`, `Describes`: what is found in a file;
* `Sources.Loadable`, `RenderRequest.Loadable`: everything that is needed can be loaded;
* `documentText`: the text of a file to which descriptions have been written.

Results:
* `Filter.Language.run_eq_ok_iff`: a filter gives values if all of its outputs are their texts;
* `Sources.exists_descriptionsOf_iff`: when there are descriptions;
* `descriptionsOf_documentText`: descriptions that have been written to a file are loaded from it.
-/

namespace WideRow

open Files (Store)

/-! ## Filters -/

namespace Filter

/-- An output is the text of a value. -/
def IsText (output : Option String) (v : Json.Value) : Prop :=
  ∃ text, output = some text ∧ Json.Value.read text = .ok v

theorem valueOf_eq_ok_iff {output : Option String} {v : Json.Value} :
    valueOf output = .ok v ↔ IsText output v := by
  cases output <;> simp [valueOf, IsText, mapError_eq_ok_iff]

/-- The values of outputs go behind those that there are. -/
theorem valuesOf_eq_ok_iff {o : Outputs (Option String)} {reversed vs : List Json.Value} :
    valuesOf reversed o = .ok vs ↔
      ∃ added, List.Forall₂ IsText o.toList added ∧ reversed.reverse ++ added = vs := by
  induction o generalizing reversed with
  | done => simp [valuesOf]
  | one output =>
    have hstep : valuesOf reversed (.one output) =
        (valueOf output >>= fun v => pure (v :: reversed).reverse) := rfl
    rw [hstep, bind_eq_ok_iff, Outputs.toList_one]
    simp only [valueOf_eq_ok_iff, pure_eq_ok_iff, List.reverse_cons]
    constructor
    · rintro ⟨v, hv, rfl⟩
      exact ⟨[v], .cons hv .nil, rfl⟩
    · rintro ⟨_, hadded, rfl⟩
      obtain ⟨v, _, hv, hnone, rfl⟩ := List.forall₂_cons_left_iff.1 hadded
      rw [List.forall₂_nil_left_iff.1 hnone]
      exact ⟨v, hv, rfl⟩
  | more output rest ih =>
    have hstep : valuesOf reversed (.more output rest) =
        (valueOf output >>= fun v => valuesOf (v :: reversed) (rest ())) := by
      rw [valuesOf]
      cases valueOf output <;> rfl
    rw [hstep, bind_eq_ok_iff, Outputs.toList_more]
    simp only [valueOf_eq_ok_iff, ih]
    constructor
    · rintro ⟨v, hv, added, hadded, rfl⟩
      exact ⟨v :: added, .cons hv hadded, by simp⟩
    · rintro ⟨_, hadded, rfl⟩
      obtain ⟨v, others, hv, hothers, rfl⟩ := List.forall₂_cons_left_iff.1 hadded
      exact ⟨v, hv, others, hothers, by simp⟩
  | later o ih => exact ih ()

namespace Language

variable {l : Language} {filter : String} {input : Json.Value} {vs : List Json.Value}

/-- The text spells a filter in which every name stands for something, and its outputs for the value
are the texts of others. -/
def Gives (l : Language) (filter : String) (input : Json.Value) (vs : List Json.Value) : Prop :=
  ∃ source program, l.load filter = some source ∧ l.compile source = .ok program ∧
    List.Forall₂ IsText (l.outputs program input).toList vs

theorem run_eq_ok_iff : l.run filter input = .ok vs ↔ l.Gives filter input vs := by
  unfold run Gives
  cases l.load filter with
  | none => simp
  | some source =>
    cases hcompile : l.compile source with
    | error names => simp [hcompile]
    | ok program => simp [hcompile, valuesOf_eq_ok_iff]

end Language

end Filter

namespace CommandLine

/-! ## Lists -/

section Lists

variable {ε α β : Type}

theorem mapM_eq_ok_iff {f : α → Except ε β} {l : List α} {bs : List β} :
    l.mapM f = .ok bs ↔ List.Forall₂ (fun a b => f a = .ok b) l bs := by
  induction l generalizing bs with
  | nil => rw [List.mapM_nil, pure_eq_ok_iff, List.forall₂_nil_left_iff, eq_comm]
  | cons a l ih =>
    simp only [List.mapM_cons, bind_eq_ok_iff, pure_eq_ok_iff, ih, List.forall₂_cons_left_iff]
    constructor
    · rintro ⟨b, hb, bs, hbs, rfl⟩
      exact ⟨b, bs, hb, hbs, rfl⟩
    · rintro ⟨b, bs, hb, hbs, rfl⟩
      exact ⟨b, hb, bs, hbs, rfl⟩

theorem exists_mapM_eq_ok_iff {f : α → Except ε β} {l : List α} :
    (∃ bs, l.mapM f = .ok bs) ↔ ∀ a ∈ l, ∃ b, f a = .ok b := by
  induction l with
  | nil => exact ⟨fun _ => by simp, fun _ => ⟨[], rfl⟩⟩
  | cons a l ih =>
    rw [List.forall_mem_cons, ← ih]
    simp only [List.mapM_cons, bind_eq_ok_iff, pure_eq_ok_iff]
    constructor
    · rintro ⟨_, b, hb, bs, hbs, -⟩
      exact ⟨⟨b, hb⟩, bs, hbs⟩
    · rintro ⟨⟨b, hb⟩, bs, hbs⟩
      exact ⟨_, b, hb, bs, hbs, rfl⟩

theorem mem_flatten_of_mapM_eq_ok {f : α → Except ε (List β)} {l : List α} {bss : List (List β)}
    (h : l.mapM f = .ok bss) {b : β} : b ∈ bss.flatten ↔ ∃ a ∈ l, ∃ bs, f a = .ok bs ∧ b ∈ bs := by
  induction l generalizing bss with
  | nil =>
    cases h
    simp
  | cons a l ih =>
    simp only [List.mapM_cons, bind_eq_ok_iff, pure_eq_ok_iff] at h
    obtain ⟨bs, hbs, rest, hrest, rfl⟩ := h
    simp [ih hrest, hbs]

end Lists

/-! ## Files -/

section Files

variable {l : Filter.Language} {s : Store} {filter : Option String} {path : String}

/-- What is read from a file: its only value, or everything that a filter gives for that. -/
def Documents (l : Filter.Language) (s : Store) (filter : Option String) (path : String)
    (documents : List Json.Value) : Prop :=
  ∃ text v, s.read path = .ok text ∧ Json.Value.read text = .ok v ∧
    match filter with
    | none => [v] = documents
    | some filter => l.Gives filter v documents

theorem documentsOf_eq_ok_iff {documents : List Json.Value} :
    documentsOf l s filter path = .ok documents ↔ Documents l s filter path documents := by
  simp only [documentsOf, bind_eq_ok_iff, mapError_eq_ok_iff, Documents]
  cases filter with
  | none => simp only [pure_eq_ok_iff, exists_and_left]
  | some filter => simp only [mapError_eq_ok_iff, Filter.Language.run_eq_ok_iff, exists_and_left]

/-- There are documents in the file at a path, and all of them hold descriptions. -/
def Describes (l : Filter.Language) (s : Store) (filter : Option String) (path : String) : Prop :=
  ∃ documents, Documents l s filter path documents ∧
    ∀ v ∈ documents, ∃ ds, Description.listOfValue v = .ok ds

theorem descriptionsIn_eq_ok_iff {ds : List Description} :
    descriptionsIn l s filter path = .ok ds ↔
      ∃ documents lists, Documents l s filter path documents ∧
        List.Forall₂ (fun v ds => Description.listOfValue v = .ok ds) documents lists ∧
        lists.flatten = ds := by
  simp only [descriptionsIn, bind_eq_ok_iff, pure_eq_ok_iff, documentsOf_eq_ok_iff, mapM_eq_ok_iff,
    mapError_eq_ok_iff, exists_and_left]

theorem exists_descriptionsIn_iff :
    (∃ ds, descriptionsIn l s filter path = .ok ds) ↔ Describes l s filter path := by
  constructor
  · rintro ⟨ds, hds⟩
    obtain ⟨documents, lists, hdocuments, hlists, -⟩ := descriptionsIn_eq_ok_iff.1 hds
    exact ⟨documents, hdocuments, exists_mapM_eq_ok_iff.1 ⟨lists, mapM_eq_ok_iff.2 hlists⟩⟩
  · rintro ⟨documents, hdocuments, hall⟩
    obtain ⟨lists, hlists⟩ := exists_mapM_eq_ok_iff.2 hall
    exact ⟨_, descriptionsIn_eq_ok_iff.2
      ⟨documents, lists, hdocuments, mapM_eq_ok_iff.1 hlists, rfl⟩⟩

end Files

/-! ## Sources -/

/-- Every pattern stands for paths, each of which holds descriptions. -/
def Sources.Loadable (l : Filter.Language) (sources : Sources) (s : Store) : Prop :=
  ∀ pattern ∈ sources.patterns, ∃ paths, pathsOf s pattern = .ok paths ∧
    ∀ path ∈ paths, Describes l s sources.filter path

/-- The template and the descriptions can be loaded. -/
def RenderRequest.Loadable (l : Filter.Language) (r : RenderRequest) (s : Store) : Prop :=
  (∃ t, templateOf s r.template = .ok t) ∧ r.sources.Loadable l s

section Sources

variable {l : Filter.Language} {s : Store}

/-- There are descriptions iff everything can be loaded. -/
theorem Sources.exists_descriptionsOf_iff {sources : Sources} :
    (∃ ds, descriptionsOf l s sources = .ok ds) ↔ sources.Loadable l s := by
  simp only [descriptionsOf, bind_eq_ok_iff, pure_eq_ok_iff, Sources.Loadable]
  constructor
  · rintro ⟨_, pathss, hpathss, lists, hlists, -⟩ pattern hpattern
    obtain ⟨paths, hpaths⟩ := exists_mapM_eq_ok_iff.1 ⟨pathss, hpathss⟩ pattern hpattern
    refine ⟨paths, hpaths, fun path hpath => exists_descriptionsIn_iff.1 ?_⟩
    exact exists_mapM_eq_ok_iff.1 ⟨lists, hlists⟩ path
      ((mem_flatten_of_mapM_eq_ok hpathss).2 ⟨pattern, hpattern, paths, hpaths, hpath⟩)
  · intro hall
    obtain ⟨pathss, hpathss⟩ := exists_mapM_eq_ok_iff.2 fun pattern hpattern =>
      (hall pattern hpattern).imp fun _ h => h.1
    have hdescribes : ∀ path ∈ pathss.flatten,
        ∃ ds, descriptionsIn l s sources.filter path = .ok ds := by
      intro path hpath
      obtain ⟨pattern, hpattern, paths, hpaths, hmem⟩ :=
        (mem_flatten_of_mapM_eq_ok hpathss).1 hpath
      obtain ⟨paths', hpaths', hholds⟩ := hall pattern hpattern
      rw [hpaths, Except.ok.injEq] at hpaths'
      exact exists_descriptionsIn_iff.2 (hholds path (hpaths' ▸ hmem))
    obtain ⟨lists, hlists⟩ := exists_mapM_eq_ok_iff.2 hdescribes
    exact ⟨_, pathss, hpathss, lists, hlists, rfl⟩

/-- The descriptions of a single file. -/
theorem descriptionsOf_singleton {filter : Option String} {path : String} {ds : List Description}
    (hpattern : Files.Glob.isPattern path = false)
    (hds : descriptionsIn l s filter path = .ok ds) :
    descriptionsOf l s ⟨filter, [path]⟩ = .ok ds := by
  have hpaths : pathsOf s path = .ok [path] := by
    rw [pathsOf, hpattern, if_neg Bool.false_ne_true]
  rw [descriptionsOf, List.mapM_cons, hpaths]
  dsimp only [bind, Except.bind, pure, Except.pure, List.mapM_nil, List.flatten_cons,
    List.flatten_nil, List.cons_append, List.nil_append]
  rw [List.mapM_cons, hds]
  exact congrArg Except.ok (List.append_nil ds)

/-- The template of a file. -/
theorem templateOf_of_file {path text : String} {t : Template} (hread : s.read path = .ok text)
    (hparse : Template.parse text = .ok t) : templateOf s (some path) = .ok t := by
  rw [templateOf, hread]
  dsimp only [Except.mapError, bind, Except.bind]
  rw [hparse]

end Sources

/-! ## Descriptions that have been written -/

/-- The document of descriptions. -/
def documentOf (ds : List Description) : Json.Value := .array (ds.map Description.toJson)

/-- The text of a file with descriptions. -/
def documentText (ds : List Description) : String := (documentOf ds).compact

section Written

variable {l : Filter.Language} {s : Store} {path : String} {ds : List Description}

theorem read_documentText (hdepth : (documentOf ds).depth ≤ Json.deepest) :
    Json.Value.read (documentText ds) = .ok (documentOf ds) :=
  Json.Value.read_compact (numberFree_document ds)
    (keysDistinct_array_map fun d _ => keysDistinct_toJson d) hdepth

/-- Descriptions that have been written to a file are loaded from it. -/
theorem descriptionsOf_documentText (hpattern : Files.Glob.isPattern path = false)
    (hread : s.read path = .ok (documentText ds)) (hdepth : (documentOf ds).depth ≤ Json.deepest) :
    descriptionsOf l s ⟨none, [path]⟩ = .ok ds := by
  refine descriptionsOf_singleton hpattern (descriptionsIn_eq_ok_iff.2 ?_)
  refine ⟨[documentOf ds], [ds], ⟨_, _, hread, read_documentText hdepth, rfl⟩, ?_, by simp⟩
  exact .cons (listOfValue_toJson ds) .nil

end Written

end CommandLine

end WideRow
