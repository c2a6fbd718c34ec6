import WideRow.Proofs.Delivery

/-!
# Files of a run

A run for adapters loads everything before it writes anything: its template, and of every source
every file, every document and every description. So it changes no file if one of them cannot be
loaded. Otherwise the adapters are written one after the other, and sum types without one are passed
over and counted.

Results:
* `renderAdapters_run_of_not_loadable`, `renderAdapters_run_eq`: what a run does in either case;
* `render_changes_files`: what a whole run changes, and how it ends;
* `outlined_request_changes_nothing`: a request that is only to be written out.
-/

namespace WideRow

open Files (Store)
open Files.Path

namespace CommandLine

/-! ## Runs that load nothing -/

variable {l : Filter.Language} {σ σ' : Session} {r : RenderRequest} {root : String}

variable (σ) in
/-- Nothing is written before everything is loaded. -/
theorem renderAdapters_run_of_not_loadable (h : ¬ r.Loadable l σ.store) :
    ∃ e, (renderAdapters l r).run σ = (.error e, σ) := by
  have htemplate : (consult fun s => templateOf s r.template).run σ =
      (templateOf σ.store r.template, σ) :=
    consult_run _
  have hdescriptions : (consult fun s => descriptionsOf l s r.sources).run σ =
      (descriptionsOf l σ.store r.sources, σ) :=
    consult_run _
  cases ht : templateOf σ.store r.template with
  | error e =>
    rw [ht] at htemplate
    exact ⟨e, Action.bind_run_of_error htemplate⟩
  | ok t =>
    rw [ht] at htemplate
    rw [renderAdapters, Action.bind_run_of_ok htemplate]
    cases hds : descriptionsOf l σ.store r.sources with
    | error e =>
      rw [hds] at hdescriptions
      exact ⟨e, Action.bind_run_of_error hdescriptions⟩
    | ok ds => exact absurd ⟨⟨t, ht⟩, Sources.exists_descriptionsOf_iff.1 ⟨ds, hds⟩⟩ h

/-! ## Whole runs -/

variable (σ) in
/-- A run in which everything can be written has written all adapters that are generated for the
descriptions, and fails iff some description has none. -/
theorem renderAdapters_run_eq {t : Template} {ds : List Description}
    {outcome : Except Failure Unit} (hroot : r.outDir = some root)
    (ht : templateOf σ.store r.template = .ok t)
    (hds : descriptionsOf l σ.store r.sources = .ok ds)
    (hrun : (renderAdapters l r).run σ = (outcome, σ'))
    (hwritten : ∀ e, outcome = .error e → ¬ e.IsUnwritten) :
    Received root (generateAll ds t r.options) σ.store σ'.store ∧
      outcome =
        if (generateAll ds t r.options).countP (!·.isOk) = 0 then .ok ()
        else .error
          (.ungenerated ((generateAll ds t r.options).countP (!·.isOk)) ds.length) := by
  have hsnd : (ds.zip (generateAll ds t r.options)).map (·.2) = generateAll ds t r.options :=
    List.map_snd_zip (by simp [generateAll])
  rw [renderAdapters_run ht hds, hroot] at hrun
  rcases hdeliver : (deliverAll (some root) (ds.zip (generateAll ds t r.options))).run σ with
    ⟨e | failed, τ⟩
  · rw [Action.bind_run_of_error hdeliver] at hrun
    cases hrun
    exact absurd (deliverAll_run_eq_error hdeliver) (hwritten e rfl)
  · obtain ⟨hreceived, hfailed⟩ := received_of_deliverAll hdeliver
    rw [hsnd] at hreceived hfailed
    rw [Action.bind_run_of_ok hdeliver] at hrun
    rw [← hfailed]
    by_cases hzero : failed = 0
    · rw [if_neg (not_not_intro hzero)] at hrun
      cases hrun
      exact ⟨hreceived, by rw [if_pos hzero]⟩
    · rw [if_pos hzero] at hrun
      cases hrun
      exact ⟨hreceived, by rw [if_neg hzero]⟩

end CommandLine

open CommandLine

/-- A request below a folder that is only to be written out changes nothing. Any other one, whatever
the language of its filters, changes nothing if something cannot be loaded, and fails. If everything is loaded and written, the files are
those of before with the adapters that are generated, of which the last one stands in its place, and
the run fails iff some descriptions have no adapter, with their number and that of all. -/
theorem render_changes_files {l : Filter.Language} {r : RenderRequest} {root : String} {s : Store}
    {outcome : Except Failure Unit} {after : Session} (hroot : r.outDir = some root)
    (hrun : (Command.render r).executeIn l s = (outcome, after))
    (hwritten : ∀ e, outcome = .error e → ¬ e.IsUnwritten) :
    (r.dry = true → outcome = .ok () ∧ after.store = s) ∧
    (r.dry = false →
      (¬ r.Loadable l s → after.store = s ∧ ∃ e, outcome = .error e) ∧
      (r.Loadable l s → ∃ t ds,
        templateOf s r.template = .ok t ∧ descriptionsOf l s r.sources = .ok ds ∧
        Received root (generateAll ds t r.options) s after.store ∧
        outcome =
          if (generateAll ds t r.options).countP (!·.isOk) = 0 then .ok ()
          else .error
            (.ungenerated ((generateAll ds t r.options).countP (!·.isOk)) ds.length))) := by
  constructor
  · intro hdry
    rw [Command.executeIn, Command.run, Command.isDry, hdry] at hrun
    cases hrun
    exact ⟨rfl, rfl⟩
  · intro hdry
    rw [execute_render hdry] at hrun
    constructor
    · intro hload
      obtain ⟨e, he⟩ := renderAdapters_run_of_not_loadable ⟨s, "", ""⟩ hload
      cases hrun.symm.trans he
      exact ⟨rfl, e, rfl⟩
    · rintro ⟨⟨t, ht⟩, hsources⟩
      obtain ⟨ds, hds⟩ := Sources.exists_descriptionsOf_iff.2 hsources
      obtain ⟨hreceived, houtcome⟩ :=
        renderAdapters_run_eq ⟨s, "", ""⟩ hroot ht hds hrun hwritten
      exact ⟨t, ds, ht, hds, hreceived, houtcome⟩

/-- A language in which a single filter is spelt: the items of an array, or the values in an
object. -/
def itemsLanguage : Filter.Language where
  Source := Unit
  Program := Unit
  load text := if text = ".[]" then some () else none
  compile _ := .ok ()
  outputs _ v := match v with
    | .array items => .ofList (items.map fun v => some v.compact)
    | .object members => .ofList (members.map fun m => some m.2.compact)
    | _ => .one none

/-- The items of a document are its descriptions, one by one. -/
theorem itemsLanguage_gives {ds : List Description} (hdepth : (documentOf ds).depth ≤ Json.deepest) :
    itemsLanguage.Gives ".[]" (documentOf ds) (ds.map Description.toJson) := by
  have hdepths : ∀ d ∈ ds, d.toJson.depth ≤ Json.deepest := by
    rw [documentOf, Json.Value.depth] at hdepth
    exact List.forall_mem_map.1 (Json.Value.depthItems_le_iff.1 (Nat.le_of_succ_le hdepth))
  have houtputs : (itemsLanguage.outputs () (documentOf ds)).toList =
      ds.map fun d => some d.toJson.compact := by
    show (Filter.Outputs.ofList _).toList = _
    rw [Filter.Outputs.toList_ofList, List.map_map]
    rfl
  refine ⟨(), (), rfl, rfl, ?_⟩
  rw [houtputs, List.forall₂_map_left_iff, List.forall₂_map_right_iff, List.forall₂_same]
  exact fun d hd => ⟨_, rfl,
    Json.Value.read_compact (numberFree_toJson d) (keysDistinct_toJson d) (hdepths d hd)⟩

/-- Two ranges with one path, and between them one without alternatives. -/
def threeRanges : List Description :=
  [rangeNamed "a.Outer.Range", ⟨"a.Range", none, true, []⟩, rangeNamed "a.Other.Range"]

/-- The files with three ranges and a skeleton. -/
def threeRangesStore : Store :=
  ⟨[(["work", "ranges"], documentText threeRanges), (["work", "bare"], bareTemplateText)],
    [["work"]], ["work"]⟩

/-- The request for the adapters of three ranges, each of them in a document of its own. -/
def threeRangesRequest : RenderRequest :=
  { twoRangesRequest with sources := ⟨some ".[]", ["ranges"]⟩ }

theorem templateOf_threeRangesStore :
    templateOf threeRangesStore (some "bare") = .ok bareTemplate :=
  templateOf_of_file rfl parse_bareTemplateText

theorem descriptionsOf_threeRangesStore :
    descriptionsOf itemsLanguage threeRangesStore threeRangesRequest.sources = .ok threeRanges := by
  have hdepth : (documentOf threeRanges).depth ≤ Json.deepest := by
    decide
  have hdocuments : Documents itemsLanguage threeRangesStore (some ".[]") "ranges"
      (threeRanges.map Description.toJson) :=
    ⟨_, _, rfl, read_documentText hdepth, itemsLanguage_gives hdepth⟩
  refine descriptionsOf_singleton (by simp [Files.Glob.isPattern])
    (descriptionsIn_eq_ok_iff.2 ⟨_, threeRanges.map fun d => [d], hdocuments, ?_, rfl⟩)
  rw [List.forall₂_map_left_iff, List.forall₂_map_right_iff, List.forall₂_same]
  exact fun d _ => listOfValue_toJson_single d

/-- The outer two of three ranges have adapters, on one path. -/
theorem exists_generateAll_threeRanges :
    ∃ (a b : Adapter) (e : GenerateError),
      generateAll threeRanges bareTemplate ⟨false, none, false⟩ = [.ok a, .error e, .ok b] ∧
      (generate (rangeNamed "a.Other.Range") bareTemplate ⟨false, none, false⟩).outcome = .ok b ∧
      a.relativePath = "a/RangeCompositeUserType.java" ∧
      b.relativePath = "a/RangeCompositeUserType.java" := by
  obtain ⟨a, ha, hpath⟩ := generate_rangeNamed "a.Outer.Range"
    "a/RangeCompositeUserType.java" bareTemplate (by decide) (by decide) (by decide +kernel)
  obtain ⟨b, hb, hpath'⟩ := generate_rangeNamed "a.Other.Range"
    "a/RangeCompositeUserType.java" bareTemplate (by decide) (by decide) (by decide +kernel)
  obtain ⟨e, he⟩ : ∃ e, (generate ⟨"a.Range", none, true, []⟩ bareTemplate
      ⟨false, none, false⟩).outcome = .error e :=
    ⟨_, rfl⟩
  refine ⟨a, b, e, ?_, hb, hpath, hpath'⟩
  rw [generateAll, threeRanges, List.map_cons, List.map_cons, List.map_cons, ha, hb, he,
    List.map_nil]

/-- Of three ranges the one without alternatives has no adapter, and of the others the last one keeps
the path that they share. -/
theorem render_changes_files_threeRanges :
    ∃ (outcome : Except Failure Unit) (after : Session) (b : Adapter),
      (Command.render threeRangesRequest).executeIn itemsLanguage threeRangesStore =
        (outcome, after) ∧
      (∀ e, outcome = .error e → ¬ e.IsUnwritten) ∧
      threeRangesRequest.Loadable itemsLanguage threeRangesStore ∧
      outcome = .error (.ungenerated 1 3) ∧
      (generate (rangeNamed "a.Other.Range") bareTemplate ⟨false, none, false⟩).outcome =
        .ok b ∧
      after.store.read "out/a/RangeCompositeUserType.java" = .ok b.source := by
  obtain ⟨a, b, e, hgenerate, hb, hpath, hpath'⟩ := exists_generateAll_threeRanges
  have hisOk : ((deliverAll (some "out") (threeRanges.zip (generateAll threeRanges bareTemplate
      ⟨false, none, false⟩))).run ⟨threeRangesStore, "", ""⟩).1.isOk = true := by
    decide +kernel
  have hroot : threeRangesRequest.outDir = some "out" := rfl
  obtain ⟨outcome, after, hrun, hdelivered⟩ := exists_delivered (r := threeRangesRequest) rfl hroot
    templateOf_threeRangesStore descriptionsOf_threeRangesStore hisOk
  have hwritten : ∀ e, outcome = .error e → ¬ e.IsUnwritten := by
    rintro e rfl hunwritten
    exact hunwritten.not_delivered hdelivered
  have hload : threeRangesRequest.Loadable itemsLanguage threeRangesStore :=
    ⟨⟨_, templateOf_threeRangesStore⟩,
      Sources.exists_descriptionsOf_iff.1 ⟨_, descriptionsOf_threeRangesStore⟩⟩
  obtain ⟨t, ds, ht, hds, hreceived, houtcome⟩ :=
    ((render_changes_files hroot hrun hwritten).2 rfl).2 hload
  cases templateOf_threeRangesStore.symm.trans ht
  cases descriptionsOf_threeRangesStore.symm.trans hds
  have hoptions : threeRangesRequest.options = ⟨false, none, false⟩ := rfl
  rw [hoptions, hgenerate] at hreceived houtcome
  obtain ⟨c, hlast, hread⟩ := hreceived.read_eq a List.mem_cons_self
  have hb' : lastAt? threeRangesStore "out" [.ok a, .error e, .ok b]
      (threeRangesStore.spot (pushPath "out" a.relativePath)) = some b := by
    rw [lastAt?_cons_ok, lastAt?_cons_error, lastAt?_cons_ok, hpath, hpath', if_pos rfl]
    rfl
  have hc : b = c := Option.some.inj (hb'.symm.trans hlast)
  have hpush : pushPath "out" a.relativePath = "out/a/RangeCompositeUserType.java" := by
    rw [hpath]
    decide +kernel
  rw [hpush, ← hc] at hread
  exact ⟨outcome, after, b, hrun, hwritten, hload, houtcome, hb, hread⟩

/-- A request that is only to be written out leaves no file, though everything can be loaded and
every description has an adapter. -/
theorem outlined_request_changes_nothing :
    ∃ (a b : Adapter) (after : Session),
      templateOf twoRangesStore twoRangesRequest.template = .ok bareTemplate ∧
      descriptionsOf Filter.jq twoRangesStore twoRangesRequest.sources = .ok twoRanges ∧
      generateAll twoRanges bareTemplate twoRangesRequest.options = [.ok a, .ok b] ∧
      (Command.render { twoRangesRequest with dry := true }).execute twoRangesStore =
        (.ok (), after) ∧
      ∀ c ∈ [a, b],
        after.store.fileAt? (twoRangesStore.spot (pushPath "out" c.relativePath)) = none := by
  obtain ⟨a, b, hgenerate, hpath, hpath'⟩ := exists_generateAll_twoRanges
  refine ⟨a, b, _, templateOf_twoRangesStore, descriptionsOf_twoRangesStore _, hgenerate, rfl, ?_⟩
  rw [List.forall_mem_cons, List.forall_mem_singleton, hpath, hpath']
  exact ⟨by decide +kernel, by decide +kernel⟩

end WideRow
