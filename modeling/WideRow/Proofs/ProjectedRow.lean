import WideRow.Proofs.Adapter.ColumnAgreement
import WideRow.Proofs.Adapter.Property

/-!
# When an instance has a row, and what the row holds

An instance has a row iff its alternative is declared and has every field that the instance carries.
The row can be written slot by slot into absent cells: no two slots share a position and none lies
outside the row, so each write stays, and a column that no slot belongs to stays absent.

Main definitions:
* `Candidate.writeAll`: the cells of an instance written one after the other;
* `Alternative.HasFirstStray`: the first field of an instance that its alternative lacks.

Results:
* `Candidate.writeAll_eq_layOut`: what is written is what is laid out position by position;
* `Definition.WellFormed.project_eq_ok_iff`, `Definition.WellFormed.project_eq_error_iff`: the
  outcomes of a projection;
* `project_total_and_exact`: both for built definitions, with all cells of the row.
-/

namespace WideRow

open Json

/-! ## Rows that are written -/

/-- The row with a cell set. A row without the position cannot be written to there. -/
def Row.write? (r : Row) (position : Nat) (v : Value) : Option Row :=
  if position < r.width then some ⟨r.cells.set position v⟩ else none

namespace Candidate

/-- The row with the cell of a slot written, if the fields hold a value under its name. -/
def writeSlot (fields : Members) (r : Row) (slot : Field × Nat) : Option Row :=
  match fields.get? slot.1.name with
  | some v => r.write? slot.2 v
  | none => some r

/-- The row with the cells of all slots written, in their order. -/
def writeAll (c : Candidate) (fields : Members) (r : Row) : Option Row :=
  c.slots.foldlM (writeSlot fields) r

/-- The row of the fields, position by position. -/
def layOut (c : Candidate) (fields : Members) (width : Nat) : Row :=
  ⟨(List.range width).map (Planner.cellAt c fields)⟩

variable {a : Alternative} {fields : Members} {width : Nat}

theorem layOut_nil (a : Alternative) (fields : Members) (width : Nat) :
    layOut ⟨a, []⟩ fields width = .absent width := by
  have habsent : Planner.cellAt ⟨a, []⟩ fields = fun _ => Value.null := rfl
  rw [layOut, habsent, List.map_const', List.length_range, Row.absent]

/-- One slot more changes no cell but its own. -/
theorem cellAt_concat {slots : List (Field × Nat)} {slot : Field × Nat}
    (hnew : slot.2 ∉ slots.map Prod.snd) (k : Nat) :
    Planner.cellAt ⟨a, slots ++ [slot]⟩ fields k =
      if k = slot.2 then (fields.get? slot.1.name).getD .null
      else Planner.cellAt ⟨a, slots⟩ fields k := by
  rw [Planner.cellAt, Planner.cellAt, List.find?_append]
  dsimp only
  split_ifs with hk
  · subst hk
    have hnone : slots.find? (·.2 == slot.2) = none := by
      rw [List.find?_eq_none]
      intro other hother heq
      exact hnew (beq_iff_eq.1 heq ▸ List.mem_map_of_mem hother)
    simp [hnone]
  · have hother : (slot.2 == k) = false := beq_false_of_ne (Ne.symm hk)
    simp [hother]

/-- One write brings the row of the slots so far to that of the slots with one more. -/
theorem writeSlot_layOut {slots : List (Field × Nat)} {slot : Field × Nat}
    (hnew : slot.2 ∉ slots.map Prod.snd) (hin : slot.2 < width) :
    writeSlot fields (layOut ⟨a, slots⟩ fields width) slot =
      some (layOut ⟨a, slots ++ [slot]⟩ fields width) := by
  have hwidth : (layOut ⟨a, slots⟩ fields width).width = width := by
    rw [layOut, Row.width, List.length_map, List.length_range]
  rw [writeSlot]
  cases hget : fields.get? slot.1.name with
  | none =>
    -- the cell was absent, as no slot in front has the position
    have habsent : Planner.cellAt ⟨a, slots⟩ fields slot.2 = .null := by
      rw [Planner.cellAt, List.find?_eq_none.2]
      intro other hother heq
      exact hnew (beq_iff_eq.1 heq ▸ List.mem_map_of_mem hother)
    refine congrArg (fun cells => some (Row.mk cells)) (List.map_congr_left fun k _ => ?_)
    rw [cellAt_concat hnew, hget]
    split_ifs with hk
    · rw [hk, habsent, Option.getD_none]
    · rfl
  | some v =>
    dsimp only
    rw [Row.write?, hwidth, if_pos hin]
    refine congrArg (fun cells => some (Row.mk cells)) (List.ext_getElem ?_ fun k hk hk' => ?_)
    · simp [layOut]
    · simp only [layOut, List.getElem_set, List.getElem_map, List.getElem_range]
      rw [cellAt_concat hnew, hget, Option.getD_some]
      simp only [eq_comm]

/-- Slots with positions of their own, all inside the row, are all written, and the row is the one
that is laid out position by position. -/
theorem writeAll_eq_layOut {c : Candidate} (hnodup : (c.slots.map Prod.snd).Nodup)
    (hin : ∀ slot ∈ c.slots, slot.2 < width) :
    c.writeAll fields (.absent width) = some (c.layOut fields width) := by
  obtain ⟨a, slots⟩ := c
  have hrun : ∀ done rest : List (Field × Nat), ((done ++ rest).map Prod.snd).Nodup →
      (∀ slot ∈ rest, slot.2 < width) →
      rest.foldlM (writeSlot fields) (layOut ⟨a, done⟩ fields width) =
        some (layOut ⟨a, done ++ rest⟩ fields width) := by
    intro done rest
    induction rest generalizing done with
    | nil => intro _ _; rw [List.append_nil]; rfl
    | cons slot rest ih =>
      intro hnodup hin
      rw [List.forall_mem_cons] at hin
      have hnew : slot.2 ∉ done.map Prod.snd := by
        rw [List.map_append, List.map_cons] at hnodup
        exact fun hmem => List.disjoint_of_nodup_append hnodup hmem List.mem_cons_self
      rw [List.append_cons] at hnodup ⊢
      rw [List.foldlM_cons, writeSlot_layOut hnew hin.1]
      exact ih _ hnodup hin.2
  rw [writeAll, ← layOut_nil a fields width]
  exact hrun [] slots hnodup hin

end Candidate

/-! ## Outcomes of a projection -/

/-- The first field of the instance that the alternative lacks, in the order of the instance. -/
def Alternative.HasFirstStray (a : Alternative) (i : Instance) (stray : String) : Prop :=
  ∃ before v after, i.fields = before ++ (stray, v) :: after ∧
    (∀ entry ∈ before, ∃ f ∈ a.fields, f.name = entry.1) ∧ ¬ ∃ f ∈ a.fields, f.name = stray

namespace Alternative

variable {a : Alternative} {name : String}

theorem field?_isNone_iff : (a.field? name).isNone ↔ ¬ ∃ f ∈ a.fields, f.name = name := by
  rw [Option.isNone_iff_eq_none, field?, List.find?_eq_none]
  simp

/-- The search for a field that the alternative lacks ends at the first stray one. -/
theorem find?_stray_eq_some_iff {i : Instance} {stray : String} :
    (∃ v, i.fields.find? (fun entry => (a.field? entry.1).isNone) = some (stray, v)) ↔
      a.HasFirstStray i stray := by
  simp only [List.find?_eq_some_iff_append, HasFirstStray, Bool.not_eq_true', ← Bool.not_eq_true,
    field?_isNone_iff, not_not]
  constructor
  · rintro ⟨v, hstray, before, after, hfields, hbefore⟩
    exact ⟨before, v, after, hfields, hbefore, hstray⟩
  · rintro ⟨before, v, after, hfields, hbefore, hstray⟩
    exact ⟨v, hstray, before, after, hfields, hbefore⟩

/-- There is no stray field iff the alternative has all fields of the instance. -/
theorem find?_stray_eq_none_iff {i : Instance} :
    i.fields.find? (fun entry => (a.field? entry.1).isNone) = none ↔
      ∀ entry ∈ i.fields, ∃ f ∈ a.fields, f.name = entry.1 := by
  simp only [List.find?_eq_none, field?_isNone_iff, not_not]

end Alternative

namespace Definition

variable {d : Definition} {i : Instance} {a : Alternative}

theorem candidate?_eq_none_iff {name : String} :
    d.planner.candidate? name = none ↔ ∀ a ∈ d.alternatives, a.name ≠ name := by
  rw [Planner.candidate?, List.find?_eq_none]
  constructor
  · intro hall a ha heq
    exact hall _ (mem_order_iff.2 ⟨a, ha, rfl⟩) (decide_eq_true heq)
  · intro hall c hc heq
    obtain ⟨a, ha, rfl⟩ := mem_order_iff.1 hc
    exact hall a ha (of_decide_eq_true heq)

/-- The outcome of a projection for an instance of a declared alternative. -/
theorem WellFormed.project_of_name (h : d.WellFormed) (ha : a ∈ d.alternatives)
    (hname : i.alternative = a.name) :
    d.planner.project i =
      match i.fields.find? fun entry => (a.field? entry.1).isNone with
      | some (stray, _) => .error (.strayField i.alternative stray)
      | none => .ok ((Candidate.of d.schema a).layOut i.fields d.schema.width) := by
  rw [Planner.project, hname, h.candidate?_name ha]
  rfl

/-- An instance of an alternative that is not declared has no row. -/
theorem project_of_undeclared (hnone : ∀ a ∈ d.alternatives, a.name ≠ i.alternative) :
    d.planner.project i = .error (.undeclared i.alternative) := by
  rw [Planner.project, candidate?_eq_none_iff.2 hnone]

/-- An instance has a row iff it belongs to one of the alternatives. -/
theorem WellFormed.project_eq_ok_iff (h : d.WellFormed) {row : Row} :
    d.planner.project i = .ok row ↔
      ∃ a ∈ d.alternatives, i.BelongsTo a ∧ row = a.rowOver d.schema i := by
  constructor
  · intro hrow
    by_cases hdeclared : ∃ a ∈ d.alternatives, a.name = i.alternative
    · obtain ⟨a, ha, hname⟩ := hdeclared
      have hproject := h.project_of_name ha hname.symm
      rw [hrow] at hproject
      cases hfind : i.fields.find? fun entry => (a.field? entry.1).isNone with
      | some entry =>
        rw [hfind] at hproject
        cases hproject
      | none =>
        have hbelongs : i.BelongsTo a := ⟨hname.symm, Alternative.find?_stray_eq_none_iff.1 hfind⟩
        rw [h.project_eq_ok ha hbelongs] at hrow
        exact ⟨a, ha, hbelongs, (Except.ok.inj hrow).symm⟩
    · rw [project_of_undeclared fun a ha heq => hdeclared ⟨a, ha, heq⟩] at hrow
      cases hrow
  · rintro ⟨a, ha, hbelongs, rfl⟩
    exact h.project_eq_ok ha hbelongs

/-- For an instance of a declared alternative, a projection fails only for the first stray field. -/
theorem WellFormed.project_eq_error_iff_of_name (h : d.WellFormed) (ha : a ∈ d.alternatives)
    (hname : i.alternative = a.name) {e : PlanError} :
    d.planner.project i = .error e ↔
      ∃ stray, a.HasFirstStray i stray ∧ e = .strayField i.alternative stray := by
  rw [h.project_of_name ha hname]
  simp only [← Alternative.find?_stray_eq_some_iff]
  cases hfind : i.fields.find? fun entry => (a.field? entry.1).isNone with
  | none =>
    refine iff_of_false nofun ?_
    rintro ⟨stray, ⟨v, hv⟩, -⟩
    cases hv
  | some entry =>
    obtain ⟨stray, v⟩ := entry
    rw [Except.error.injEq]
    constructor
    · rintro rfl
      exact ⟨stray, ⟨v, rfl⟩, rfl⟩
    · rintro ⟨stray', ⟨v', hv'⟩, rfl⟩
      cases hv'
      rfl

/-- A projection fails for the name of no alternative, or for the first stray field. -/
theorem WellFormed.project_eq_error_iff (h : d.WellFormed) {e : PlanError} :
    d.planner.project i = .error e ↔
      (e = .undeclared i.alternative ∧ ∀ a ∈ d.alternatives, a.name ≠ i.alternative) ∨
      ∃ a ∈ d.alternatives, a.name = i.alternative ∧ ∃ stray, a.HasFirstStray i stray ∧
        e = .strayField i.alternative stray := by
  constructor
  · intro herror
    by_cases hdeclared : ∃ a ∈ d.alternatives, a.name = i.alternative
    · obtain ⟨a, ha, hname⟩ := hdeclared
      exact .inr ⟨a, ha, hname, (h.project_eq_error_iff_of_name ha hname.symm).1 herror⟩
    · have hnone : ∀ a ∈ d.alternatives, a.name ≠ i.alternative := fun a ha heq =>
        hdeclared ⟨a, ha, heq⟩
      rw [project_of_undeclared hnone, Except.error.injEq] at herror
      exact .inl ⟨herror.symm, hnone⟩
  · rintro (⟨rfl, hnone⟩ | ⟨a, ha, hname, hstray⟩)
    · exact project_of_undeclared hnone
    · exact (h.project_eq_error_iff_of_name ha hname.symm).2 hstray

/-- The row of an instance is written slot by slot, each write inside the row. -/
theorem WellFormed.writeAll_eq_rowOver (h : d.WellFormed) (ha : a ∈ d.alternatives)
    (hi : i.BelongsTo a) :
    (Candidate.of d.schema a).writeAll i.fields (.absent d.schema.width) =
      some (a.rowOver d.schema i) := by
  have hnodup := Candidate.positions_nodup (h.alternative_wellFormed a ha) (covers_of_mem ha)
  have hproject := h.project_of_name ha hi.1
  rw [h.project_eq_ok ha hi, Alternative.find?_stray_eq_none_iff.2 hi.2, Except.ok.injEq] at hproject
  rw [hproject]
  exact Candidate.writeAll_eq_layOut hnodup fun slot hslot =>
    Schema.lt_width_of_positionOf? (Candidate.mem_slots_iff.1 hslot).2

end Definition

/-! ## Built definitions -/

/-- For a built definition and any instance: there is a row iff the alternative is declared and has
every field that the instance carries; else the failure names the alternative or the first stray
field. The row is written slot by slot, each write inside the row, and has one cell for each column:
the value of the instance for the field of the column if the alternative declares that very field,
name and type, and absent otherwise. -/
theorem project_total_and_exact {description : Description} {d : Definition}
    (h : description.build = .ok d) (i : Instance) :
    ((∃ row, d.planner.project i = .ok row) ↔
      ∃ a ∈ d.alternatives, i.alternative = a.name ∧
        ∀ entry ∈ i.fields, ∃ f ∈ a.fields, f.name = entry.1) ∧
    (∀ e, d.planner.project i = .error e ↔
      (e = .undeclared i.alternative ∧ ∀ a ∈ d.alternatives, a.name ≠ i.alternative) ∨
      ∃ a ∈ d.alternatives, a.name = i.alternative ∧ ∃ stray, a.HasFirstStray i stray ∧
        e = .strayField i.alternative stray) ∧
    ∀ row, d.planner.project i = .ok row →
      ∃ a ∈ d.alternatives, i.alternative = a.name ∧
        (Candidate.of d.schema a).writeAll i.fields (.absent d.schema.width) = some row ∧
        row.width = d.schema.width ∧
        ∀ (k : Nat) (f : Field), d.schema.fields.toList[k]? = some f →
          row.cells[k]? = some (if f ∈ a.fields then i.valueOf f else .null) := by
  have hwf := Description.build_wellFormed h
  refine ⟨⟨?_, ?_⟩, fun e => hwf.project_eq_error_iff, fun row hrow => ?_⟩
  · rintro ⟨row, hrow⟩
    obtain ⟨a, ha, hbelongs, -⟩ := hwf.project_eq_ok_iff.1 hrow
    exact ⟨a, ha, hbelongs⟩
  · rintro ⟨a, ha, hbelongs⟩
    exact ⟨_, hwf.project_eq_ok ha hbelongs⟩
  · obtain ⟨a, ha, hbelongs, rfl⟩ := hwf.project_eq_ok_iff.1 hrow
    refine ⟨a, ha, hbelongs.1, hwf.writeAll_eq_rowOver ha hbelongs, a.width_rowOver _ i, ?_⟩
    intro k f hf
    rw [Alternative.rowOver, List.getElem?_map, hf, Option.map_some]

/-- An instance without one of its fields leaves the column of that field absent, and also the column
of the same name and another type. -/
theorem project_total_and_exact_twoTypes :
    twoTypes.build = .ok twoTypesDefinition ∧
      ∃ row, twoTypesDefinition.planner.project ⟨"a.Mark.Points", [("at", .array [])]⟩ = .ok row ∧
        row.width = 3 ∧ row.cells[0]? = some .null ∧ row.cells[1]? = some (.array []) ∧
        row.cells[2]? = some .null := by
  have hbuild : twoTypes.build = .ok twoTypesDefinition := by
    decide
  have hdeclared : ∃ a ∈ twoTypesDefinition.alternatives, "a.Mark.Points" = a.name ∧
      ∀ entry ∈ [("at", Value.array [])], ∃ f ∈ a.fields, f.name = entry.1 := by
    simp [twoTypesDefinition, Field.of]
  obtain ⟨hok, -, hcells⟩ :=
    project_total_and_exact hbuild ⟨"a.Mark.Points", [("at", .array [])]⟩
  obtain ⟨row, hrow⟩ := hok.2 hdeclared
  obtain ⟨a, ha, hname, -, hwidth, hcell⟩ := hcells row hrow
  have hpoints : a = ⟨"a.Mark.Points", [.of "at" "int[]", .of "tags" "java.util.List<String>"]⟩ :=
    (Description.build_wellFormed hbuild).eq_of_name_eq ha List.mem_cons_self hname.symm
  subst hpoints
  refine ⟨hbuild, row, hrow, hwidth, ?_, ?_, ?_⟩
  · exact hcell 0 (.of "at" "int") (by decide)
  · exact hcell 1 (.of "at" "int[]") (by decide)
  · exact hcell 2 (.of "tags" "java.util.List<String>") (by decide)

end WideRow
