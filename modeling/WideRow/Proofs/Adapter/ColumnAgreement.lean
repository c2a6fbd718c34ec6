import WideRow.Proofs.Adapter.Parts
import WideRow.Proofs.Adapter.Readability

/-!
# The columns of an adapter

An adapter speaks of columns in three places: the row type declares one field for each, the body
that gives a property has a case for each property at its position, and the body that instantiates a
row reads cells at positions, in the conditions of its branches, in guards and as arguments. All
three mean the same column by a position: the field that the row type declares there has the name of
the accessors and the class of the cells that are read.

Main definitions:
* `Declares`: what a line of the row type says of a column;
* `AgreesAt`: what the two bodies say of it.

Results:
* `lines_embeddableContent`: the lines of the row type;
* `Definition.agreesAt_positionOf?`: the bodies agree with the schema;
* `columns_agree`: the three pieces agree.
-/

namespace WideRow

open Java

/-! ## Lines -/

namespace Lines

/-- A line at a depth. An empty line is not indented. -/
def lineAt (depth : Nat) (text : String) : String :=
  if text.isEmpty then "" else blanks (4 * depth) ++ text

theorem lineAt_zero (text : String) : lineAt 0 text = text := by
  rw [lineAt]
  split_ifs with hempty
  · exact (String.isEmpty_iff.1 hempty).symm
  · exact String.empty_append

theorem toList_line (w : Lines) (text : String) :
    (w.line text).lines.toList = w.lines.toList ++ [lineAt w.depth text] := Array.toList_push

/-- Items that are written on a line each. -/
theorem writeAll_line {α : Type} (w : Lines) (text : α → String) (items : List α) :
    (w.writeAll (fun w a => w.line (text a)) items).lines.toList =
        w.lines.toList ++ items.map (fun a => lineAt w.depth (text a)) ∧
      (w.writeAll (fun w a => w.line (text a)) items).depth = w.depth := by
  induction items generalizing w with
  | nil => simp [writeAll]
  | cons a rest ih =>
    obtain ⟨hlines, hdepth⟩ := ih (w.line (text a))
    refine ⟨hlines.trans ?_, hdepth⟩
    rw [toList_line, List.append_assoc, List.map_cons]
    rfl

end Lines

/-! ## The declarations of the row type -/

/-- The line declares the field, with or without a hint that no row lacks it. -/
def Declares (line : String) (f : Field) : Prop :=
  line = f.type.text ++ " " ++ f.name ++ ";" ∨
    line = "@Column(nullable = false) " ++ (f.type.text ++ " " ++ f.name ++ ";")

theorem declares_fieldDeclaration (common : FieldSet) (nonNullHints : Bool) (f : Field) :
    Declares (fieldDeclaration common nonNullHints f) f := by
  unfold fieldDeclaration
  dsimp only
  split_ifs
  · exact .inr (by simp only [String.append_assoc])
  · exact .inl (by simp only [String.append_assoc, String.empty_append])

/-- A field whose type is on one line is declared on one line. -/
theorem Declares.newline_notMem {line : String} {f : Field} (h : Declares line f)
    (hname : Name.isIdentifier f.name) (htype : '\n' ∉ f.type.text.toList) :
    '\n' ∉ line.toList := by
  have hname : '\n' ∉ f.name.toList := fun hmem =>
    absurd (Name.isInner_of_mem_identifier hname hmem) (by decide)
  rcases h with rfl | rfl
  · simp [htype, hname]
  · simp [htype, hname]

/-- The lines of the row type are the declarations of the fields of the schema. -/
theorem lines_embeddableContent (u : Unified) (nonNullHints : Bool) :
    (embeddableContent u nonNullHints).lines.toList =
      u.schema.fields.toList.map (fieldDeclaration u.common nonNullHints) := by
  have hlines := (Lines.empty.writeAll_line (fieldDeclaration u.common nonNullHints)
    u.schema.fields.toList).1
  refine hlines.trans ?_
  simp only [Lines.empty, Lines.lineAt_zero, List.nil_append]

/-- The row type declares the fields of the schema, one on each line. -/
theorem declares_embeddableContent (u : Unified) (nonNullHints : Bool) :
    List.Forall₂ Declares (embeddableContent u nonNullHints).lines.toList
      u.schema.fields.toList := by
  rw [lines_embeddableContent]
  exact List.forall₂_map_left_iff.2
    (List.forall₂_same.2 fun f _ => declares_fieldDeclaration _ _ f)

/-! ## Agreement -/

/-- No type of the definition goes over several lines. -/
def Definition.HasOneLineTypes (d : Definition) : Prop :=
  ∀ a ∈ d.alternatives, ∀ f ∈ a.fields, '\n' ∉ f.type.text.toList

instance (d : Definition) : Decidable d.HasOneLineTypes :=
  inferInstanceAs (Decidable (∀ a ∈ d.alternatives, ∀ f ∈ a.fields, '\n' ∉ f.type.text.toList))

/-- The bodies of both methods mean a field by a position, and both mention the position. -/
structure AgreesAt (getBody newBody : List Statement) (k : Nat) (f : Field) : Prop where
  /-- every case for the position calls the accessor of the field -/
  accessor_eq : ∀ e, HasCase getBody k e → ∃ x, e = .call (.name x) f.name []
  /-- the cell at the position is never read as any other class than that of the field -/
  className_eq : ∀ className, (CellRead.mk k className).asExpression ∈ partsOfBlock newBody →
    className = f.type.erasure
  accessed : ∃ e, HasCase getBody k e
  tested : ∃ test ∈ branchTests newBody, ∃ className,
    (CellRead.mk k className).asExpression ∈ test.parts

theorem CellRead.asExpression_injective {r r' : CellRead} (h : r.asExpression = r'.asExpression) :
    r = r' := by
  cases r
  cases r'
  simpa [asExpression] using h

namespace Definition

variable {d : Definition} {f : Field} {k : Nat}

theorem positionOf?_of_mem_order {c : Candidate} (hc : c ∈ d.planner.order)
    (h : (f, k) ∈ c.slots) : d.schema.positionOf? f = some k := by
  obtain ⟨a, -, rfl⟩ := mem_order_iff.1 hc
  exact (Candidate.mem_slots_iff.1 h).2

/-- Every position is a slot of some candidate. -/
theorem exists_mem_order_of_positionOf? (h : d.schema.positionOf? f = some k) :
    ∃ c ∈ d.planner.order, (f, k) ∈ c.slots := by
  have hmem : f ∈ d.schema.fields := List.mem_of_getElem? (Schema.positionOf?_eq_some_iff.1 h)
  obtain ⟨a, ha, hf⟩ := mem_schema_iff.1 hmem
  exact ⟨_, mem_order_iff.2 ⟨a, ha, rfl⟩, Candidate.mem_slots_iff.2 ⟨hf, h⟩⟩

theorem exists_slot_of_hasCase {e : Expression}
    (h : HasCase (propertyCascade d.planner).asStatements k e) :
    ∃ f x, d.schema.positionOf? f = some k ∧ e = .call (.name x) f.name [] := by
  obtain ⟨c, hc, f, hslot, rfl⟩ := hasCase_propertyBranches_iff.1 h
  exact ⟨f, _, positionOf?_of_mem_order hc hslot, rfl⟩

theorem exists_slot_of_call {receiver : Expression} {method : String}
    {arguments : List Expression}
    (h : .call receiver method arguments ∈
      partsOfBlock (instantiateCascade d.planner).asStatements) :
    ∃ f k, d.schema.positionOf? f = some k ∧
      .call receiver method arguments = (CellRead.of (f, k)).asExpression := by
  rcases mem_partsOfBlock_branchStatements.1 h with ⟨b, hb, h⟩ | h
  · obtain ⟨c, later, hsub, rfl⟩ := exists_of_mem_instantiateBranches hb
    obtain ⟨e, he, ⟨f, k⟩, hslot, hcall⟩ := exists_slot_of_call_mem_instantiateBranch h
    exact ⟨f, k, positionOf?_of_mem_order (hsub he) hslot, hcall⟩
  · exact absurd h (call_notMem_message _)

/-- The bodies agree with the schema at every position. -/
theorem agreesAt_positionOf? (h : d.schema.positionOf? f = some k) :
    AgreesAt (propertyCascade d.planner).asStatements (instantiateCascade d.planner).asStatements
      k f where
  accessor_eq := by
    intro e hcase
    obtain ⟨g, x, hg, rfl⟩ := exists_slot_of_hasCase hcase
    rw [Schema.positionOf?_injective h hg]
    exact ⟨x, rfl⟩
  className_eq := by
    intro className hread
    obtain ⟨g, k', hg, hcall⟩ := exists_slot_of_call hread
    cases CellRead.asExpression_injective hcall
    rw [Schema.positionOf?_injective h hg]
  accessed := by
    obtain ⟨c, hc, hslot⟩ := exists_mem_order_of_positionOf? h
    exact ⟨_, hasCase_propertyBranches_iff.2 ⟨c, hc, f, hslot, rfl⟩⟩
  tested := by
    obtain ⟨c, hc, hslot⟩ := exists_mem_order_of_positionOf? h
    rw [Cascade.asStatements, instantiateCascade, branchTests_instantiateBranches]
    refine ⟨_, List.mem_map_of_mem hc, f.type.erasure, call_mem_populatedExpression.2 ?_⟩
    exact ⟨_, List.mem_map_of_mem (Candidate.mem_slotsByPosition.2 hslot), rfl⟩

end Definition

/-- For a built definition whose types have class literals and are written on one line each: the row
type has as many lines as the schema has columns, both bodies can be read as Java, and they mention
no other positions than those of the schema. At each position, the line declares the field of the
column; every case for the position calls an accessor of its name, and every cell that is read at
the position, in whatever condition or argument, is read as the class of its type. Both a case and
the condition of a branch mention the position. -/
theorem columns_agree {description : Description} {d : Definition}
    (h : description.build = .ok d) (hliterals : d.HasClassLiterals)
    (hlines : d.HasOneLineTypes) (nonNullHints : Bool) :
    ∃ lines getBody newBody,
      (embeddableContent d.unify nonNullHints).text = String.intercalate "\n" lines ∧
      (∀ line ∈ lines, '\n' ∉ line.toList) ∧ lines.length = d.schema.width ∧
      Java.read (propertyCascade d.planner).write.text = some getBody ∧
      Java.read (instantiateCascade d.planner).write.text = some newBody ∧
      (∀ k e, HasCase getBody k e → k < d.schema.width) ∧
      (∀ receiver method arguments, .call receiver method arguments ∈ partsOfBlock newBody →
        ∃ k className, k < d.schema.width ∧
          .call receiver method arguments = (CellRead.mk k className).asExpression) ∧
      ∀ k line, lines[k]? = some line → ∃ f, d.schema.positionOf? f = some k ∧
        Declares line f ∧ AgreesAt getBody newBody k f := by
  have hwf := Description.build_wellFormed h
  refine ⟨d.schema.fields.toList.map (fieldDeclaration d.commonFields nonNullHints), _, _, ?_, ?_,
    List.length_map _, Cascade.read_text hwf.readable_propertyCascade,
    Cascade.read_text (hwf.readable_instantiateCascade hliterals), ?_, ?_, ?_⟩
  · rw [Lines.text, lines_embeddableContent]
    rfl
  · intro line hline
    obtain ⟨f, hf, rfl⟩ := List.mem_map.1 hline
    obtain ⟨a, ha, hf⟩ := Definition.mem_schema_iff.1 hf
    have hname := (hwf.alternative_wellFormed a ha).name_free hf
    exact (declares_fieldDeclaration _ _ f).newline_notMem hname.1 (hlines a ha f hf)
  · intro k e hcase
    obtain ⟨f, -, hk, -⟩ := Definition.exists_slot_of_hasCase hcase
    exact Schema.lt_width_of_positionOf? hk
  · intro receiver method arguments hcall
    obtain ⟨f, k, hk, heq⟩ := Definition.exists_slot_of_call hcall
    exact ⟨k, _, Schema.lt_width_of_positionOf? hk, heq⟩
  · intro k line hline
    rw [List.getElem?_map] at hline
    obtain ⟨f, hf, rfl⟩ := Option.map_eq_some_iff.1 hline
    have hk := Schema.positionOf?_eq_some_iff.2 hf
    exact ⟨f, hk, declares_fieldDeclaration _ _ f, Definition.agreesAt_positionOf? hk⟩

/-- Two alternatives with fields of one name, of which one is an array and the other is not. -/
def twoTypes : Description :=
  { name := "a.Mark", package := none, closed := true
    alternatives :=
      [⟨"a.Mark.Points", .record [⟨"at", "int[]"⟩, ⟨"tags", "java.util.List<String>"⟩]⟩,
        ⟨"a.Mark.Point", .record [⟨"at", "int"⟩]⟩] }

/-- The definition of these. -/
def twoTypesDefinition : Definition :=
  ⟨"a.Mark", none,
    [⟨"a.Mark.Points", [.of "at" "int[]", .of "tags" "java.util.List<String>"]⟩,
      ⟨"a.Mark.Point", [.of "at" "int"]⟩]⟩

theorem columns_agree_twoTypes :
    twoTypes.build = .ok twoTypesDefinition ∧ twoTypesDefinition.HasClassLiterals ∧
      twoTypesDefinition.HasOneLineTypes ∧
      ∃ lines getBody newBody,
        (embeddableContent twoTypesDefinition.unify true).text = String.intercalate "\n" lines ∧
        Java.read (propertyCascade twoTypesDefinition.planner).write.text = some getBody ∧
        Java.read (instantiateCascade twoTypesDefinition.planner).write.text = some newBody ∧
        ∃ line, lines[1]? = some line ∧ Declares line (.of "at" "int[]") ∧
          AgreesAt getBody newBody 1 (.of "at" "int[]") := by
  have hbuild : twoTypes.build = .ok twoTypesDefinition := by
    decide
  have hliterals : twoTypesDefinition.HasClassLiterals := by
    have harray : IsClassName "int[]" := ⟨"int", 1, by decide, by decide⟩
    have hplain : ∀ s, Name.isQualified s → IsClassName s := fun s hs =>
      ⟨s, 0, hs, String.append_empty.symm⟩
    have herasures : ∀ a ∈ twoTypesDefinition.alternatives, ∀ f ∈ a.fields,
        f.type.erasure = "int[]" ∨ Name.isQualified f.type.erasure := by
      decide
    intro a ha f hf
    rcases herasures a ha f hf with he | he
    · exact he ▸ harray
    · exact hplain _ he
  have hlines : twoTypesDefinition.HasOneLineTypes := by
    decide
  have hposition : twoTypesDefinition.schema.positionOf? (.of "at" "int[]") = some 1 := by
    decide
  obtain ⟨lines, getBody, newBody, htext, -, hlength, hget, hnew, -, -, hall⟩ :=
    columns_agree hbuild hliterals hlines true
  have hin : 1 < lines.length := by
    rw [hlength]
    decide
  have hline := List.getElem?_eq_getElem hin
  obtain ⟨f, hf, hdeclares, hagrees⟩ := hall 1 _ hline
  cases Schema.positionOf?_injective hposition hf
  exact ⟨hbuild, hliterals, hlines, lines, getBody, newBody, htext, hget, hnew, _, hline, hdeclares,
    hagrees⟩

end WideRow
