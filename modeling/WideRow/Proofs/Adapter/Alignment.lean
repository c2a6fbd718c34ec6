import Mathlib.Data.List.DropRight
import WideRow.Proofs.Adapter.Substitution
import WideRow.Proofs.Adapter.UnbrokenLines

/-!
# Bodies at their places

A skeleton knows the column of a slot before any slot is filled: it goes through the pieces, adds
the bytes of each literal, starts anew where a literal ends a line, and counts other slots as
nothing. A body is pasted there with its further lines shifted to that column. If another slot on the
line is filled, then the column is too small. But if there is only literal text before the slot on
its line, then the column is the width of that text, and every line of the body stands just that much
further to the right than in the body on its own.

Main definitions:
* `Template.EndsInLiteral`: only literal text stands on the line on which some pieces end;
* `Lines.AlignedAt`: lines with a margin, of which all stand at the column where the margin ends.

Results:
* `Template.exists_margin`: what is on the line is the same however the slots are filled, and the
  column is its width;
* `Lines.Unbroken.alignedAt`: unbroken lines at a column;
* `bodies_aligned`: the bodies of an adapter.
-/

namespace WideRow

/-! ## Columns -/

/-- The piece is a literal. -/
def Segment.isLiteral : Segment → Bool
  | .literal _ => true
  | .slot _ => false

/-- The piece is a literal in which a line ends. -/
def Segment.endsLine : Segment → Bool
  | .literal text => '\n' ∈ text.toList
  | .slot _ => false

namespace Template

/-- The column after a piece that begins at a column. -/
def columnPast (column : Nat) : Segment → Nat
  | .literal text => columnAfter column text
  | .slot _ => column

/-- Only literal text stands on the line on which the pieces end: since the last piece in which a
line ends, there is no slot. -/
def EndsInLiteral (before : List Segment) : Prop :=
  ∀ p ∈ before.rtakeWhile (!·.endsLine), p.isLiteral

instance (before : List Segment) : Decidable (EndsInLiteral before) :=
  inferInstanceAs (Decidable (∀ p ∈ before.rtakeWhile (!·.endsLine), p.isLiteral = true))

/-- The column of a slot is that after the pieces before it. -/
theorem columnFrom_append {slot : Slot} {before : List Segment} (h : .slot slot ∉ before)
    (column : Nat) (after : List Segment) :
    columnFrom slot column (before ++ .slot slot :: after) = before.foldl columnPast column := by
  induction before generalizing column with
  | nil => simp [columnFrom]
  | cons p before ih =>
    rw [List.mem_cons, not_or] at h
    cases p with
    | literal text => exact ih h.2 _
    | slot s =>
      have hne : s ≠ slot := fun he => h.1 (he ▸ rfl)
      rw [List.cons_append, columnFrom, if_neg hne, ih h.2]
      rfl

/-- A literal without a line end moves the column by its bytes. -/
theorem columnAfter_of_notMem {text : String} (h : '\n' ∉ text.toList) (column : Nat) :
    columnAfter column text = column + text.utf8ByteSize := by
  have hall := Name.takeWhile_reverse_append [] h
  rw [List.nil_append, List.reverse_nil, List.takeWhile_nil, List.append_nil] at hall
  unfold columnAfter
  dsimp only
  rw [if_neg h, hall, Text.utf8ByteSize_ofList_of_perm (List.reverse_perm _),
    String.ofList_toList]

/-- A literal that ends a line leaves the column at the bytes that it has on the next one. -/
theorem columnAfter_append_newline {margin : String} (h : '\n' ∉ margin.toList) (column : Nat)
    (text : String) : columnAfter column (text ++ "\n" ++ margin) = margin.utf8ByteSize := by
  have hchars : (text ++ "\n" ++ margin).toList = (text.toList ++ ['\n']) ++ margin.toList := by
    simp
  have hmem : '\n' ∈ (text ++ "\n" ++ margin).toList := by
    simp
  unfold columnAfter
  dsimp only
  rw [if_pos hmem, hchars, Name.takeWhile_reverse_append _ h, List.reverse_concat,
    List.takeWhile_cons_of_neg (by decide), List.append_nil,
    Text.utf8ByteSize_ofList_of_perm (List.reverse_perm _), String.ofList_toList]

/-! ## Margins -/

theorem not_endsInLiteral_slot (before : List Segment) (s : Slot) :
    ¬ EndsInLiteral (before ++ [.slot s]) := by
  unfold EndsInLiteral
  rw [List.rtakeWhile_concat_pos _ _ _ rfl]
  intro h
  have hslot := h (.slot s) (by simp)
  cases hslot

theorem EndsInLiteral.of_append_literal {before : List Segment} {text : String}
    (h : EndsInLiteral (before ++ [.literal text])) (htext : '\n' ∉ text.toList) :
    EndsInLiteral before := by
  have hends : (!(Segment.literal text).endsLine) = true := by
    simpa [Segment.endsLine] using htext
  unfold EndsInLiteral at h
  rw [List.rtakeWhile_concat_pos (fun p : Segment => !p.endsLine) before _ hends] at h
  intro p hp
  exact h p (List.mem_append_left _ hp)

theorem render_append_literal (before : List Segment) (text : String) (values : SlotValues) :
    render ⟨before ++ [.literal text]⟩ values = render ⟨before⟩ values ++ text := by
  simp [render, Segment.fill]

/-- If only literal text stands on the line on which the pieces end, then it is the same text
however the slots are filled, and it ends at the column after the pieces. -/
theorem exists_margin {before : List Segment} (h : EndsInLiteral before) :
    ∃ margin : String, '\n' ∉ margin.toList ∧
      before.foldl columnPast 0 = margin.utf8ByteSize ∧
      ∀ values : SlotValues, ∃ above, Text.EndsLine above ∧
        render ⟨before⟩ values = above ++ margin := by
  induction before using List.reverseRecOn with
  | nil => exact ⟨"", by simp, rfl, fun values => ⟨"", .inl rfl, rfl⟩⟩
  | append_singleton before p ih =>
    cases p with
    | slot s => exact absurd h (not_endsInLiteral_slot before s)
    | literal text =>
      by_cases hends : '\n' ∈ text.toList
      · -- the line begins in this piece, and what comes before does not matter
        obtain ⟨front, margin, rfl, hmargin⟩ := Text.exists_lastLine hends
        refine ⟨margin, hmargin, ?_, fun values => ?_⟩
        · rw [List.foldl_concat]
          exact columnAfter_append_newline hmargin _ front
        · refine ⟨render ⟨before⟩ values ++ front ++ "\n", .inr ⟨_, rfl⟩, ?_⟩
          rw [render_append_literal]
          simp only [String.append_assoc]
      · obtain ⟨margin, hmargin, hcolumn, hfill⟩ := ih (h.of_append_literal hends)
        refine ⟨margin ++ text, by simp [hmargin, hends], ?_, fun values => ?_⟩
        · rw [List.foldl_concat, hcolumn, String.utf8ByteSize_append]
          exact columnAfter_of_notMem hends _
        · obtain ⟨above, habove, hbefore⟩ := hfill values
          refine ⟨above, habove, ?_⟩
          rw [render_append_literal, hbefore, String.append_assoc]

/-! ## Skeletons -/

/-- A skeleton that is filled, with the text for one of its slots apart. -/
theorem render_eq {t : Template} {slot : Slot} {before after : List Segment}
    (h : t.segments = before ++ .slot slot :: after) (values : SlotValues) :
    t.render values = render ⟨before⟩ values ++ values.get slot ++ render ⟨after⟩ values := by
  unfold render
  rw [h, List.map_append, List.map_cons, String.join_append, String.join_cons, String.append_assoc]
  rfl

section Skeletons

variable {src : String} {t : Template} (h : parse src = .ok t)
include h

/-- With its placeholders put back, a skeleton is its text. -/
theorem render_placeholders : t.render .placeholders = src := by
  obtain ⟨found, last, hscan⟩ := exists_scan src.toList
  obtain ⟨-, rfl⟩ := (parse_eq_ok_iff hscan).1 h
  rw [render_pieces, SlotValues.get_placeholders, hscan.substituted_placeholder,
    List.nil_append, String.ofList_toList]

/-- A slot that may stand only once has none of its places before any other. -/
theorem slot_notMem_before {slot : Slot} (hslot : slot.repeatable = false)
    {before after : List Segment} (hsplit : t.segments = before ++ .slot slot :: after) :
    .slot slot ∉ before := by
  obtain ⟨found, last, hscan⟩ := exists_scan src.toList
  obtain ⟨hallows, rfl⟩ := (parse_eq_ok_iff hscan).1 h
  have hcount : (before ++ .slot slot :: after).count (.slot slot) =
      Slot.timesFound slot found := by
    rw [← hsplit]
    exact count_pieces slot [] found last
  have honce := (Slot.allows_iff.1 (hallows slot)).2
  intro hmem
  have hpos := List.count_pos_iff.2 hmem
  rw [List.count_append, List.count_cons_self] at hcount
  rw [honce (by omega)] at hslot
  cases hslot

end Skeletons

end Template

/-! ## Lines at a margin -/

namespace Lines

/-- A block of text consists of lines that all stand at a column: the first one next to a margin
that is as wide, and the others after as many blanks. -/
structure AlignedAt (w : Lines) (column : Nat) (margin block : String) : Prop where
  newline_notMem : '\n' ∉ margin.toList
  column_eq : column = margin.utf8ByteSize
  /-- the first line is empty only if there are no lines -/
  lines : ∃ first rest, Text.linesOf w.text = first :: rest ∧ (first = "" → w.text = "") ∧
    Text.linesOf block = (margin ++ first) :: rest.map (indented column)
  /-- without the column the lines are what they are on their own -/
  withoutColumn_eq : Text.withoutColumn column block = Text.bytes w.text

theorem drop_bytes_append (s t : String) :
    (Text.bytes (s ++ t)).drop s.utf8ByteSize = Text.bytes t := by
  rw [Text.bytes_append, ← Text.length_bytes, List.drop_left]

theorem utf8ByteSize_blanks (n : Nat) : (blanks n).utf8ByteSize = n := by
  unfold blanks
  have hblank : (String.utf8EncodeChar ' ').length = 1 := by
    decide
  rw [Text.utf8ByteSize_ofList, List.length_flatMap, List.map_replicate, List.sum_replicate_nat,
    hblank, Nat.mul_one]

theorem drop_bytes_indented (column : Nat) (line : String) :
    (Text.bytes (indented column line)).drop column = Text.bytes line := by
  by_cases hempty : line = ""
  · rw [hempty, indented_empty]
    exact List.drop_nil
  · have hdrop := drop_bytes_append (blanks column) line
    rwa [utf8ByteSize_blanks, ← indented_of_ne_empty column hempty] at hdrop

/-- Unbroken lines stand at a column if the first one is put next to a margin that is as wide. -/
theorem Unbroken.alignedAt {w : Lines} (hw : w.Unbroken) {margin : String}
    (hmargin : '\n' ∉ margin.toList) :
    w.AlignedAt margin.utf8ByteSize margin (margin ++ w.textAt margin.utf8ByteSize) := by
  obtain ⟨first, rest, hlines, hfirst, htext, hbreaks, hat⟩ := exists_linesOf hw
  rw [List.forall_mem_cons] at hbreaks
  have hblock : margin ++ w.textAt margin.utf8ByteSize = String.intercalate "\n"
      ((margin ++ first) :: rest.map (indented margin.utf8ByteSize)) := by
    rw [hat, Text.intercalate_cons, Text.intercalate_cons, String.append_assoc]
  have hblockLines : Text.linesOf (margin ++ w.textAt margin.utf8ByteSize) =
      (margin ++ first) :: rest.map (indented margin.utf8ByteSize) := by
    rw [hblock]
    apply Text.linesOf_intercalate (List.cons_ne_nil _ _)
    rw [List.forall_mem_cons, List.forall_mem_map]
    refine ⟨by simp [hmargin, hbreaks.1], fun line hline => ?_⟩
    exact newline_notMem_indented _ (hbreaks.2 line hline)
  refine ⟨hmargin, rfl, ⟨first, rest, hlines, hfirst, hblockLines⟩, ?_⟩
  unfold Text.withoutColumn
  rw [hblockLines, htext, Text.bytes_intercalate, List.map_cons, List.map_cons, List.map_map,
    drop_bytes_append]
  simp only [Function.comp_def, drop_bytes_indented]

end Lines

/-! ## Adapters -/

namespace Definition

variable {d : Definition} {nonNullHints : Bool} {slot : Slot} {w : Lines}

theorem repeatable_of_bodyOf? (h : d.bodyOf? nonNullHints slot = some w) :
    slot.repeatable = false := by
  cases slot with
  | name | package | sumType | embeddableType => cases h
  | embeddableTypeContent | getPropertyBody | instantiateBody => rfl

/-- A slot for a body is filled with the lines of the body at its column. -/
theorem get_slotValues (h : d.bodyOf? nonNullHints slot = some w) (n : Naming) (t : Template) :
    (slotValues d d.unify n t nonNullHints).get slot = w.textAt (t.columnOf slot) := by
  cases slot with
  | name | package | sumType | embeddableType => cases h
  | embeddableTypeContent | getPropertyBody | instantiateBody =>
    cases h
    rfl

end Definition

/-- For every skeleton and every built definition whose types are written on one line each, and for
each slot for a body that has only literal text before it on its line: that text is the same in the
skeleton and in the adapter, whatever the other slots are filled with, and the column of the slot is
its width in bytes. All lines of the body stand at that column in the adapter, the first one next to
the literal text and the others after as many blanks, so that the body is what is left of them when
the column is taken away. -/
theorem bodies_aligned {description : Description} {d : Definition}
    (hbuild : description.build = .ok d) (htypes : d.HasOneLineTypes) {src : String} {t : Template}
    (hparse : Template.parse src = .ok t) {nonNullHints : Bool} {slot : Slot} {w : Lines}
    (hbody : d.bodyOf? nonNullHints slot = some w) {before after : List Segment}
    (hsplit : t.segments = before ++ .slot slot :: after)
    (hline : Template.EndsInLiteral before) (n : Naming) :
    ∃ margin : String,
      (∃ above, Text.EndsLine above ∧
        Template.render ⟨before⟩ .placeholders = above ++ margin ∧
        src = above ++ margin ++ slot.placeholder ++ Template.render ⟨after⟩ .placeholders) ∧
      ∃ above block, Text.EndsLine above ∧
        Template.render ⟨before⟩ (slotValues d d.unify n t nonNullHints) = above ++ margin ∧
        emit d d.unify n t nonNullHints =
          above ++ block ++ Template.render ⟨after⟩ (slotValues d d.unify n t nonNullHints) ∧
        w.AlignedAt (t.columnOf slot) margin block := by
  obtain ⟨margin, hmargin, hfold, hfill⟩ := Template.exists_margin hline
  have hcolumn : t.columnOf slot = margin.utf8ByteSize := by
    have hnot := Template.slot_notMem_before hparse (Definition.repeatable_of_bodyOf? hbody) hsplit
    unfold Template.columnOf
    rw [hsplit, Template.columnFrom_append hnot, hfold]
  have hunbroken := (Description.build_wellFormed hbuild).unbroken_bodyOf? htypes hbody
  refine ⟨margin, ?_, ?_⟩
  · obtain ⟨above, habove, hbefore⟩ := hfill .placeholders
    refine ⟨above, habove, hbefore, ?_⟩
    rw [← Template.render_placeholders hparse, Template.render_eq hsplit, hbefore,
      SlotValues.get_placeholders]
  · obtain ⟨above, habove, hbefore⟩ := hfill (slotValues d d.unify n t nonNullHints)
    refine ⟨above, margin ++ w.textAt (t.columnOf slot), habove, hbefore, ?_, ?_⟩
    · unfold emit
      rw [Template.render_eq hsplit, hbefore, Definition.get_slotValues hbody]
      simp only [String.append_assoc]
    · rw [hcolumn]
      exact hunbroken.alignedAt hmargin

/-- A skeleton with a body in a comment, after a letter that takes two bytes. -/
def commentSkeleton : String :=
  "package %PACKAGE%;\n// café: %INSTANTIATE_BODY%\n%NAME% %SUM_TYPE% %EMBEDDABLE_TYPE%\n" ++
    "%EMBEDDABLE_TYPE_CONTENT%\n%GET_PROPERTY_BODY%"

/-- The pieces of this skeleton. -/
def commentTemplate : Template :=
  ⟨[.literal "package ", .slot .package, .literal ";\n// café: ", .slot .instantiateBody,
    .literal "\n", .slot .name, .literal " ", .slot .sumType, .literal " ", .slot .embeddableType,
    .literal "\n", .slot .embeddableTypeContent, .literal "\n", .slot .getPropertyBody]⟩

theorem bodies_aligned_comment :
    twoTypes.build = .ok twoTypesDefinition ∧ twoTypesDefinition.HasOneLineTypes ∧
      Template.parse commentSkeleton = .ok commentTemplate ∧
      commentTemplate.columnOf .instantiateBody = 10 ∧
      ∃ margin above block below : String,
        emit twoTypesDefinition twoTypesDefinition.unify ⟨"Adapter", "a", "a.Mark", "Row"⟩
          commentTemplate true = above ++ block ++ below ∧
        (instantiateCascade twoTypesDefinition.planner).write.AlignedAt 10 margin block := by
  have hbuild : twoTypes.build = .ok twoTypesDefinition := by
    decide
  have htypes : twoTypesDefinition.HasOneLineTypes := by
    decide
  have hparse : Template.parse commentSkeleton = .ok commentTemplate := by
    decide +kernel
  have hcolumn : commentTemplate.columnOf .instantiateBody = 10 := by
    decide +kernel
  have hbody : twoTypesDefinition.bodyOf? true .instantiateBody =
      some (instantiateCascade twoTypesDefinition.planner).write := rfl
  have hsplit : commentTemplate.segments =
      commentTemplate.segments.take 3 ++ .slot .instantiateBody ::
        commentTemplate.segments.drop 4 := rfl
  have hline : Template.EndsInLiteral (commentTemplate.segments.take 3) := by
    decide
  obtain ⟨margin, -, above, block, -, -, hemit, haligned⟩ := bodies_aligned hbuild htypes hparse
    hbody hsplit hline ⟨"Adapter", "a", "a.Mark", "Row"⟩
  rw [hcolumn] at haligned
  exact ⟨hbuild, htypes, hparse, hcolumn, margin, above, block, _, hemit, haligned⟩

end WideRow
