import WideRow.Proofs.Adapter.ColumnAgreement
import WideRow.Proofs.Text.Lines

/-!
# Lines that are not broken

The bodies of an adapter are written line by line. What is written on a line is never empty and has
no line end in it, so that the lines of the text are the ones that have been written. The writing
itself puts no line end into a line; the names of a built definition have none, and types have none
if each of them is on one line.

Main definitions:
* `Lines.Unbroken`: the lines are not empty and not broken;
* `Cascade.texts`: the names, classes and messages that a cascade is written with;
* `Definition.bodyOf?`: the lines for a slot.

Results:
* `Lines.exists_linesOf`: the lines of a text, and how they stand at a column;
* `Cascade.unbroken_write`: a cascade is written in unbroken lines if its texts have no line ends;
* `Definition.WellFormed.unbroken_bodyOf?`: the bodies of an adapter are unbroken lines.
-/

namespace WideRow

/-! ## Lines -/

namespace Lines

/-- The text makes up one line, which is not empty. -/
def IsLine (text : String) : Prop := text ≠ "" ∧ '\n' ∉ text.toList

instance (text : String) : Decidable (IsLine text) :=
  inferInstanceAs (Decidable (text ≠ "" ∧ '\n' ∉ text.toList))

/-- Each line is just one, and none is empty. -/
def Unbroken (w : Lines) : Prop := ∀ line ∈ w.lines.toList, IsLine line

/-- A line as far to the right as a column. An empty line stays empty. -/
def indented (column : Nat) (line : String) : String :=
  if line.isEmpty then "" else blanks column ++ line

section Unbroken

variable {w : Lines}

theorem unbroken_empty : Lines.empty.Unbroken := by
  intro line hline
  cases hline

theorem newline_notMem_blanks (n : Nat) : '\n' ∉ (blanks n).toList := by
  unfold blanks
  simp

theorem indented_empty (column : Nat) : indented column "" = "" := rfl

theorem indented_of_ne_empty (column : Nat) {line : String} (h : line ≠ "") :
    indented column line = blanks column ++ line := by
  unfold indented
  rw [String.isEmpty_eq_false_iff.2 h]
  rfl

theorem newline_notMem_indented (column : Nat) {line : String} (h : '\n' ∉ line.toList) :
    '\n' ∉ (indented column line).toList := by
  by_cases hempty : line = ""
  · rw [hempty, indented_empty]
    simp
  · rw [indented_of_ne_empty column hempty]
    simp [newline_notMem_blanks, h]

theorem IsLine.indented {text : String} (h : IsLine text) (column : Nat) :
    IsLine (indented column text) := by
  refine ⟨?_, newline_notMem_indented column h.2⟩
  rw [indented_of_ne_empty column h.1]
  simp [h.1]

/-- A line is written at its depth like one that is shifted to a column. -/
theorem lineAt_eq_indented (depth : Nat) (text : String) :
    lineAt depth text = indented (4 * depth) text := rfl

theorem Unbroken.line (hw : w.Unbroken) {text : String} (h : IsLine text) :
    (w.line text).Unbroken := by
  intro line hline
  rw [toList_line, List.mem_append, List.mem_singleton] at hline
  rcases hline with hline | rfl
  · exact hw line hline
  · rw [lineAt_eq_indented]
    exact h.indented _

theorem Unbroken.indent (hw : w.Unbroken) : w.indent.Unbroken := hw

theorem Unbroken.dedent (hw : w.Unbroken) : w.dedent.Unbroken := hw

/-- Items that are written in unbroken lines, one after the other. -/
theorem Unbroken.writeAll {α : Type} (write : Lines → α → Lines) {items : List α}
    (hw : w.Unbroken) (h : ∀ a ∈ items, ∀ w : Lines, w.Unbroken → (write w a).Unbroken) :
    (w.writeAll write items).Unbroken := by
  induction items generalizing w with
  | nil => exact hw
  | cons a rest ih =>
    rw [List.forall_mem_cons] at h
    exact ih (h.1 w hw) h.2

end Unbroken

/-! ### At a column -/

theorem shifted_eq (column : Nat) (line : String) :
    shifted column line = "\n" ++ indented column line := by
  unfold shifted indented
  split_ifs
  · rfl
  · rw [String.append_assoc]

/-- The lines of a text, of which there is at least one, and the text at a column: all lines but the
first are shifted to it. The first line is empty only if there are no lines. -/
theorem exists_linesOf {w : Lines} (hw : w.Unbroken) :
    ∃ first rest, Text.linesOf w.text = first :: rest ∧ (first = "" → w.text = "") ∧
      w.text = String.intercalate "\n" (first :: rest) ∧
      (∀ line ∈ first :: rest, '\n' ∉ line.toList) ∧
      ∀ column,
        w.textAt column = String.intercalate "\n" (first :: rest.map (indented column)) := by
  unfold Unbroken at hw
  unfold text textAt
  cases hlines : w.lines.toList with
  | nil => exact ⟨"", [], rfl, fun _ => rfl, rfl, by simp, fun _ => rfl⟩
  | cons first rest =>
    rw [hlines] at hw
    have hbreaks : ∀ line ∈ first :: rest, '\n' ∉ line.toList := by
      intro line hline
      exact (hw line hline).2
    have hfirst : first ≠ "" := (hw first List.mem_cons_self).1
    refine ⟨first, rest, Text.linesOf_intercalate (List.cons_ne_nil _ _) hbreaks,
      fun hempty => absurd hempty hfirst, rfl, hbreaks, ?_⟩
    intro column
    show first ++ String.join (rest.map (shifted column)) = _
    rw [Text.intercalate_cons, List.map_map]
    apply congrArg (first ++ String.join ·)
    apply List.map_congr_left
    intro line _
    exact shifted_eq column line

end Lines

/-! ## Texts of a cascade -/

/-- The names and classes in a test. -/
def BranchTest.texts : BranchTest → List String
  | .isInstance className binding => [className, binding]
  | .populated cells => cells.map (·.className)

/-- The message of an error, if it is known beforehand. -/
def Thrown.texts : Thrown → List String
  | .message text => [text]
  | .componentClass => []

/-- The names, classes and messages in a last statement. -/
def Final.texts : Final → List String
  | .returnNull => []
  | .returnSwitch binding cases => binding :: cases.map (·.accessor)
  | .returnNew className arguments => className :: arguments.map (·.className)
  | .throw thrown => thrown.texts

/-- The classes and the message in a guard. -/
def Guard.texts (g : Guard) : List String := g.message :: g.cells.map (·.className)

/-- The names, classes and messages in a branch. -/
def Branch.texts (b : Branch) : List String :=
  b.test.texts ++ (b.guards.flatMap Guard.texts ++ b.final.texts)

/-- The names, classes and messages that a cascade is written with. -/
def Cascade.texts (c : Cascade) : List String :=
  c.branches.flatMap Branch.texts ++ c.otherwise.texts

/-- No text has a line end in it. -/
def OneLineTexts (texts : List String) : Prop := ∀ s ∈ texts, '\n' ∉ s.toList

theorem oneLineTexts_append {texts others : List String} :
    OneLineTexts (texts ++ others) ↔ OneLineTexts texts ∧ OneLineTexts others :=
  List.forall_mem_append

theorem oneLineTexts_cons {s : String} {texts : List String} :
    OneLineTexts (s :: texts) ↔ '\n' ∉ s.toList ∧ OneLineTexts texts :=
  List.forall_mem_cons

theorem oneLineTexts_map {α : Type} {text : α → String} {items : List α} :
    OneLineTexts (items.map text) ↔ ∀ a ∈ items, '\n' ∉ (text a).toList := List.forall_mem_map

theorem oneLineTexts_flatMap {α : Type} {texts : α → List String} {items : List α} :
    OneLineTexts (items.flatMap texts) ↔ ∀ a ∈ items, OneLineTexts (texts a) := by
  unfold OneLineTexts
  simp only [List.mem_flatMap]
  constructor
  · intro h a ha s hs
    exact h s ⟨a, ha, hs⟩
  · rintro h s ⟨a, ha, hs⟩
    exact h a ha s hs

/-! ### Writing -/

theorem newline_notMem_toDigits (n : Nat) : '\n' ∉ Nat.toDigits 10 n := by
  intro hmem
  exact absurd (Nat.isDigit_of_mem_toDigits (by decide) (by decide) hmem) (by decide)

theorem isLine_cells {cells : List CellRead} (h : OneLineTexts (cells.map (·.className))) :
    ∀ r ∈ cells, Lines.IsLine r.text := by
  intro r hr
  have hclass := oneLineTexts_map.1 h r hr
  unfold CellRead.text
  simp [Lines.IsLine, newline_notMem_toDigits, hclass]

theorem newline_notMem_populatedText {cells : List CellRead}
    (h : OneLineTexts (cells.map (·.className))) : '\n' ∉ (populatedText cells).toList := by
  have hcells := isLine_cells h
  unfold populatedText
  cases cells with
  | nil => decide
  | cons r rest =>
    intro hmem
    rcases Text.mem_of_mem_intercalate hmem with hsep | ⟨part, hpart, hmem⟩
    · exact absurd hsep (by decide)
    · obtain ⟨r', hr', rfl⟩ := List.mem_map.1 hpart
      simp [(hcells r' hr').2] at hmem

theorem newline_notMem_test {t : BranchTest} (h : OneLineTexts t.texts) :
    '\n' ∉ t.text.toList := by
  cases t with
  | isInstance className binding =>
    obtain ⟨hclass, hbinding⟩ : '\n' ∉ className.toList ∧ '\n' ∉ binding.toList :=
      ⟨h _ List.mem_cons_self, h _ (.tail _ List.mem_cons_self)⟩
    unfold BranchTest.text
    simp [hclass, hbinding]
  | populated cells => exact newline_notMem_populatedText h

theorem isLine_statement {t : Thrown} (h : OneLineTexts t.texts) : Lines.IsLine t.statement := by
  cases t with
  | message text =>
    have htext : '\n' ∉ text.toList := h _ List.mem_cons_self
    unfold Thrown.statement Thrown.expression
    simp [Lines.IsLine, htext]
  | componentClass => decide

theorem isLine_argumentLines {arguments : List CellRead}
    (h : OneLineTexts (arguments.map (·.className))) :
    ∀ line ∈ argumentLines arguments, Lines.IsLine line := by
  have hcells := isLine_cells h
  clear h
  induction arguments with
  | nil => simp [argumentLines]
  | cons r rest ih =>
    rw [List.forall_mem_cons] at hcells
    cases rest with
    | nil => simpa [argumentLines] using hcells.1
    | cons r' rest =>
      simp only [argumentLines, List.forall_mem_cons]
      have hfirst : Lines.IsLine (r.text ++ ",") := by
        simp [Lines.IsLine, hcells.1.2]
      exact ⟨hfirst, by simpa using ih hcells.2⟩

section Writing

variable {w : Lines} (hw : w.Unbroken)
include hw

/-- A last statement whose texts have no line ends is written in unbroken lines. -/
theorem Final.unbroken_write {f : Final} (h : OneLineTexts f.texts) : (f.write w).Unbroken := by
  cases f with
  | returnNull => exact hw.line (by decide)
  | returnSwitch binding cases =>
    obtain ⟨hbinding, hcases⟩ := oneLineTexts_cons.1 h
    have hopening : Lines.IsLine "return switch (index) \x7b" := by
      decide
    have hline : ∀ c ∈ cases, Lines.IsLine (AccessCase.text binding c) := by
      intro c hc
      have haccessor := oneLineTexts_map.1 hcases c hc
      unfold AccessCase.text
      simp [Lines.IsLine, newline_notMem_toDigits, hbinding, haccessor]
    have hwritten := (hw.line hopening).indent.writeAll
      (fun w c => w.line (AccessCase.text binding c)) fun c hc w hw => hw.line (hline c hc)
    exact (hwritten.line (by decide)).dedent.line (by decide)
  | returnNew className arguments =>
    obtain ⟨hclass, harguments⟩ := oneLineTexts_cons.1 h
    cases arguments with
    | nil => exact hw.line (by simp [Lines.IsLine, hclass])
    | cons r rest =>
      have hlines := isLine_argumentLines harguments
      have hopening : Lines.IsLine ("return new " ++ className ++ "(") := by
        simp [Lines.IsLine, hclass]
      have hwritten := (hw.line hopening).indent.indent.writeAll Lines.line
        fun line hline w hw => hw.line (hlines line hline)
      exact hwritten.dedent.dedent.line (by decide)
  | throw thrown => exact hw.line (isLine_statement h)

theorem Guard.unbroken_write {g : Guard} (h : OneLineTexts g.texts) : (g.write w).Unbroken := by
  obtain ⟨hmessage, hcells⟩ := oneLineTexts_cons.1 h
  have htest := newline_notMem_populatedText hcells
  have hopening : Lines.IsLine ("if (" ++ populatedText g.cells ++ ") \x7b") := by
    simp [Lines.IsLine, htest]
  have hthrown : Lines.IsLine (Thrown.message g.message).statement := by
    apply isLine_statement
    simpa [OneLineTexts, Thrown.texts]
  exact ((hw.line hopening).indent.line hthrown).dedent.line (by decide)

theorem Branch.unbroken_write {keyword : String} (hkeyword : '\n' ∉ keyword.toList) {b : Branch}
    (h : OneLineTexts b.texts) : (b.write keyword w).Unbroken := by
  obtain ⟨htest, hbody⟩ := oneLineTexts_append.1 h
  obtain ⟨hguards, hfinal⟩ := oneLineTexts_append.1 hbody
  have hcondition := newline_notMem_test htest
  have hopening : Lines.IsLine (keyword ++ " (" ++ b.test.text ++ ") \x7b") := by
    simp [Lines.IsLine, hkeyword, hcondition]
  have hwritten := (hw.line hopening).indent.writeAll Guard.write
    fun g hg w hw => Guard.unbroken_write hw (oneLineTexts_flatMap.1 hguards g hg)
  exact (Final.unbroken_write hwritten hfinal).dedent

end Writing

/-- A cascade whose texts have no line ends is written in unbroken lines. -/
theorem Cascade.unbroken_write {c : Cascade} (h : OneLineTexts c.texts) : c.write.Unbroken := by
  obtain ⟨branches, otherwise⟩ := c
  obtain ⟨hbranches, hotherwise⟩ := oneLineTexts_append.1 h
  have hthrown := isLine_statement hotherwise
  cases branches with
  | nil => exact Lines.unbroken_empty.line hthrown
  | cons first rest =>
    obtain ⟨hfirst, hrest⟩ := oneLineTexts_append.1 hbranches
    have hif : '\n' ∉ "if".toList := by
      decide
    have helse : Lines.IsLine "\x7d else \x7b" := by
      decide
    have hopened := Branch.unbroken_write Lines.unbroken_empty hif hfirst
    have hwritten := hopened.writeAll (Branch.write "\x7d else if") fun b hb w hw =>
      Branch.unbroken_write hw (by decide) (oneLineTexts_flatMap.1 hrest b hb)
    exact ((hwritten.line helse).indent.line hthrown).dedent.line (by decide)

/-! ## Bodies -/

theorem newline_notMem_of_isPlain {s : String} (h : isPlain s) : '\n' ∉ s.toList := by
  intro hmem
  exact absurd (List.all_eq_true.1 h _ hmem) (by decide)

theorem newline_notMem_of_isFree {s : String} (h : Name.IsFree s) : '\n' ∉ s.toList := by
  intro hmem
  exact absurd (Name.isInner_of_mem_identifier h.1 hmem) (by decide)

/-- Every character of the class of a type is one of the type. -/
theorem TypeRef.mem_of_mem_erasure {t : TypeRef} {c : Char} (h : c ∈ t.erasure.toList) :
    c ∈ t.text.toList := by
  unfold erasure at h
  dsimp only at h
  split_ifs at h
  · rw [String.toList_ofList, Text.trimEndChars, List.mem_reverse] at h
    have hback := (List.dropWhile_sublist _).subset h
    exact (List.takeWhile_sublist _).subset (List.mem_reverse.1 hback)
  · exact h

namespace Definition

/-- The lines for a slot that holds one of the three bodies. -/
def bodyOf? (d : Definition) (nonNullHints : Bool) : Slot → Option Lines
  | .embeddableTypeContent => some (embeddableContent d.unify nonNullHints)
  | .getPropertyBody => some (propertyCascade d.planner).write
  | .instantiateBody => some (instantiateCascade d.planner).write
  | _ => none

namespace WellFormed

variable {d : Definition}

theorem unbroken_embeddableContent (h : d.WellFormed) (htypes : d.HasOneLineTypes)
    (nonNullHints : Bool) : (embeddableContent d.unify nonNullHints).Unbroken := by
  intro line hline
  rw [lines_embeddableContent] at hline
  obtain ⟨f, hf, rfl⟩ := List.mem_map.1 hline
  obtain ⟨a, ha, hf⟩ := mem_schema_iff.1 hf
  have hname := (h.alternative_wellFormed a ha).name_free hf
  have hdeclares := declares_fieldDeclaration d.unify.common nonNullHints f
  refine ⟨?_, hdeclares.newline_notMem hname.1 (htypes a ha f hf)⟩
  rcases hdeclares with hplain | hhint
  · rw [hplain]
    simp
  · rw [hhint]
    simp

/-- The body that gives a property has names of alternatives and of fields in it. -/
theorem oneLineTexts_propertyCascade (h : d.WellFormed) :
    OneLineTexts (propertyCascade d.planner).texts := by
  apply oneLineTexts_append.2
  refine ⟨?_, fun s hs => absurd hs List.not_mem_nil⟩
  apply oneLineTexts_flatMap.2
  intro b hb
  obtain ⟨c, hc, rfl⟩ := List.mem_map.1 hb
  have hname := h.candidate_name_qualified hc
  have hclass := newline_notMem_of_isPlain (isPlain_of_isQualified hname)
  have hbinding := newline_notMem_of_isFree (isFree_localName hname)
  unfold propertyBranch
  dsimp only
  split_ifs
  · simp [OneLineTexts, Branch.texts, BranchTest.texts, Final.texts, hclass, hbinding]
  · have haccessors : ∀ slot ∈ c.slotsByPosition, '\n' ∉ slot.1.name.toList := by
      intro slot hslot
      exact newline_notMem_of_isFree (h.accessor_free hc (Candidate.mem_slotsByPosition.1 hslot))
    apply oneLineTexts_append.2
    refine ⟨by simp [OneLineTexts, BranchTest.texts, hclass, hbinding], ?_⟩
    apply oneLineTexts_cons.2
    refine ⟨hbinding, ?_⟩
    rw [List.map_map]
    exact oneLineTexts_map.2 haccessors

theorem oneLineTexts_cells (htypes : d.HasOneLineTypes) {c : Candidate} (hc : c ∈ d.planner.order)
    {slots : List (Field × Nat)} (hslots : ∀ slot ∈ slots, slot ∈ c.slots) :
    OneLineTexts ((slots.map CellRead.of).map (·.className)) := by
  rw [List.map_map]
  apply oneLineTexts_map.2
  intro slot hslot hmem
  obtain ⟨a, ha, rfl⟩ := mem_order_iff.1 hc
  have hf := (Candidate.mem_slots_iff.1 (hslots slot hslot)).1
  exact htypes a ha slot.1 hf (TypeRef.mem_of_mem_erasure hmem)

theorem oneLineTexts_instantiateBranch (h : d.WellFormed) (htypes : d.HasOneLineTypes)
    {c : Candidate} (hc : c ∈ d.planner.order) {later : List Candidate}
    (hlater : later ⊆ d.planner.order) :
    OneLineTexts (instantiateBranch d.planner c later).texts := by
  have htest : OneLineTexts ((c.slotsByPosition.map CellRead.of).map (·.className)) :=
    oneLineTexts_cells htypes hc fun _ => Candidate.mem_slotsByPosition.1
  unfold instantiateBranch
  dsimp only
  split_ifs with hties
  · apply oneLineTexts_append.2
    refine ⟨htest, ?_⟩
    have hmessage := newline_notMem_of_isPlain (h.isPlain_tiesMessage (c := c))
    exact oneLineTexts_cons.2 ⟨hmessage, fun s hs => absurd hs List.not_mem_nil⟩
  · apply oneLineTexts_append.2
    refine ⟨htest, oneLineTexts_append.2 ⟨?_, ?_⟩⟩
    · apply oneLineTexts_flatMap.2
      intro g hg
      obtain ⟨rival, hrival, rfl⟩ := List.mem_map.1 hg
      obtain ⟨e, he, rfl⟩ := Candidate.exists_of_mem_rivals hrival
      have hmessage := newline_notMem_of_isPlain
        (h.isPlain_rivalGuard hc (hlater he) (c.beyond e))
      have hcells := oneLineTexts_cells htypes (hlater he) fun slot hslot =>
        Candidate.mem_slots_of_mem_beyond (c := c) hslot
      exact oneLineTexts_cons.2 ⟨hmessage, hcells⟩
    · have hname := h.candidate_name_qualified hc
      have hclass := newline_notMem_of_isPlain (isPlain_of_isQualified hname)
      have harguments := oneLineTexts_cells htypes hc fun slot (hslot : slot ∈ c.slots) => hslot
      exact oneLineTexts_cons.2 ⟨hclass, harguments⟩

/-- The body that instantiates a row has classes and messages in it. -/
theorem oneLineTexts_instantiateCascade (h : d.WellFormed) (htypes : d.HasOneLineTypes) :
    OneLineTexts (instantiateCascade d.planner).texts := by
  apply oneLineTexts_append.2
  constructor
  · apply oneLineTexts_flatMap.2
    intro b hb
    obtain ⟨c, later, hsub, rfl⟩ := exists_of_mem_instantiateBranches hb
    obtain ⟨hc, hlater⟩ := List.cons_subset.1 hsub
    exact h.oneLineTexts_instantiateBranch htypes hc hlater
  · show OneLineTexts ["Unknown alternative"]
    simp [OneLineTexts]

/-- The bodies of an adapter are unbroken lines. -/
theorem unbroken_bodyOf? (h : d.WellFormed) (htypes : d.HasOneLineTypes) {nonNullHints : Bool}
    {slot : Slot} {w : Lines} (hw : d.bodyOf? nonNullHints slot = some w) : w.Unbroken := by
  cases slot with
  | name | package | sumType | embeddableType => cases hw
  | embeddableTypeContent =>
    cases hw
    exact h.unbroken_embeddableContent htypes nonNullHints
  | getPropertyBody =>
    cases hw
    exact Cascade.unbroken_write h.oneLineTexts_propertyCascade
  | instantiateBody =>
    cases hw
    exact Cascade.unbroken_write (h.oneLineTexts_instantiateCascade htypes)

end WellFormed

end Definition

end WideRow
