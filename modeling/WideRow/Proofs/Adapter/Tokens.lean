import WideRow.Adapter.Cascade
import WideRow.Proofs.Java.Reading
import WideRow.Proofs.WellFormed

/-!
# The tokens of a cascade

Which tokens the lines of a cascade are made of. The names in them may be any dotted paths and any
class names; the messages must be free of quotes, backslashes and line ends.

Results:
* `reads_classLiteral`: class literals of dotted names with dimensions;
* `Cascade.tokens?_text`: the tokens of the text of a cascade.
-/

namespace WideRow

open Java

/-! ## Class literals -/

/-- A name that has a class literal: a dotted path of identifiers with dimensions after it. -/
def IsClassName (s : String) : Prop :=
  ∃ path n, Name.isQualified path ∧ s = path ++ dimensions n

/-- The tokens of the class literal of a class. -/
def literalTokens (className : String) : List Token := (tokens? (className ++ ".class")).getD []

theorem dimensions_succ (n : Nat) : dimensions (n + 1) = "[]" ++ dimensions n := by
  rw [dimensions, List.replicate_succ, String.join_cons, dimensions]

theorem readsFully_dimensions (n : Nat) :
    ReadsFully (dimensions n).toList (bracketTokens n) := by
  induction n with
  | zero => rfl
  | succ n ih =>
    have hpair : ReadsFully "[]".toList [.sign .openBracket, .sign .closeBracket] := by
      decide
    rw [dimensions_succ, String.toList_append]
    exact hpair.append_fully ih

/-- The class literal of a dotted path with dimensions. -/
theorem reads_classLiteral {path : String} (h : Name.isQualified path) (n : Nat) :
    Reads (path ++ dimensions n ++ ".class").toList (classTokens (Name.segments path) n) := by
  have hclass : Reads ".class".toList [.sign .dot, .word "class"] :=
    readsFully_dot.append (reads_word (w := "class".toList) (by decide))
  have hrest := (readsFully_dimensions n).append hclass
  have hapart : startsApart ((dimensions n).toList ++ ".class".toList) := by
    cases n with
    | zero => rfl
    | succ n =>
      rw [dimensions_succ, String.toList_append]
      rfl
  have hall := (reads_path h).append hapart hrest
  rwa [← String.toList_append, ← String.toList_append, ← String.append_assoc,
    ← List.append_assoc] at hall

/-- The tokens of a class literal are read as one. -/
theorem IsClassName.reads {className : String} (h : IsClassName className) :
    Reads (className ++ ".class").toList (literalTokens className) := by
  obtain ⟨path, n, hpath, rfl⟩ := h
  have hreads := reads_classLiteral hpath n
  rwa [literalTokens, hreads.tokens?_eq]

/-! ## Conditions -/

theorem reads_identifier {x : String} (h : Name.isIdentifier x) : Reads x.toList [.word x] := by
  have := reads_word h
  rwa [String.ofList_toList] at this

/-- The tokens that read a cell. -/
def CellRead.tokens (r : CellRead) : List Token :=
  [.word "values", .sign .dot, .word "getValue", .sign .openParen] ++ [.number r.position] ++
    [.sign .comma] ++ literalTokens r.className ++ [.sign .closeParen]

/-- The cell is read by a class literal. -/
def CellRead.Readable (r : CellRead) : Prop := IsClassName r.className

theorem CellRead.readsFully {r : CellRead} (h : r.Readable) :
    ReadsFully r.text.toList r.tokens := by
  have hopen : ReadsFully "values.getValue(".toList
      [.word "values", .sign .dot, .word "getValue", .sign .openParen] := by
    decide
  have hcomma : ReadsFully ", ".toList [.sign .comma] := by
    decide
  have hclose : ReadsFully ")".toList [.sign .closeParen] := by
    decide
  have htext : r.text =
      "values.getValue(" ++ toString r.position ++ ", " ++ (r.className ++ ".class" ++ ")") := by
    unfold CellRead.text
    rw [show ".class)" = ".class" ++ ")" by decide]
    simp only [String.append_assoc]
  have hposition := (hopen.text_append (reads_number r.position)).text_append_fully
    (by decide) hcomma
  have hall := hposition.text_append_fully (h.reads.text_append_fully (by decide) hclose)
  rw [htext, CellRead.tokens, List.append_assoc]
  exact hall

/-- The tokens of the condition that all of the cells are populated. -/
def populatedTokens : List CellRead → List Token
  | [] => [.word "true"]
  | cells => [Token.sign .and].intercalate
      (cells.map fun r => r.tokens ++ [.sign .differs, .word "null"])

theorem reads_populated {cells : List CellRead} (h : ∀ r ∈ cells, r.Readable) :
    Reads (populatedText cells).toList (populatedTokens cells) := by
  cases cells with
  | nil => exact reads_identifier (by decide)
  | cons r cells =>
    have hdiffers : Reads " != null".toList [.sign .differs, .word "null"] := by
      have hsign : ReadsFully " != ".toList [.sign .differs] := by
        decide
      have hnull : Reads "null".toList [.word "null"] := reads_identifier (by decide)
      rw [show " != null" = " != " ++ "null" by decide]
      exact hsign.text_append hnull
    have hand : ReadsFully " && ".toList [.sign .and] := by
      decide
    have hall := reads_intercalate
      (fun r : CellRead => (r.text ++ " != null").toList) (List.cons_ne_nil r cells)
      (by decide) hand
      fun r' hr' => (CellRead.readsFully (h r' hr')).text_append hdiffers
    unfold populatedText populatedTokens
    rw [String.toList_intercalate, List.map_map]
    exact hall

/-- The tokens of a test. -/
def BranchTest.tokens : BranchTest → List Token
  | .isInstance className binding =>
    [.word "component", .word "instanceof"] ++ pathTokens (Name.segments className) ++
      [.word binding]
  | .populated cells => populatedTokens cells

/-- The names and types in a test can be read. -/
def BranchTest.Readable : BranchTest → Prop
  | .isInstance className binding => Name.isQualified className ∧ Name.IsFree binding
  | .populated cells => ∀ r ∈ cells, r.Readable

theorem BranchTest.reads {t : BranchTest} (h : t.Readable) : Reads t.text.toList t.tokens := by
  cases t with
  | isInstance className binding =>
    have hopen : ReadsFully "component instanceof ".toList
        [.word "component", .word "instanceof"] := by
      decide
    have hblank : ReadsFully " ".toList [] := by
      decide
    have hclass := (hopen.text_append (reads_path h.1)).text_append_fully (by decide) hblank
    rw [List.append_nil] at hclass
    exact hclass.text_append (reads_identifier h.2.1)
  | populated cells => exact reads_populated h

/-! ## Statements -/

/-- A message that needs no escapes. -/
def isPlain (message : String) : Bool := message.toList.all standsForItself

/-- The tokens of the expression for a message. -/
def Thrown.tokens : Thrown → List Token
  | .message text => [.text text]
  | .componentClass =>
    [.text "Unknown alternative: ", .sign .plus, .word "component", .sign .dot, .word "getClass",
      .sign .openParen, .sign .closeParen, .sign .dot, .word "getName", .sign .openParen,
      .sign .closeParen]

/-- The message can be read. -/
def Thrown.Readable : Thrown → Prop
  | .message text => isPlain text
  | .componentClass => True

/-- The tokens that throw an error. -/
def Thrown.statementTokens (t : Thrown) : List Token :=
  [.word "throw", .word "new", .word "AssertionError", .sign .openParen] ++ t.tokens ++
    [.sign .closeParen, .sign .semicolon]

theorem readsFully_quoted {text : String} (h : isPlain text) :
    ReadsFully ("\"" ++ text ++ "\"").toList [.text text] := by
  have hquoted := readsFully_text h
  rw [String.ofList_toList] at hquoted
  simpa using hquoted

theorem Thrown.readsFully {t : Thrown} (h : t.Readable) :
    ReadsFully t.expression.toList t.tokens := by
  cases t with
  | message text =>
    exact readsFully_quoted h
  | componentClass => decide

theorem Thrown.readsFully_statement {t : Thrown} (h : t.Readable) :
    ReadsFully t.statement.toList t.statementTokens := by
  have hopen : ReadsFully "throw new AssertionError(".toList
      [.word "throw", .word "new", .word "AssertionError", .sign .openParen] := by
    decide
  have hclose : ReadsFully ");".toList [.sign .closeParen, .sign .semicolon] := by
    decide
  exact (hopen.text_append_fully (Thrown.readsFully h)).text_append_fully hclose

/-- The tokens that call an accessor. -/
def AccessCase.tokens (binding : String) (c : AccessCase) : List Token :=
  [.word binding, .sign .dot, .word c.accessor, .sign .openParen, .sign .closeParen]

/-- The accessor can be read. -/
def AccessCase.Readable (c : AccessCase) : Prop := Name.IsFree c.accessor

theorem AccessCase.readsFully {binding : String} (hbinding : Name.IsFree binding) {c : AccessCase}
    (h : c.Readable) :
    ReadsFully (c.text binding).toList (caseTokens c.position (c.tokens binding)) := by
  have hcase : ReadsFully "case ".toList [.word "case"] := by
    decide
  have harrow : ReadsFully " -> ".toList [.sign .arrow] := by
    decide
  have hdot : ReadsFully ".".toList [.sign .dot] := by
    decide
  have hcall : ReadsFully "();".toList [.sign .openParen, .sign .closeParen, .sign .semicolon] := by
    decide
  have hlabel := (hcase.text_append (reads_number c.position)).text_append_fully
    (by decide) harrow
  have hreceiver := (hlabel.text_append (reads_identifier hbinding.1)).text_append_fully
    (by decide) hdot
  exact (hreceiver.text_append (reads_identifier h.1)).text_append_fully (by decide) hcall

/-- The tokens of a last statement. -/
def Final.tokens : Final → List Token
  | .returnNull => [.word "return", .word "null", .sign .semicolon]
  | .returnSwitch binding cases =>
    [.word "return", .word "switch", .sign .openParen, .word "index", .sign .closeParen,
      .sign .openBrace] ++ cases.flatMap (fun c => caseTokens c.position (c.tokens binding)) ++
      [.word "default", .sign .arrow, .word "null", .sign .semicolon] ++
      [.sign .closeBrace, .sign .semicolon]
  | .returnNew className [] =>
    [.word "return", .word "new"] ++ pathTokens (Name.segments className) ++
      [.sign .openParen, .sign .closeParen, .sign .semicolon]
  | .returnNew className arguments =>
    [.word "return", .word "new"] ++ pathTokens (Name.segments className) ++ [.sign .openParen] ++
      [Token.sign .comma].intercalate (arguments.map CellRead.tokens) ++
      [.sign .closeParen, .sign .semicolon]
  | .throw thrown => thrown.statementTokens

/-- The names, types and messages in a last statement can be read. -/
def Final.Readable : Final → Prop
  | .returnNull => True
  | .returnSwitch binding cases => Name.IsFree binding ∧ ∀ c ∈ cases, c.Readable
  | .returnNew className arguments => Name.isQualified className ∧ ∀ r ∈ arguments, r.Readable
  | .throw thrown => thrown.Readable

theorem linesRead_arguments {arguments : List CellRead} (h : ∀ r ∈ arguments, r.Readable)
    {w : Lines} {ts : List Token} (hw : LinesRead w ts) :
    LinesRead (w.writeAll Lines.line (argumentLines arguments))
      (ts ++ [Token.sign .comma].intercalate (arguments.map CellRead.tokens)) := by
  induction arguments generalizing w ts with
  | nil =>
    rw [List.map_nil, List.intercalate_nil, List.append_nil]
    exact hw
  | cons r rest ih =>
    rw [List.forall_mem_cons] at h
    cases rest with
    | nil =>
      rw [List.map_singleton, List.intercalate_singleton]
      exact hw.line (CellRead.readsFully h.1)
    | cons r' rest =>
      have hcomma : ReadsFully ",".toList [.sign .comma] := by
        decide
      have hline := hw.line ((CellRead.readsFully h.1).text_append_fully hcomma)
      have hrest := ih h.2 hline
      rw [List.map_cons, List.map_cons, List.intercalate_cons_cons]
      simp only [List.append_assoc, List.map_cons] at hrest ⊢
      exact hrest

/-- The lines of a last statement add its tokens. -/
theorem linesRead_final {w : Lines} {ts : List Token} (hw : LinesRead w ts) {f : Final}
    (h : f.Readable) : LinesRead (f.write w) (ts ++ f.tokens) := by
  cases f with
  | returnNull =>
    have hnull : ReadsFully "return null;".toList
        [.word "return", .word "null", .sign .semicolon] := by
      decide
    exact hw.line hnull
  | returnSwitch binding cases =>
    have hopen : ReadsFully "return switch (index) \x7b".toList
        [.word "return", .word "switch", .sign .openParen, .word "index", .sign .closeParen,
          .sign .openBrace] := by
      decide
    have hdefault : ReadsFully "default -> null;".toList
        [.word "default", .sign .arrow, .word "null", .sign .semicolon] := by
      decide
    have hclose : ReadsFully "\x7d;".toList [.sign .closeBrace, .sign .semicolon] := by
      decide
    have hcases := (hw.line hopen).indent.writeAll
      fun c hc w ts hw => hw.line (AccessCase.readsFully (c := c) h.1 (h.2 c hc))
    have hall := (hcases.line hdefault).dedent.line hclose
    rw [Final.tokens]
    simp only [List.append_assoc] at hall ⊢
    exact hall
  | returnNew className arguments =>
    have hnew : ReadsFully "return new ".toList [.word "return", .word "new"] := by
      decide
    have hclass := hnew.text_append (reads_path h.1)
    cases arguments with
    | nil =>
      have hcall : ReadsFully "();".toList
          [.sign .openParen, .sign .closeParen, .sign .semicolon] := by
        decide
      exact hw.line (hclass.text_append_fully (by decide) hcall)
    | cons r rest =>
      have hopen : ReadsFully "(".toList [.sign .openParen] := by
        decide
      have hclose : ReadsFully ");".toList [.sign .closeParen, .sign .semicolon] := by
        decide
      have hfirst := hw.line (hclass.text_append_fully (by decide) hopen)
      have harguments := linesRead_arguments h.2 hfirst.indent.indent
      have hall := harguments.dedent.dedent.line hclose
      rw [Final.tokens]
      · simp only [List.append_assoc] at hall ⊢
        exact hall
      · simp
  | throw thrown => exact hw.line (Thrown.readsFully_statement h)

/-! ## Branches -/

/-- The tokens of a guard. -/
def Guard.tokens (g : Guard) : List Token :=
  [.word "if", .sign .openParen] ++ populatedTokens g.cells ++
    [.sign .closeParen, .sign .openBrace] ++ (Thrown.message g.message).statementTokens ++
    [.sign .closeBrace]

/-- The cells and the message of a guard can be read. -/
def Guard.Readable (g : Guard) : Prop := (∀ r ∈ g.cells, r.Readable) ∧ isPlain g.message

/-- The tokens of a branch up to the brace that closes it. -/
def Branch.tokens (b : Branch) : List Token :=
  [.word "if", .sign .openParen] ++ b.test.tokens ++ [.sign .closeParen, .sign .openBrace] ++
    b.guards.flatMap Guard.tokens ++ b.final.tokens

/-- The parts of a branch can be read. -/
structure Branch.Readable (b : Branch) : Prop where
  test : b.test.Readable
  guards : ∀ g ∈ b.guards, g.Readable
  final : b.final.Readable

/-- The tokens after an `else`, for the branches that are left. -/
def tokensAfterElse (otherwise : Thrown) : List Branch → List Token
  | [] => [.sign .openBrace] ++ otherwise.statementTokens ++ [.sign .closeBrace]
  | b :: rest =>
    b.tokens ++ [.sign .closeBrace, .word "else"] ++ tokensAfterElse otherwise rest

/-- The tokens of a cascade. -/
def Cascade.tokens (c : Cascade) : List Token :=
  match c.branches with
  | [] => c.otherwise.statementTokens
  | branches => tokensAfterElse c.otherwise branches

/-- The parts of a cascade can be read. -/
structure Cascade.Readable (c : Cascade) : Prop where
  branches : ∀ b ∈ c.branches, b.Readable
  otherwise : c.otherwise.Readable

theorem readsFully_openBody : ReadsFully ") \x7b".toList [.sign .closeParen, .sign .openBrace] := by
  decide

theorem readsFully_closeBrace : ReadsFully "\x7d".toList [.sign .closeBrace] := by
  decide

/-- The lines of a guard add its tokens. -/
theorem linesRead_guard {w : Lines} {ts : List Token} (hw : LinesRead w ts) {g : Guard}
    (h : g.Readable) : LinesRead (g.write w) (ts ++ g.tokens) := by
  have hopen : ReadsFully "if (".toList [.word "if", .sign .openParen] := by
    decide
  have htest := (hopen.text_append (reads_populated h.1)).text_append_fully (by decide)
    readsFully_openBody
  have hthrow := (hw.line htest).indent.line
    (Thrown.readsFully_statement (t := .message g.message) h.2)
  have hall := hthrow.dedent.line readsFully_closeBrace
  rw [Guard.tokens]
  simp only [List.append_assoc] at hall ⊢
  exact hall

/-- The lines of a branch add its tokens, after those of the keyword in front. -/
theorem linesRead_branch {w : Lines} {ts : List Token} (hw : LinesRead w ts) {keyword : String}
    {us : List Token}
    (hkeyword : ReadsFully (keyword ++ " (").toList (us ++ [.word "if", .sign .openParen]))
    {b : Branch} (h : b.Readable) : LinesRead (b.write keyword w) (ts ++ (us ++ b.tokens)) := by
  have htest := (hkeyword.text_append (BranchTest.reads h.test)).text_append_fully
    (by decide) readsFully_openBody
  have hguards := (hw.line htest).indent.writeAll fun g hg w ts hw =>
    linesRead_guard (g := g) hw (h.guards g hg)
  have hall := (linesRead_final hguards h.final).dedent
  rw [Branch.tokens]
  simp only [List.append_assoc] at hall ⊢
  exact hall

theorem tokensAfterElse_eq (otherwise : Thrown) (branches : List Branch) :
    [.sign .closeBrace, .word "else"] ++ tokensAfterElse otherwise branches =
      branches.flatMap (fun b => [.sign .closeBrace, .word "else"] ++ b.tokens) ++
        ([.sign .closeBrace, .word "else", .sign .openBrace] ++ otherwise.statementTokens ++
          [.sign .closeBrace]) := by
  induction branches with
  | nil => rfl
  | cons b rest ih =>
    rw [tokensAfterElse, List.flatMap_cons, List.append_assoc _ (rest.flatMap _), ← ih]
    simp

/-- The lines of a cascade are read as its tokens. -/
theorem linesRead_cascade {c : Cascade} (h : c.Readable) : LinesRead c.write c.tokens := by
  obtain ⟨branches, otherwise⟩ := c
  cases branches with
  | nil => exact linesRead_empty.line (Thrown.readsFully_statement h.otherwise)
  | cons first rest =>
    have hif : ReadsFully ("if" ++ " (").toList ([] ++ [.word "if", .sign .openParen]) := by
      decide
    have helseIf : ReadsFully ("\x7d else if" ++ " (").toList
        ([.sign .closeBrace, .word "else"] ++ [.word "if", .sign .openParen]) := by
      decide
    have helse : ReadsFully "\x7d else \x7b".toList
        [.sign .closeBrace, .word "else", .sign .openBrace] := by
      decide
    have hbranches := List.forall_mem_cons.1 h.branches
    have hfirst := linesRead_branch linesRead_empty hif hbranches.1
    have hrest := hfirst.writeAll fun b hb w ts hw =>
      linesRead_branch (b := b) hw helseIf (hbranches.2 b hb)
    have hthrow := (hrest.line helse).indent.line (Thrown.readsFully_statement h.otherwise)
    have hall := hthrow.dedent.line readsFully_closeBrace
    have htokens : tokensAfterElse otherwise (first :: rest) =
        first.tokens ++ ([.sign .closeBrace, .word "else"] ++ tokensAfterElse otherwise rest) := by
      rw [tokensAfterElse, List.append_assoc]
    show LinesRead _ (tokensAfterElse otherwise (first :: rest))
    rw [htokens, tokensAfterElse_eq]
    simp only [List.append_assoc, List.nil_append] at hall ⊢
    exact hall

/-- The tokens of the text of a cascade. -/
theorem Cascade.tokens?_text {c : Cascade} (h : c.Readable) :
    tokens? c.write.text = some c.tokens :=
  (linesRead_cascade h).tokens?_text

end WideRow
