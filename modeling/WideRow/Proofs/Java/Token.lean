import Mathlib.Tactic.SplitIfs
import WideRow.Adapter.Lines
import WideRow.Name

/-!
# Java tokens

The tokens of a Java text, as far as the bodies of an adapter need them. An automaton reads one
character at a time and holds what it has read of a token that has not ended, so that texts can be
read piece by piece. Whatever it does not know is refused: comments, escapes, further operators and
number forms.

Results:
* `ReadsFully.append`, `Reads.append`: texts are read piece by piece;
* `reads_word`, `reads_path`, `reads_number`, `readsFully_text`: the pieces that vary;
* `LinesRead.tokens?_text`: lines that are read one by one are read as a text.
-/

namespace WideRow.Java

/-! ## Tokens -/

/-- The separators and operators. -/
inductive Sign where
  | dot | comma | semicolon
  | openParen | closeParen | openBrace | closeBrace | openBracket | closeBracket
  | and | differs | plus | arrow
  deriving DecidableEq

/-- A token. A word is an identifier or a reserved word; which of them is for the grammar to say. -/
inductive Token where
  | word (text : String)
  | number (n : Nat)
  | text (content : String)
  | sign (s : Sign)
  deriving DecidableEq

/-- What has been read of a token that has not ended. -/
inductive Pending where
  | nothing
  | word (cs : List Char)
  | number (n : Nat)
  | text (cs : List Char)
  /-- the first character of an operator of two -/
  | operator (c : Char)
  deriving DecidableEq

/-- The sign of a single character. -/
def Sign.ofChar? : Char → Option Sign
  | '.' => some .dot
  | ',' => some .comma
  | ';' => some .semicolon
  | '(' => some .openParen
  | ')' => some .closeParen
  | '\x7b' => some .openBrace
  | '\x7d' => some .closeBrace
  | '[' => some .openBracket
  | ']' => some .closeBracket
  | _ => none

/-- The sign of two characters. -/
def Sign.ofChars? : Char → Char → Option Sign
  | '&', '&' => some .and
  | '!', '=' => some .differs
  | '-', '>' => some .arrow
  | _, _ => none

/-- White space between tokens. -/
def isSpace (c : Char) : Bool := c == ' ' || c == '\n' || c == '\t' || c == '\r' || c == '\x0c'

/-- A character that stands for itself in a text between quotes. -/
def standsForItself (c : Char) : Bool := c != '"' && c != '\\' && c != '\n' && c != '\r'

/-! ## The automaton -/

/-- The first character of a token, or white space. -/
def start (c : Char) : Option (List Token × Pending) :=
  if isSpace c then some ([], .nothing)
  else if Name.isInitial c then some ([], .word [c])
  else if c.isDigit then some ([], .number (c.toNat - '0'.toNat))
  else if c = '"' then some ([], .text [])
  else if c = '&' ∨ c = '!' ∨ c = '-' ∨ c = '+' then some ([], .operator c)
  else (Sign.ofChar? c).map fun s => ([.sign s], .nothing)

/-- A token that has ended, before what comes next. -/
def Token.before (t : Token) (next : Option (List Token × Pending)) :
    Option (List Token × Pending) :=
  next.map fun read => (t :: read.1, read.2)

/-- One more character. Numbers have neither leading zeros nor letters, and the content of a text
neither escapes nor line ends. -/
def step : Pending → Char → Option (List Token × Pending)
  | .nothing, c => start c
  | .word cs, c =>
    if Name.isInner c then some ([], .word (cs ++ [c]))
    else (Token.word (String.ofList cs)).before (start c)
  | .number n, c =>
    if c.isDigit then if n = 0 then none else some ([], .number (10 * n + (c.toNat - '0'.toNat)))
    else if Name.isInitial c then none
    else (Token.number n).before (start c)
  | .text cs, c =>
    if standsForItself c then some ([], .text (cs ++ [c]))
    else if c = '"' then some ([.text (String.ofList cs)], .nothing)
    else none
  | .operator '+', c =>
    if c = '+' ∨ c = '=' then none else (Token.sign .plus).before (start c)
  | .operator o, c => (Sign.ofChars? o c).map fun s => ([.sign s], .nothing)

/-- Characters, one after the other. -/
def run : Pending → List Char → Option (List Token × Pending)
  | p, [] => some ([], p)
  | p, c :: cs => do
    let (ts, q) ← step p c
    let (us, r) ← run q cs
    return (ts ++ us, r)

/-- The tokens of a text. A line end after the text ends the last of them. -/
def tokens? (s : String) : Option (List Token) :=
  match run .nothing (s.toList ++ ['\n']) with
  | some (ts, .nothing) => some ts
  | _ => none

/-! ## Pieces of a text -/

theorem run_cons (p : Pending) (c : Char) (cs : List Char) :
    run p (c :: cs) = (step p c).bind fun read =>
      (run read.2 cs).map fun more => (read.1 ++ more.1, more.2) := by
  rw [run]
  cases step p c with
  | none => rfl
  | some read => cases h : run read.2 cs <;> simp [h]

theorem run_append (p : Pending) (cs ds : List Char) :
    run p (cs ++ ds) = (run p cs).bind fun read =>
      (run read.2 ds).map fun more => (read.1 ++ more.1, more.2) := by
  induction cs generalizing p with
  | nil => cases h : run p ds <;> simp [run, h]
  | cons c cs ih =>
    rw [List.cons_append, run_cons, run_cons]
    cases step p c with
    | none => rfl
    | some read =>
      simp only [ih, Option.bind_some]
      cases run read.2 cs with
      | none => rfl
      | some more => cases h : run more.2 ds <;> simp [h]

/-- The characters begin with one that cannot continue a word or a number. -/
def startsApart : List Char → Bool
  | [] => false
  | c :: _ => !Name.isInner c

/-- The characters are read as the tokens, whatever comes next. -/
def ReadsFully (cs : List Char) (ts : List Token) : Prop := run .nothing cs = some (ts, .nothing)

instance (cs : List Char) (ts : List Token) : Decidable (ReadsFully cs ts) :=
  inferInstanceAs (Decidable (_ = _))

/-- The characters are read as the tokens if something follows that is set apart from them. -/
def Reads (cs : List Char) (ts : List Token) : Prop :=
  ∀ ds us, startsApart ds → ReadsFully ds us → ReadsFully (cs ++ ds) (ts ++ us)

section Pieces

variable {cs ds : List Char} {ts us : List Token}

theorem ReadsFully.append_fully (h : ReadsFully cs ts) (h' : ReadsFully ds us) :
    ReadsFully (cs ++ ds) (ts ++ us) := by
  unfold ReadsFully at *
  rw [run_append, h, Option.bind_some, h', Option.map_some]

theorem ReadsFully.append (h : ReadsFully cs ts) (h' : Reads ds us) :
    Reads (cs ++ ds) (ts ++ us) := by
  intro es vs hes hread
  rw [List.append_assoc, List.append_assoc]
  exact h.append_fully (h' es vs hes hread)

theorem startsApart_append (h : startsApart ds) (es : List Char) : startsApart (ds ++ es) := by
  cases ds with
  | nil => cases h
  | cons c ds => exact h

theorem Reads.append (h : Reads cs ts) (hds : startsApart ds) (h' : Reads ds us) :
    Reads (cs ++ ds) (ts ++ us) := by
  intro es vs hes hread
  rw [List.append_assoc, List.append_assoc]
  exact h _ _ (startsApart_append hds es) (h' es vs hes hread)

theorem Reads.append_fully (h : Reads cs ts) (hds : startsApart ds) (h' : ReadsFully ds us) :
    ReadsFully (cs ++ ds) (ts ++ us) := h _ _ hds h'

/-! The same for pieces that are texts. -/

variable {s t : String}

theorem ReadsFully.text_append_fully (h : ReadsFully s.toList ts) (h' : ReadsFully t.toList us) :
    ReadsFully (s ++ t).toList (ts ++ us) := by
  rw [String.toList_append]
  exact h.append_fully h'

theorem ReadsFully.text_append (h : ReadsFully s.toList ts) (h' : Reads t.toList us) :
    Reads (s ++ t).toList (ts ++ us) := by
  rw [String.toList_append]
  exact h.append h'

theorem Reads.text_append_fully (h : Reads s.toList ts) (ht : startsApart t.toList)
    (h' : ReadsFully t.toList us) : ReadsFully (s ++ t).toList (ts ++ us) := by
  rw [String.toList_append]
  exact h.append_fully ht h'

end Pieces

/-! ## Words, paths, numbers and texts -/

/-- A token that ends where the next character is set apart from it. -/
theorem run_of_step_eq_before {p : Pending} {t : Token} {c : Char} {cs : List Char}
    {ts : List Token} (hstep : step p c = t.before (start c)) (h : ReadsFully (c :: cs) ts) :
    run p (c :: cs) = some (t :: ts, .nothing) := by
  unfold ReadsFully at h
  rw [run_cons, step] at h
  rw [run_cons, hstep]
  cases hstart : start c with
  | none =>
    rw [hstart] at h
    cases h
  | some read =>
    rw [hstart, Option.bind_some] at h
    obtain ⟨⟨more, q⟩, hmore, e⟩ := Option.map_eq_some_iff.1 h
    cases e
    simp [Token.before, hmore]

theorem run_word {w read : List Char} (hw : w.all Name.isInner) :
    run (.word read) w = some ([], .word (read ++ w)) := by
  induction w generalizing read with
  | nil => rw [run, List.append_nil]
  | cons c w ih =>
    rw [List.all_cons, Bool.and_eq_true] at hw
    rw [run_cons, step, if_pos hw.1]
    simp [ih hw.2]

theorem isSpace_eq_false_of_isInner {c : Char} (h : Name.isInner c) : isSpace c = false := by
  rw [Bool.eq_false_iff]
  intro hspace
  simp only [isSpace, Bool.or_eq_true, beq_iff_eq] at hspace
  rcases hspace with (((rfl | rfl) | rfl) | rfl) | rfl <;> revert h <;> decide

/-- An identifier is read as a word. -/
theorem reads_word {w : List Char} (hw : Name.isIdentifierChars w) :
    Reads w [.word (String.ofList w)] := by
  intro ds us hds h
  cases w with
  | nil => cases hw
  | cons c w =>
    obtain ⟨hc, hw⟩ := Bool.and_eq_true_iff.1 hw
    have hinner : Name.isInner c := by rw [Name.isInner, hc, Bool.true_or]
    have hfirst : start c = some ([], .word [c]) := by
      rw [start, isSpace_eq_false_of_isInner hinner, if_neg Bool.false_ne_true, if_pos hc]
    cases ds with
    | nil => cases hds
    | cons d ds =>
      have hd : Name.isInner d = false := by simpa [startsApart] using hds
      have hrest := run_of_step_eq_before (p := .word (c :: w))
        (t := .word (String.ofList (c :: w))) (by rw [step, hd, if_neg Bool.false_ne_true]) h
      unfold ReadsFully
      rw [List.cons_append, run_cons, step, hfirst, Option.bind_some, run_append, run_word hw]
      simp [hrest]

/-- Items with a separator between them are read one by one, if the separator sets them apart. -/
theorem reads_intercalate {β : Type} (charsOf : β → List Char) {separator : List Char}
    {items : List β} {separatorTokens : List Token} {tokensOf : β → List Token}
    (hne : items ≠ []) (hapart : startsApart separator)
    (hseparator : ReadsFully separator separatorTokens)
    (hitems : ∀ b ∈ items, Reads (charsOf b) (tokensOf b)) :
    Reads (separator.intercalate (items.map charsOf))
      (separatorTokens.intercalate (items.map tokensOf)) := by
  induction items with
  | nil => exact absurd rfl hne
  | cons b items ih =>
    rw [List.forall_mem_cons] at hitems
    cases items with
    | nil => simpa using hitems.1
    | cons b' items =>
      have hrest := hseparator.append (ih (List.cons_ne_nil _ _) hitems.2)
      have hall := hitems.1.append (startsApart_append hapart _) hrest
      simpa only [List.map_cons, List.intercalate_cons_cons, List.append_assoc] using hall

/-- The tokens of a dotted path. -/
def pathTokens : List (List Char) → List Token
  | [] => []
  | [w] => [.word (String.ofList w)]
  | w :: rest => .word (String.ofList w) :: .sign .dot :: pathTokens rest

theorem exists_pathTokens {segments : List (List Char)} (h : segments ≠ []) :
    ∃ w us, pathTokens segments = .word w :: us := by
  cases segments with
  | nil => exact absurd rfl h
  | cons w segments =>
    cases segments with
    | nil => exact ⟨_, _, rfl⟩
    | cons v segments => exact ⟨_, _, rfl⟩

theorem pathTokens_eq_intercalate (segments : List (List Char)) :
    pathTokens segments =
      [Token.sign .dot].intercalate (segments.map fun w => [.word (String.ofList w)]) := by
  induction segments with
  | nil => rfl
  | cons w segments ih =>
    cases segments with
    | nil => simp [pathTokens]
    | cons v segments =>
      rw [pathTokens, ih]
      · simp [List.intercalate_cons_cons]
      · simp

theorem readsFully_dot : ReadsFully ['.'] [.sign .dot] := by
  decide

/-- A dotted path of identifiers is read as its words with the dots between them. -/
theorem reads_path {s : String} (h : Name.isQualified s) :
    Reads s.toList (pathTokens (Name.segments s)) := by
  have hpath := reads_intercalate id (Name.segments_ne_nil s) rfl readsFully_dot
    fun w hw => reads_word (List.all_eq_true.1 h w hw)
  rw [List.map_id, Name.intercalate_segments] at hpath
  rw [pathTokens_eq_intercalate]
  exact hpath

theorem start_digitChar {d : Nat} (h : d < 10) :
    start d.digitChar = some ([], .number d) := by
  revert d
  decide

theorem step_digitChar {n d : Nat} (hn : n ≠ 0) (hd : d < 10) :
    step (.number n) d.digitChar = some ([], .number (10 * n + d)) := by
  have hdigit : ∀ d < 10, d.digitChar.isDigit ∧ d.digitChar.toNat - '0'.toNat = d := by decide
  rw [step, if_pos (hdigit d hd).1, if_neg hn, (hdigit d hd).2]

theorem run_toDigits (n : Nat) : run .nothing (Nat.toDigits 10 n) = some ([], .number n) := by
  induction n using Nat.strongRecOn with
  | ind n ih =>
    rcases Nat.lt_or_ge n 10 with h | h
    · rw [Nat.toDigits_of_lt_base h, run_cons, step, start_digitChar h]
      rfl
    · -- the digits before the last are those of the quotient, so they have no leading zero
      have hquot : n / 10 ≠ 0 := by omega
      have hrem : n % 10 < 10 := by omega
      have hn : 10 * (n / 10) + n % 10 = n := by omega
      rw [Nat.toDigits_of_base_le (by omega) h, run_append, ih (n / 10) (by omega),
        Option.bind_some, run_cons, step_digitChar hquot hrem, hn]
      rfl

/-- A number is read from its decimal digits. -/
theorem reads_number (n : Nat) : Reads (toString n).toList [.number n] := by
  intro ds us hds h
  have hdigits : (toString n).toList = Nat.toDigits 10 n := Nat.toList_repr
  cases ds with
  | nil => cases hds
  | cons d ds =>
    have hd : Name.isInner d = false := by simpa [startsApart] using hds
    obtain ⟨hinitial, hdigit⟩ := Bool.or_eq_false_iff.1 hd
    have hrest := run_of_step_eq_before (p := .number n) (t := .number n)
      (by rw [step, hdigit, if_neg Bool.false_ne_true, hinitial, if_neg Bool.false_ne_true]) h
    unfold ReadsFully
    rw [hdigits, run_append, run_toDigits, Option.bind_some, hrest]
    rfl

theorem run_text {content read : List Char} (h : content.all standsForItself) :
    run (.text read) content = some ([], .text (read ++ content)) := by
  induction content generalizing read with
  | nil => rw [run, List.append_nil]
  | cons c content ih =>
    rw [List.all_cons, Bool.and_eq_true] at h
    rw [run_cons, step, if_pos h.1]
    simp [ih h.2]

/-- A text between quotes is read as its content. -/
theorem readsFully_text {content : List Char} (h : content.all standsForItself) :
    ReadsFully ('"' :: (content ++ ['"'])) [.text (String.ofList content)] := by
  have hopen : step .nothing '"' = some ([], .text []) := by decide
  unfold ReadsFully
  rw [run_cons, hopen, Option.bind_some, run_append, run_text h]
  rfl

/-- White space in front does not count. -/
theorem ReadsFully.blanks_append {cs : List Char} {ts : List Token} (h : ReadsFully cs ts)
    (n : Nat) : ReadsFully (List.replicate n ' ' ++ cs) ts := by
  have hblanks : ReadsFully (List.replicate n ' ') [] := by
    induction n with
    | zero => rfl
    | succ n ih =>
      have hblank : ReadsFully [' '] [] := by decide
      exact hblank.append_fully ih
  exact hblanks.append_fully h

theorem readsFully_lineEnd : ReadsFully ['\n'] [] := by
  decide

/-- What is read as tokens has these tokens as a text. -/
theorem Reads.tokens?_eq {s : String} {ts : List Token} (h : Reads s.toList ts) :
    tokens? s = some ts := by
  have hread := h ['\n'] [] rfl readsFully_lineEnd
  unfold ReadsFully at hread
  rw [tokens?, hread, List.append_nil]

/-! ## Lines -/

/-- The lines, each with a line end after it, are read as the tokens. -/
def LinesRead (w : Lines) (ts : List Token) : Prop :=
  ReadsFully (w.lines.toList.flatMap fun line => line.toList ++ ['\n']) ts

section Lines

variable {w : Lines} {ts us : List Token}

theorem linesRead_empty : LinesRead Lines.empty [] := rfl

theorem LinesRead.indent (h : LinesRead w ts) : LinesRead w.indent ts := h

theorem LinesRead.dedent (h : LinesRead w ts) : LinesRead w.dedent ts := h

/-- One more line adds its tokens, whatever its depth. -/
theorem LinesRead.line (h : LinesRead w ts) {text : String} (ht : ReadsFully text.toList us) :
    LinesRead (w.line text) (ts ++ us) := by
  have hline : ReadsFully (if text.isEmpty then "" else Lines.blanks (4 * w.depth) ++ text).toList
      us := by
    split_ifs with hempty
    · rw [String.isEmpty_iff] at hempty
      rwa [hempty] at ht
    · rw [String.toList_append, Lines.blanks, String.toList_ofList]
      exact ht.blanks_append _
  have hended := hline.append_fully readsFully_lineEnd
  rw [List.append_nil] at hended
  unfold LinesRead Lines.line
  rw [Array.toList_push, List.flatMap_append, List.flatMap_singleton]
  exact h.append_fully hended

/-- Lines written for each of several items add the tokens of each. -/
theorem LinesRead.writeAll {α : Type} {write : Lines → α → Lines} {items : List α}
    {tokensOf : α → List Token}
    (hwrite : ∀ a ∈ items, ∀ w ts, LinesRead w ts → LinesRead (write w a) (ts ++ tokensOf a))
    (h : LinesRead w ts) : LinesRead (w.writeAll write items) (ts ++ items.flatMap tokensOf) := by
  induction items generalizing w ts with
  | nil => rwa [List.flatMap_nil, List.append_nil]
  | cons a items ih =>
    rw [List.forall_mem_cons] at hwrite
    rw [List.flatMap_cons, ← List.append_assoc]
    exact ih hwrite.2 (hwrite.1 w ts h)

theorem intercalate_append_lineEnd {lines : List (List Char)} (h : lines ≠ []) :
    ['\n'].intercalate lines ++ ['\n'] = lines.flatMap (· ++ ['\n']) := by
  induction lines with
  | nil => exact absurd rfl h
  | cons line rest ih =>
    cases rest with
    | nil => simp
    | cons next rest =>
      rw [List.intercalate_cons_cons, List.flatMap_cons, ← ih (List.cons_ne_nil _ _)]
      simp

/-- The text of lines has their tokens. -/
theorem LinesRead.tokens?_text (h : LinesRead w ts) : tokens? w.text = some ts := by
  have hread : ReadsFully (w.text.toList ++ ['\n']) ts := by
    unfold Lines.text
    rw [String.toList_intercalate]
    unfold LinesRead at h
    cases hlines : w.lines.toList with
    | nil =>
      rw [hlines] at h
      cases h
      exact readsFully_lineEnd
    | cons line rest =>
      rw [hlines] at h
      rw [show "\n".toList = ['\n'] by rfl, intercalate_append_lineEnd (by simp), List.flatMap_map]
      exact h
  unfold ReadsFully at hread
  rw [tokens?, hread]

end Lines

end WideRow.Java
