import Mathlib.Data.List.TakeDrop
import Mathlib.Data.List.TakeWhile
import WideRow.Json.Reader
import WideRow.Proofs.WellFormed

/-!
# The front of a text

What is read from the front of a text does not depend on what follows it. A word or a string ends by
itself; a number ends where the next character does not belong to it, so that the first character of
the rest is looked at as well, but no other.

Main definitions:
* `ReadsFront`: a reader goes by the front of a text alone;
* `ScansFront`: the same for the scan of a part of a number.

Results:
* `ReadsFront.before`: what is passed over in front does not matter;
* `readsFront_scalarWord`, `readsFront_string`, `readsFront_number`: the readers of scalars go by the
  front.
-/

namespace WideRow.Json

/-! ## Readers and scans -/

/-- A reader comes to a cursor after a front of the text. In front of any other rest that is like the
one that it has left, it finds the same, given three steps for each character and some more. -/
def ReadsFront {α : Type} (read : Nat → List Char → Reading α) (steps : Nat)
    (like : List Char → Prop) (cs : List Char) (c : Cursor) (found : α) : Prop :=
  ∃ front, cs = front ++ c.rest ∧ ∀ fuel rest, 3 * front.length + steps ≤ fuel → like rest →
    read fuel (front ++ rest) = ⟨found, .ok ⟨rest, c.place⟩⟩

/-- Two texts have the same first character, or both have none. -/
def SameFirst (cs ds : List Char) : Prop := cs.head? = ds.head?

/-- A scan comes from a cursor to another one over a front of the text. In front of any other rest
with the same first character it finds the same. -/
structure ScansFront {β : Type} (scan : Cursor → Except Break (β × Cursor)) (front : List Char)
    (c : Cursor) (b : β) (c' : Cursor) : Prop where
  split : c.rest = front ++ c'.rest
  scan : ∀ rest, SameFirst rest c'.rest → scan ⟨front ++ rest, c.place⟩ = .ok (b, ⟨rest, c'.place⟩)

section

variable {α β : Type} {read read' : Nat → List Char → Reading α} {steps steps' : Nat}
  {like like' : List Char → Prop} {cs : List Char} {c : Cursor} {found : α}

/-- What a reader passes over before it goes on as another one belongs to the front. -/
theorem ReadsFront.before (h : ReadsFront read' steps' like cs c found) (before : List Char)
    (hread : ∀ fuel rest, read (fuel + 1) (before ++ rest) = read' fuel rest)
    (hsteps : steps' + 1 ≤ 3 * before.length + steps) :
    ReadsFront read steps like (before ++ cs) c found := by
  obtain ⟨front, rfl, hfront⟩ := h
  refine ⟨before ++ front, (List.append_assoc ..).symm, fun fuel rest hfuel hlike => ?_⟩
  rw [List.length_append] at hfuel
  obtain ⟨fuel, rfl⟩ := Nat.exists_eq_add_one_of_ne_zero (n := fuel) (by omega)
  rw [List.append_assoc, hread, hfront fuel rest (by omega) hlike]

theorem ReadsFront.mono (h : ReadsFront read steps like cs c found) (hsteps : steps ≤ steps')
    (hlike : ∀ rest, like' rest → like rest) : ReadsFront read steps' like' cs c found := by
  obtain ⟨front, rfl, hfront⟩ := h
  exact ⟨front, rfl, fun fuel rest hfuel hrest => hfront fuel rest (by omega) (hlike rest hrest)⟩

/-- A reader that reads nothing more. -/
theorem ReadsFront.done (rest : List Char) (place : Mark) :
    ReadsFront (fun _ rest => ⟨found, .ok ⟨rest, place⟩⟩) 0 like rest ⟨rest, place⟩ found :=
  ⟨[], rfl, fun _ _ _ _ => rfl⟩

theorem ReadsFront.map {g : Reading α → Reading β} {b : β}
    (h : ReadsFront read steps like cs c found)
    (hg : ∀ rest, g ⟨found, .ok ⟨rest, c.place⟩⟩ = ⟨b, .ok ⟨rest, c.place⟩⟩) :
    ReadsFront (fun fuel cs => g (read fuel cs)) steps like cs c b := by
  obtain ⟨front, rfl, hfront⟩ := h
  refine ⟨front, rfl, fun fuel rest hfuel hrest => ?_⟩
  dsimp only
  rw [hfront fuel rest hfuel hrest, hg]

/-- A reader that finds nothing in an empty text has the first character in the front. -/
theorem ReadsFront.uncons {first : Char} (h : ReadsFront read steps like (first :: cs) c found)
    (hlike : like []) (hnil : ∀ fuel c', (read fuel []).stop ≠ .ok c') :
    ReadsFront (fun fuel cs => read fuel (first :: cs)) (steps + 3) like cs c found := by
  obtain ⟨front, heq, hfront⟩ := h
  cases front with
  | nil =>
    have hread := hfront steps [] (by simp) hlike
    exact absurd (congrArg Reading.stop hread) (hnil steps _)
  | cons d front =>
    obtain ⟨rfl, rfl⟩ := List.cons.inj heq
    refine ⟨front, rfl, fun fuel rest hfuel hrest => ?_⟩
    exact hfront fuel rest (by rw [List.length_cons]; omega) hrest

end

theorem SameFirst.append {cs ds : List Char} (h : SameFirst cs ds) (front : List Char) :
    SameFirst (front ++ cs) (front ++ ds) := by
  cases front with
  | nil => exact h
  | cons c front => rfl

theorem sameFirst_of_ne_nil {front : List Char} (h : front ≠ []) (cs ds : List Char) :
    SameFirst (front ++ cs) (front ++ ds) := by
  cases front with
  | nil => exact absurd rfl h
  | cons c front => rfl

/-- One reader, and another one behind what comes between them. The characters between them are known,
so the first reader ends where it does. -/
theorem ReadsFront.andThen {α β : Type} {read₁ : Nat → List Char → Reading β}
    {read₂ read : Nat → List Char → Reading α} {steps₂ steps : Nat} {like : List Char → Prop}
    {cs cs₂ between : List Char} {c₁ c : Cursor} {b : β} {found : α}
    (h₁ : ReadsFront read₁ 0 (SameFirst · c₁.rest) cs c₁ b) (hrest : c₁.rest = between ++ cs₂)
    (hbetween : between ≠ []) (h₂ : ReadsFront read₂ steps₂ like cs₂ c found)
    (hread : ∀ fuel cs rest, read₁ fuel cs = ⟨b, .ok ⟨between ++ rest, c₁.place⟩⟩ →
      read fuel cs = read₂ fuel rest)
    (hsteps : steps₂ ≤ 3 * between.length + steps) : ReadsFront read steps like cs c found := by
  obtain ⟨front₁, rfl, hfront₁⟩ := h₁
  obtain ⟨front₂, rfl, hfront₂⟩ := h₂
  refine ⟨front₁ ++ (between ++ front₂), by simp [hrest], fun fuel rest hfuel hlike => ?_⟩
  simp only [List.length_append] at hfuel
  have hfirst : SameFirst (between ++ (front₂ ++ rest)) c₁.rest :=
    hrest ▸ sameFirst_of_ne_nil hbetween _ _
  rw [List.append_assoc, List.append_assoc,
    hread fuel _ (front₂ ++ rest) (hfront₁ fuel _ (by omega) hfirst),
    hfront₂ fuel rest (by omega) hlike]

/-! ## White space -/

theorem skip_eq_cons {cs rest : List Char} {place stop : Mark} {first : Char}
    (h : Cursor.skip ⟨cs, place⟩ = ⟨first :: rest, stop⟩) :
    isSpace first = false ∧ ∃ spaces, cs = spaces ++ first :: rest ∧
      ∀ rest', Cursor.skip ⟨spaces ++ first :: rest', place⟩ = ⟨first :: rest', stop⟩ := by
  simp only [Cursor.skip] at h ⊢
  induction cs generalizing place with
  | nil => cases h
  | cons c cs ih =>
    rw [skipSpace] at h
    split at h
    · next hspace =>
      obtain ⟨hfirst, spaces, rfl, hspaces⟩ := ih h
      refine ⟨hfirst, c :: spaces, rfl, fun rest' => ?_⟩
      rw [List.cons_append, skipSpace, if_pos hspace, hspaces]
    · next hspace =>
      cases h
      refine ⟨by simpa using hspace, [], rfl, fun rest' => ?_⟩
      rw [List.nil_append, skipSpace, if_neg hspace]

/-! ## Words and strings -/

theorem readWord_eq_ok {word cs : List Char} {place : Mark} {c : Cursor}
    (h : readWord word cs place = .ok c) :
    ∃ front, cs = front ++ c.rest ∧
      ∀ rest, readWord word (front ++ rest) place = .ok ⟨rest, c.place⟩ := by
  induction word generalizing cs place with
  | nil =>
    cases h
    exact ⟨[], rfl, fun _ => rfl⟩
  | cons e word ih =>
    cases cs with
    | nil => cases h
    | cons x cs =>
      rw [readWord] at h
      split at h
      · next heq =>
        obtain ⟨front, rfl, hfront⟩ := ih h
        refine ⟨x :: front, rfl, fun rest => ?_⟩
        rw [List.cons_append, readWord, if_pos heq, hfront]
      · cases h

theorem readsFront_scalarWord {word cs : List Char} {value : Scalar} {start : Mark} {c : Cursor}
    {found : Node} (h : readScalarWord word value start cs = ⟨found, .ok c⟩)
    (like : List Char → Prop) :
    ReadsFront (fun _ => readScalarWord word value start) 0 like cs c found := by
  rw [readScalarWord] at h
  cases hword : readWord word cs start.next with
  | error b =>
    rw [hword] at h
    cases h
  | ok c' =>
    rw [hword] at h
    cases h
    obtain ⟨front, rfl, hfront⟩ := readWord_eq_ok hword
    refine ⟨front, rfl, fun _ rest _ _ => ?_⟩
    dsimp only
    rw [readScalarWord, hfront]

/-- A string is read up to its closing quote. -/
theorem readsFront_text {t : TextSoFar} {cs : List Char} {place : Mark} {text : HeldText} {c : Cursor}
    (h : readText t cs place = ⟨text, .ok c⟩) (like : List Char → Prop) :
    ReadsFront (fun _ cs => readText t cs place) 0 like cs c text := by
  fun_induction readText t cs place with
  | case1 | case3 | case10 | case11 => cases h
  | case5 | case6 | case7 | case8 => split at h <;> cases h
  | case2 t rest place t' =>
    cases h
    refine ⟨['"'], rfl, fun _ rest' _ _ => ?_⟩
    show readText t ('"' :: rest') place = _
    rw [readText.eq_def]
    rfl
  | case4 t place digits a b c d rest unit hunit stop hquote ih =>
    refine (ih h).before ['\\', 'u', a, b, c, d] (fun _ rest' => ?_) (by simp)
    show readText _ ('\\' :: 'u' :: a :: b :: c :: d :: rest') _ = _
    rw [readText, if_neg (by decide), if_pos rfl]
    dsimp only
    rw [hunit]
  | case9 t place e rest hu unpaired c hshort hquote ih =>
    refine (ih h).before ['\\', e] (fun _ rest' => ?_) (by simp)
    show readText _ ('\\' :: e :: rest') _ = _
    rw [readText.eq_4 _ _ _ _ _ hu, if_neg (by decide), if_pos rfl, hshort]
  | case12 t c rest place hquote hbackslash unpaired hcontrol ih =>
    refine (ih h).before [c] (fun _ rest' => ?_) (by simp)
    rw [List.singleton_append, readText.eq_def]
    dsimp only
    rw [if_neg hquote, if_neg hbackslash, if_neg hcontrol]

theorem readText_front {t : TextSoFar} {cs : List Char} {place : Mark} {text : HeldText} {c : Cursor}
    (h : readText t cs place = ⟨text, .ok c⟩) :
    ∃ front, cs = front ++ c.rest ∧
      ∀ rest, readText t (front ++ rest) place = ⟨text, .ok ⟨rest, c.place⟩⟩ := by
  obtain ⟨front, hcs, hfront⟩ := readsFront_text h fun _ => True
  exact ⟨front, hcs, fun rest => hfront _ rest le_rfl trivial⟩

theorem readsFront_string {cs : List Char} {start : Mark} {found : Node} {c : Cursor}
    (h : readString start cs = ⟨found, .ok c⟩) (like : List Char → Prop) :
    ReadsFront (fun _ => readString start) 0 like cs c found := by
  rw [readString] at h
  cases htext : readText .empty cs start.next with
  | mk text stop =>
    rw [htext] at h
    cases stop with
    | error b => cases h
    | ok c' =>
      obtain ⟨front, rfl, hfront⟩ := readText_front htext
      dsimp only at h
      obtain rfl : c' = c := by
        split at h <;> (cases h; rfl)
      refine ⟨front, rfl, fun _ rest _ _ => ?_⟩
      dsimp only
      rw [readString, hfront]
      dsimp only
      split at h <;> (cases h; rfl)

/-! ## Numbers -/

section Scans

variable {β γ : Type} {c c' c'' : Cursor}

/-- A scan that finds nothing of what it looks for. -/
theorem ScansFront.nothing {scan : Cursor → Except Break (β × Cursor)} {b : β}
    (h : ∀ rest, SameFirst rest c.rest → scan ⟨rest, c.place⟩ = .ok (b, ⟨rest, c.place⟩)) :
    ScansFront scan [] c b c :=
  ⟨rfl, h⟩

/-- One scan after another. -/
theorem ScansFront.bind {scan : Cursor → Except Break (β × Cursor)}
    {scan' : β × Cursor → Except Break (γ × Cursor)} {front front' : List Char} {b : β} {g : γ}
    (h : ScansFront scan front c b c') (h' : ScansFront (fun c => scan' (b, c)) front' c' g c'') :
    ScansFront (fun c => scan c >>= scan') (front ++ front') c g c'' := by
  refine ⟨by rw [h.split, h'.split, List.append_assoc], fun rest hrest => ?_⟩
  have hfirst : SameFirst (front' ++ rest) c'.rest := h'.split ▸ hrest.append front'
  show scan _ >>= _ = _
  rw [List.append_assoc, h.scan _ hfirst]
  exact h'.scan rest hrest

end Scans

/-- The digits at the front of a text are the same in front of any other rest that begins in the same
way. -/
theorem digitsOf_append {cs digits rest : List Char} (h : digitsOf cs = (digits, rest)) :
    cs = digits ++ rest ∧
      ∀ rest', SameFirst rest' rest → digitsOf (digits ++ rest') = (digits, rest') := by
  unfold digitsOf at h ⊢
  rw [List.span_eq_takeWhile_dropWhile, Prod.mk.injEq] at h
  obtain ⟨rfl, rfl⟩ := h
  refine ⟨List.takeWhile_append_dropWhile.symm, fun rest' hrest => ?_⟩
  have hall : ∀ c ∈ cs.takeWhile Char.isDigit, c.isDigit = true := fun c hc =>
    List.mem_takeWhile_imp hc
  have hstop : rest'.takeWhile Char.isDigit = [] ∧ rest'.dropWhile Char.isDigit = rest' := by
    cases rest' with
    | nil => exact ⟨rfl, rfl⟩
    | cons c rest' =>
      have hc : c.isDigit = false := by
        have hnot := List.head?_dropWhile_not Char.isDigit cs
        rw [← hrest] at hnot
        exact hnot
      rw [List.takeWhile_cons_of_neg (by simp [hc]), List.dropWhile_cons_of_neg (by simp [hc])]
      exact ⟨rfl, rfl⟩
  rw [List.span_eq_takeWhile_dropWhile, List.takeWhile_append_of_pos hall,
    List.dropWhile_append_of_pos hall, hstop.1, hstop.2, List.append_nil]

theorem readWhole_zero {rest : List Char} {place : Mark}
    (h : ∀ d, rest.head? = some d → d.isDigit = false) :
    readWhole ('0' :: rest) place = .ok (['0'], ⟨rest, place.next⟩) := by
  rw [readWhole.eq_def]
  cases rest with
  | nil => rfl
  | cons d rest =>
    show (if d.isDigit then _ else _) = _
    rw [h d rfl, if_neg Bool.false_ne_true]

theorem readWhole_of_ne {d : Char} {cs digits rest : List Char} {place : Mark} (hd : d ≠ '0')
    (h : digitsOf (d :: cs) = (d :: digits, rest)) :
    readWhole (d :: cs) place = .ok (d :: digits, ⟨rest, place.skip (digits.length + 1)⟩) := by
  unfold readWhole
  split
  · next heq => exact absurd (List.cons.inj heq).1 hd
  · rw [h]
    rfl

theorem scansFront_whole {c c' : Cursor} {digits : List Char}
    (h : readWhole c.rest c.place = .ok (digits, c')) :
    ∃ front, front ≠ [] ∧ ScansFront (fun c => readWhole c.rest c.place) front c digits c' := by
  obtain ⟨cs, place⟩ := c
  dsimp only at h
  unfold readWhole at h
  split at h
  · next rest =>
    have hrest : digits = ['0'] ∧ c' = ⟨rest, place.next⟩ ∧
        ∀ d, rest.head? = some d → d.isDigit = false := by
      split at h
      · split at h
        · cases h
        · next hd =>
          cases h
          exact ⟨rfl, rfl, by simpa using hd⟩
      · cases h
        exact ⟨rfl, rfl, by simp⟩
    obtain ⟨rfl, rfl, hdigit⟩ := hrest
    refine ⟨['0'], by simp, rfl, fun rest' hfirst => ?_⟩
    exact readWhole_zero (hfirst ▸ hdigit)
  · next hzero =>
    cases hdigits : digitsOf cs with
    | mk digits' rest =>
      rw [hdigits] at h
      cases digits' with
      | nil => cases h
      | cons d digits' =>
        cases h
        obtain ⟨rfl, happend⟩ := digitsOf_append hdigits
        refine ⟨d :: digits', by simp, rfl, fun rest' hfirst => ?_⟩
        exact readWhole_of_ne (fun hd => hzero _ (by rw [hd]; rfl)) (happend rest' hfirst)

theorem readFraction_of_ne {c : Cursor} (h : c.rest.head? ≠ some '.') :
    readFraction c = .ok (none, c) := by
  unfold readFraction
  split
  · next rest hrest => exact absurd (congrArg List.head? hrest) h
  · rfl

theorem scansFront_fraction {c c' : Cursor} {fraction : Option (List Char)}
    (h : readFraction c = .ok (fraction, c')) :
    ∃ front, ScansFront readFraction front c fraction c' := by
  by_cases hpoint : c.rest.head? = some '.'
  · obtain ⟨cs, place⟩ := c
    obtain ⟨cs, rfl⟩ := List.head?_eq_some_iff.1 hpoint
    unfold readFraction at h
    cases hdigits : digitsOf cs with
    | mk digits rest =>
      simp only [hdigits] at h
      cases digits with
      | nil => cases h
      | cons d digits =>
        cases h
        obtain ⟨rfl, happend⟩ := digitsOf_append hdigits
        refine ⟨'.' :: d :: digits, rfl, fun rest' hfirst => ?_⟩
        have hread := happend rest' hfirst
        unfold readFraction
        simp only [List.cons_append] at hread ⊢
        rw [hread]
  · rw [readFraction_of_ne hpoint] at h
    cases h
    exact ⟨[], .nothing fun rest hrest => readFraction_of_ne (hrest ▸ hpoint)⟩

/-- The sign of an exponent, whether it is negative with it, and what follows. -/
inductive ExponentSign : List Char → Bool → List Char → Prop
  | plus (cs : List Char) : ExponentSign ['+'] false cs
  | minus (cs : List Char) : ExponentSign ['-'] true cs
  | none (cs : List Char) (hplus : cs.head? ≠ some '+') (hminus : cs.head? ≠ some '-') :
    ExponentSign [] false cs

theorem exists_exponentSign (cs : List Char) :
    ∃ sign negative cs', cs = sign ++ cs' ∧ ExponentSign sign negative cs' := by
  by_cases hplus : cs.head? = some '+'
  · obtain ⟨cs, rfl⟩ := List.head?_eq_some_iff.1 hplus
    exact ⟨_, _, _, rfl, .plus cs⟩
  · by_cases hminus : cs.head? = some '-'
    · obtain ⟨cs, rfl⟩ := List.head?_eq_some_iff.1 hminus
      exact ⟨_, _, _, rfl, .minus cs⟩
    · exact ⟨_, _, _, rfl, .none cs hplus hminus⟩

theorem ExponentSign.of_sameFirst {sign cs cs' : List Char} {negative : Bool}
    (h : ExponentSign sign negative cs) (hfirst : SameFirst cs' cs) :
    ExponentSign sign negative cs' := by
  cases h with
  | plus => exact .plus cs'
  | minus => exact .minus cs'
  | none _ hplus hminus => exact .none cs' (hfirst ▸ hplus) (hfirst ▸ hminus)

/-- The digits of an exponent after its letter and its sign. -/
def exponentDigits (negative : Bool) (before : Nat) (c : Cursor) :
    Except Break (Option (Bool × List Char) × Cursor) :=
  match digitsOf c.rest with
  | ([], rest) => .error (missingDigit rest (c.place.skip before))
  | (digits, rest) => .ok (some (negative, digits), ⟨rest, c.place.skip (before + digits.length)⟩)

theorem readExponent_of_ne {c : Cursor}
    (h : ∀ e, c.rest.head? = some e → ¬(e = 'e' ∨ e = 'E')) : readExponent c = .ok (none, c) := by
  unfold readExponent
  split
  · next e rest hrest => rw [if_neg (h e (congrArg List.head? hrest))]
  · rfl

theorem readExponent_eq {e : Char} {sign cs : List Char} {negative : Bool} {place : Mark}
    (he : e = 'e' ∨ e = 'E') (hsign : ExponentSign sign negative cs) :
    readExponent ⟨e :: (sign ++ cs), place⟩ =
      exponentDigits negative (1 + sign.length) ⟨cs, place⟩ := by
  unfold readExponent
  simp only [if_pos he]
  cases hsign with
  | plus => rfl
  | minus => rfl
  | none _ hplus hminus =>
    cases cs with
    | nil => rfl
    | cons d cs =>
      have hp : d ≠ '+' := fun h => hplus (h ▸ rfl)
      have hm : d ≠ '-' := fun h => hminus (h ▸ rfl)
      simp only [List.nil_append, List.cons.injEq, hp, hm, false_and, imp_self, implies_true,
        Nat.add_zero, List.length_nil]
      rfl

theorem scansFront_exponent {c c' : Cursor} {exponent : Option (Bool × List Char)}
    (h : readExponent c = .ok (exponent, c')) :
    ∃ front, ScansFront readExponent front c exponent c' := by
  by_cases hletter : ∃ e, c.rest.head? = some e ∧ (e = 'e' ∨ e = 'E')
  · obtain ⟨cs, place⟩ := c
    obtain ⟨e, hhead, he⟩ := hletter
    obtain ⟨cs, rfl⟩ := List.head?_eq_some_iff.1 hhead
    obtain ⟨sign, negative, cs, rfl, hsign⟩ := exists_exponentSign cs
    rw [readExponent_eq he hsign, exponentDigits] at h
    cases hdigits : digitsOf cs with
    | mk digits rest =>
      rw [hdigits] at h
      cases digits with
      | nil => cases h
      | cons d digits =>
        cases h
        obtain ⟨rfl, happend⟩ := digitsOf_append hdigits
        refine ⟨e :: (sign ++ (d :: digits)), by simp, fun rest' hfirst => ?_⟩
        rw [List.cons_append, List.append_assoc,
          readExponent_eq he (hsign.of_sameFirst (hfirst.append (d :: digits))), exponentDigits,
          happend rest' hfirst]
  · have hne : ∀ e, c.rest.head? = some e → ¬(e = 'e' ∨ e = 'E') := fun e hhead he =>
      hletter ⟨e, hhead, he⟩
    rw [readExponent_of_ne hne] at h
    cases h
    exact ⟨[], .nothing fun rest hrest => readExponent_of_ne (hrest ▸ hne)⟩

/-- The spelling of a number after its sign. -/
def unsignedNumeral (negative : Bool) (c : Cursor) : Except Break (Numeral × Cursor) :=
  readWhole c.rest c.place >>= fun r => readFraction r.2 >>= fun r' => readExponent r'.2 >>= fun r'' =>
    .ok (⟨negative, r.1, r'.1, r''.1⟩, r''.2)

theorem readNumeral_minus (cs : List Char) (place : Mark) :
    readNumeral ('-' :: cs) place = unsignedNumeral true ⟨cs, place.next⟩ := rfl

theorem readNumeral_of_ne {cs : List Char} (h : cs.head? ≠ some '-') (place : Mark) :
    readNumeral cs place = unsignedNumeral false ⟨cs, place⟩ := by
  unfold readNumeral
  cases cs with
  | nil => rfl
  | cons d cs =>
    have hd : d ≠ '-' := fun heq => h (heq ▸ rfl)
    simp [unsignedNumeral, hd, pure, Except.pure]

theorem scansFront_unsigned {negative : Bool} {c c' : Cursor} {n : Numeral}
    (h : unsignedNumeral negative c = .ok (n, c')) :
    ∃ front, front ≠ [] ∧ ScansFront (unsignedNumeral negative) front c n c' := by
  obtain ⟨⟨whole, c₁⟩, hwhole, h⟩ := bind_eq_ok_iff.1 h
  obtain ⟨⟨fraction, c₂⟩, hfraction, h⟩ := bind_eq_ok_iff.1 h
  obtain ⟨⟨exponent, c₃⟩, hexponent, h⟩ := bind_eq_ok_iff.1 h
  cases h
  dsimp only at hfraction hexponent ⊢
  obtain ⟨front₁, hne, h₁⟩ := scansFront_whole hwhole
  obtain ⟨front₂, h₂⟩ := scansFront_fraction hfraction
  obtain ⟨front₃, h₃⟩ := scansFront_exponent hexponent
  refine ⟨front₁ ++ (front₂ ++ (front₃ ++ [])), by simp [hne], h₁.bind ?_⟩
  dsimp only
  refine h₂.bind ?_
  dsimp only
  exact h₃.bind (.nothing fun _ _ => rfl)

/-- A number is read up to where the next character does not belong to it. -/
theorem readsFront_number {start : Mark} {first : Char} {cs : List Char} {found : Node} {c : Cursor}
    (h : readNumber start (first :: cs) = ⟨found, .ok c⟩) :
    ReadsFront (fun _ cs => readNumber start (first :: cs)) 0 (SameFirst · c.rest) cs c found := by
  rw [readNumber] at h
  cases hnumeral : readNumeral (first :: cs) start with
  | error b =>
    rw [hnumeral] at h
    cases h
  | ok r =>
    obtain ⟨n, c'⟩ := r
    rw [hnumeral] at h
    dsimp only at h
    obtain rfl : c' = c := by
      split at h <;> (cases h; rfl)
    have hfront : ∃ front, cs = front ++ c'.rest ∧ ∀ rest, SameFirst rest c'.rest →
        readNumeral (first :: (front ++ rest)) start = .ok (n, ⟨rest, c'.place⟩) := by
      by_cases hminus : first = '-'
      · subst hminus
        rw [readNumeral_minus] at hnumeral
        obtain ⟨front, -, hfront⟩ := scansFront_unsigned hnumeral
        exact ⟨front, hfront.split, hfront.scan⟩
      · have hne : ∀ cs, (first :: cs).head? ≠ some '-' := fun _ heq =>
          hminus (Option.some.inj heq)
        rw [readNumeral_of_ne (hne cs)] at hnumeral
        obtain ⟨front, hsome, hfront⟩ := scansFront_unsigned hnumeral
        obtain ⟨d, front, rfl⟩ := List.exists_cons_of_ne_nil hsome
        obtain ⟨rfl, hcs⟩ := List.cons.inj hfront.split
        refine ⟨front, hcs, fun rest hrest => ?_⟩
        rw [readNumeral_of_ne (hne _)]
        exact hfront.scan rest hrest
    obtain ⟨front, rfl, hfront⟩ := hfront
    refine ⟨front, rfl, fun _ rest _ hrest => ?_⟩
    dsimp only
    rw [readNumber, hfront rest hrest]
    dsimp only
    split at h <;> (cases h; rfl)

end WideRow.Json
