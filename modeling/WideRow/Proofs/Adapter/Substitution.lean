import Mathlib.Data.List.Infix
import WideRow.Adapter.Template

/-!
# Skeletons as substitution

Going through a text from the left, the first placeholder is looked for, then the first one after
its end, and so on. This finds placeholders that do not overlap, with the texts before each of them
and the text after the last. A skeleton is just that: it accepts the texts in which every slot is
found as often as it may stand, and filling it puts values where the placeholders were and changes
nothing else, whatever the values look like.

Splitting a text goes from one percent sign to the next one and compares a single slice of the text
with the placeholders. That is enough, as there is no percent sign inside of a placeholder.

Main definitions:
* `Slot.Scan`: the placeholders that are found in a text, with the texts between them;
* `Template.pieces`: the pieces for what has been found;
* `Slot.Allows`: how often a slot may stand.

Results:
* `Slot.Scan.unique`: a text is scanned in one way;
* `Template.split_of_notMem`, `Template.split_placeholder`, `Template.split_percent`: what a round of
  splitting does;
* `Template.exists_scan_split`, `Template.split_eq_pieces`: splitting a text is scanning it, by
  induction on the rounds;
* `template_substitutes`: which texts are skeletons, and what filling them gives.
-/

namespace WideRow

/-! ## Placeholders -/

namespace Slot

/-- The placeholder of the slot stands in a text at a position. -/
def StandsAt (s : Slot) (k : Nat) (cs : List Char) : Prop := s.placeholder.toList <+: cs.drop k

theorem mem_all (s : Slot) : s ∈ all := by
  cases s <;> decide

theorem placeholder_ne_nil (s : Slot) : s.placeholder.toList ≠ [] :=
  List.ne_nil_of_length_pos s.placeholder_length_pos

/-- A placeholder is a name between percent signs. -/
theorem exists_placeholder_eq (s : Slot) :
    ∃ name : List Char, '%' ∉ name ∧ s.placeholder.toList = '%' :: (name ++ ['%']) := by
  refine ⟨(s.placeholder.toList.drop 1).dropLast, ?_⟩
  cases s <;> decide

/-- No placeholder begins with another one. -/
theorem eq_of_placeholder_isPrefix {s s' : Slot}
    (h : s.placeholder.toList <+: s'.placeholder.toList) : s = s' := by
  have hall : ∀ s ∈ all, ∀ s' ∈ all,
      s.placeholder.toList.isPrefixOf s'.placeholder.toList → s = s' := by
    decide
  exact hall s s.mem_all s' s'.mem_all (List.isPrefixOf_iff_prefix.2 h)

/-- One placeholder at most stands at the front of a text. -/
theorem eq_of_isPrefix {s s' : Slot} {cs : List Char} (h : s.placeholder.toList <+: cs)
    (h' : s'.placeholder.toList <+: cs) : s = s' := by
  rcases List.prefix_or_prefix_of_prefix h h' with h | h
  · exact eq_of_placeholder_isPrefix h
  · exact (eq_of_placeholder_isPrefix h).symm

theorem ofPlaceholder?_eq_some_iff {text : String} {s : Slot} :
    ofPlaceholder? text = some s ↔ s.placeholder = text := by
  constructor
  · intro h
    simpa using List.find?_some h
  · rintro rfl
    cases s <;> decide

/-- A placeholder stands only where a percent sign does. -/
theorem StandsAt.percent {s : Slot} {k : Nat} {cs : List Char} (h : s.StandsAt k cs) :
    cs[k]? = some '%' := by
  obtain ⟨name, -, hname⟩ := s.exists_placeholder_eq
  obtain ⟨rest, hrest⟩ := h
  rw [hname] at hrest
  rw [← List.head?_drop, ← hrest]
  rfl

/-! ## Scanning -/

/-- The slots whose placeholders are found in a text from left to right, each with the text before
it since the last one, and the text after all of them. A placeholder is found where it is the first
one to stand, and the next is looked for after its end. -/
inductive Scan : List Char → List (List Char × Slot) → List Char → Prop
  | done {cs : List Char} (h : ∀ (s : Slot) (k : Nat), ¬ s.StandsAt k cs) : Scan cs [] cs
  | next {before rest : List Char} {s : Slot} {found : List (List Char × Slot)} {last : List Char}
      (h : ∀ (s' : Slot) (k : Nat), k < before.length →
        ¬ s'.StandsAt k (before ++ (s.placeholder.toList ++ rest)))
      (hrest : Scan rest found last) :
      Scan (before ++ (s.placeholder.toList ++ rest)) ((before, s) :: found) last

/-- The text with values in the place of what has been found. -/
def substituted (value : Slot → String) (found : List (List Char × Slot)) (last : List Char) :
    List Char :=
  found.flatMap (fun p => p.1 ++ (value p.2).toList) ++ last

theorem substituted_cons (value : Slot → String) (p : List Char × Slot)
    (found : List (List Char × Slot)) (last : List Char) :
    substituted value (p :: found) last =
      p.1 ++ ((value p.2).toList ++ substituted value found last) := by
  simp [substituted]

/-- The number of times a slot has been found. -/
def timesFound (s : Slot) (found : List (List Char × Slot)) : Nat := (found.map Prod.snd).count s

namespace Scan

variable {cs last last' : List Char} {found found' : List (List Char × Slot)}

/-- With the placeholders put back, the text is the one that was scanned. -/
theorem substituted_placeholder (h : Scan cs found last) :
    substituted placeholder found last = cs := by
  induction h with
  | done => rfl
  | next _ _ ih => rw [substituted_cons, ih]

/-- No placeholder is left between those that have been found, or after them. -/
theorem not_infix (h : Scan cs found last) :
    (∀ p ∈ found, ∀ s : Slot, ¬ s.placeholder.toList <:+: p.1) ∧
      ∀ s : Slot, ¬ s.placeholder.toList <:+: last := by
  induction h with
  | @done cs hnone =>
    refine ⟨by simp, fun s hs => ?_⟩
    obtain ⟨u, v, rfl⟩ := hs
    refine hnone s u.length ?_
    rw [StandsAt, List.append_assoc, List.drop_left]
    exact List.prefix_append _ _
  | @next before rest s found last hnone _ ih =>
    refine ⟨List.forall_mem_cons.2 ⟨fun s' hs' => ?_, ih.1⟩, ih.2⟩
    obtain ⟨u, v, rfl⟩ := hs'
    refine hnone s' u.length ?_ ?_
    · have := List.length_pos_of_ne_nil s'.placeholder_ne_nil
      simp only [List.length_append]
      omega
    · rw [StandsAt, List.append_assoc, List.append_assoc, List.drop_left]
      exact List.prefix_append _ _

end Scan

theorem standsAt_length (before rest : List Char) (s : Slot) :
    s.StandsAt before.length (before ++ (s.placeholder.toList ++ rest)) := by
  rw [StandsAt, List.drop_left]
  exact List.prefix_append _ _

/-- There is one way to scan a text. -/
theorem Scan.unique {cs last last' : List Char} {found found' : List (List Char × Slot)}
    (h : Scan cs found last) (h' : Scan cs found' last') : found = found' ∧ last = last' := by
  induction h generalizing found' last' with
  | @done cs hnone =>
    cases h' with
    | done => exact ⟨rfl, rfl⟩
    | @next before rest s => exact absurd (standsAt_length before rest s) (hnone s before.length)
  | @next before rest s found last hnone _ ih =>
    generalize hcs : before ++ (s.placeholder.toList ++ rest) = cs at h'
    have hstands := standsAt_length before rest s
    rw [hcs] at hnone hstands
    cases h' with
    | done hnone' => exact absurd hstands (hnone' s before.length)
    | @next before' rest' s' found' last' hnone' hrest' =>
      -- neither of the two placeholders comes before the other
      have hlength : before.length = before'.length := by
        rcases Nat.lt_trichotomy before.length before'.length with hlt | heq | hlt
        · exact absurd hstands (hnone' s before.length hlt)
        · exact heq
        · exact absurd (standsAt_length before' rest' s') (hnone s' before'.length hlt)
      obtain ⟨rfl, htail⟩ := List.append_inj hcs hlength
      obtain rfl : s = s' := eq_of_isPrefix ⟨rest, rfl⟩ ⟨rest', htail.symm⟩
      obtain ⟨rfl, rfl⟩ := ih (List.append_cancel_left htail ▸ hrest')
      exact ⟨rfl, rfl⟩

end Slot

/-! ## Pieces of a scanned text -/

namespace Template

open Slot

/-- The pieces of what has been found in a text, and of a literal in front of it. -/
def pieces (literal : List Char) : List (List Char × Slot) → List Char → List Segment
  | [], last => addLiteral (literal ++ last) []
  | (before, s) :: found, last => addLiteral (literal ++ before) (.slot s :: pieces [] found last)

theorem standsAt_append {front cs : List Char} {s : Slot} {k : Nat} (h : front.length ≤ k) :
    s.StandsAt k (front ++ cs) ↔ s.StandsAt (k - front.length) cs := by
  rw [StandsAt, List.drop_append, List.drop_of_length_le h, List.nil_append]
  rfl

/-- More text in front, in which no placeholder begins, comes to the literal before what is found. -/
theorem exists_scan_append {front cs last : List Char} {found : List (List Char × Slot)}
    (h : Scan cs found last)
    (hfront : ∀ (s : Slot) (k : Nat), k < front.length → ¬ s.StandsAt k (front ++ cs)) :
    ∃ found' last', Scan (front ++ cs) found' last' ∧
      ∀ literal, pieces literal found' last' = pieces (literal ++ front) found last := by
  -- where a placeholder stands behind what is in front, it stands in the text
  have hstands : ∀ (s : Slot) (k : Nat), s.StandsAt k (front ++ cs) →
      front.length ≤ k ∧ s.StandsAt (k - front.length) cs := by
    intro s k hk
    have hle := Nat.le_of_not_lt fun hlt => hfront s k hlt hk
    exact ⟨hle, (standsAt_append hle).1 hk⟩
  cases h with
  | done hnone =>
    refine ⟨[], front ++ cs, .done fun s k hk => hnone s _ (hstands s k hk).2, fun literal => ?_⟩
    rw [pieces, pieces, List.append_assoc]
  | @next before rest s found last hnone hrest =>
    refine ⟨(front ++ before, s) :: found, last, ?_, fun literal => ?_⟩
    · rw [← List.append_assoc] at hstands ⊢
      refine .next (fun s' k hk hstands' => ?_) hrest
      obtain ⟨hle, hstands'⟩ := hstands s' k hstands'
      rw [List.length_append] at hk
      exact hnone s' _ (by omega) hstands'
    · rw [pieces, pieces, List.append_assoc]

/-! ## Splitting -/

theorem idxOf?_append_cons {c : Char} {before : List Char} (h : c ∉ before) (after : List Char) :
    (before ++ c :: after).idxOf? c = some before.length := by
  rw [List.idxOf?_eq_some_iff]
  refine ⟨by simp, by simp, fun j hj heq => h ?_⟩
  rw [List.getElem_append_left hj] at heq
  exact heq ▸ List.getElem_mem hj

theorem drop_append_cons {α : Type} (before : List α) (a : α) (after : List α) :
    (before ++ a :: after).drop (before.length + 1) = after := by
  rw [List.append_cons]
  exact List.drop_left' (by simp)

/-- A percent sign and the next one enclose the name of a slot iff its placeholder stands there:
there is no percent sign in a name. -/
theorem slotAt?_eq_some_iff {before after : List Char} {s : Slot} :
    slotAt? (before ++ '%' :: after) before.length = some s ↔
      s.placeholder.toList <+: '%' :: after := by
  rw [slotAt?, drop_append_cons, List.drop_left]
  constructor
  · intro h
    obtain ⟨stop, -, hslot⟩ := Option.bind_eq_some_iff.1 h
    rw [ofPlaceholder?_eq_some_iff.1 hslot, String.toList_ofList]
    exact List.take_prefix _ _
  · rintro ⟨rest, hrest⟩
    obtain ⟨name, hpercent, hname⟩ := s.exists_placeholder_eq
    obtain rfl : name ++ '%' :: rest = after := by
      rw [hname, List.cons_append, List.append_assoc] at hrest
      exact (List.cons.inj hrest).2
    have hslice : ('%' :: (name ++ '%' :: rest)).take (name.length + 2) = s.placeholder.toList := by
      rw [← hrest]
      exact List.take_left' (by rw [hname]; simp)
    rw [idxOf?_append_cons hpercent, Option.bind_some, hslice, String.ofList_toList,
      ofPlaceholder?_eq_some_iff]

/-- The last round: no percent sign is left. -/
theorem split_of_notMem (literal : List Char) {rest : List Char} (h : '%' ∉ rest) :
    split literal rest = addLiteral (literal ++ rest) [] := by
  rw [split, List.idxOf?_eq_none_iff.2 h]

/-- A round in which a placeholder stands at the next percent sign. -/
theorem split_placeholder (literal rest : List Char) {before : List Char} (h : '%' ∉ before)
    (s : Slot) :
    split literal (before ++ (s.placeholder.toList ++ rest)) =
      addLiteral (literal ++ before) (.slot s :: split [] rest) := by
  obtain ⟨name, -, hname⟩ := s.exists_placeholder_eq
  have htext : s.placeholder.toList ++ rest = '%' :: (name ++ '%' :: rest) := by
    rw [hname, List.cons_append, List.append_assoc]
    rfl
  have hstart : (before ++ (s.placeholder.toList ++ rest)).idxOf? '%' = some before.length := by
    rw [htext]
    exact idxOf?_append_cons h _
  have hslot : slotAt? (before ++ (s.placeholder.toList ++ rest)) before.length = some s := by
    rw [htext, slotAt?_eq_some_iff, ← htext]
    exact List.prefix_append _ _
  rw [split, hstart]
  dsimp only
  rw [hslot]
  dsimp only
  rw [List.take_left, ← List.drop_drop, List.drop_left, List.drop_left]

/-- A round in which no placeholder stands at the next percent sign. -/
theorem split_percent (literal : List Char) {before after : List Char} (h : '%' ∉ before)
    (hnone : ∀ s : Slot, ¬ s.placeholder.toList <+: '%' :: after) :
    split literal (before ++ '%' :: after) = split (literal ++ (before ++ ['%'])) after := by
  have hslot : slotAt? (before ++ '%' :: after) before.length = none :=
    Option.eq_none_iff_forall_ne_some.2 fun s hs => hnone s (slotAt?_eq_some_iff.1 hs)
  have hpassed : (before ++ '%' :: after).take (before.length + 1) = before ++ ['%'] := by
    rw [List.append_cons]
    exact List.take_left' (by simp)
  rw [split, idxOf?_append_cons h]
  dsimp only
  rw [hslot]
  dsimp only
  rw [hpassed, drop_append_cons]

/-- No placeholder stands where there is no percent sign. -/
theorem not_standsAt_of_notMem {before cs : List Char} (h : '%' ∉ before) {s : Slot} {k : Nat}
    (hk : k < before.length) : ¬ s.StandsAt k (before ++ cs) := by
  intro hstands
  have hpercent := hstands.percent
  rw [List.getElem?_append_left hk] at hpercent
  exact h (List.mem_of_getElem? hpercent)

/-- What there is for a round: no percent sign, a first one at which a placeholder stands, or a first
one at which none does. -/
theorem round_cases (rest : List Char) :
    '%' ∉ rest ∨
    (∃ (before : List Char) (s : Slot) (after : List Char), '%' ∉ before ∧
      rest = before ++ (s.placeholder.toList ++ after)) ∨
    (∃ before after, '%' ∉ before ∧ rest = before ++ '%' :: after ∧
      ∀ s : Slot, ¬ s.placeholder.toList <+: '%' :: after) := by
  by_cases hmem : '%' ∈ rest
  · obtain ⟨before, after, rfl, hbefore⟩ := List.eq_append_cons_of_mem hmem
    by_cases hstands : ∃ s : Slot, s.placeholder.toList <+: '%' :: after
    · obtain ⟨s, rest, hrest⟩ := hstands
      exact .inr (.inl ⟨before, s, rest, hbefore, by rw [hrest]⟩)
    · exact .inr (.inr ⟨before, after, hbefore, rfl, not_exists.1 hstands⟩)
  · exact .inl hmem

/-- Splitting what is left of a text gives what a scan finds in it, after the literal before it. -/
theorem exists_scan_split (literal rest : List Char) :
    ∃ found last, Scan rest found last ∧ split literal rest = pieces literal found last := by
  -- on the length of what is left, which every round makes shorter
  induction hn : rest.length using Nat.strong_induction_on generalizing literal rest with
  | _ n ih =>
    obtain hnone | ⟨before, s, after, hbefore, rfl⟩ | ⟨before, after, hbefore, rfl, hlone⟩ :=
      round_cases rest
    · refine ⟨[], rest, .done fun s k hk => hnone ?_, split_of_notMem literal hnone⟩
      exact List.mem_of_getElem? hk.percent
    · have hpos := s.placeholder_length_pos
      rw [List.length_append, List.length_append] at hn
      obtain ⟨found, last, hscan, hsplit⟩ := ih after.length (by omega) [] after rfl
      rw [split_placeholder literal after hbefore s, hsplit]
      exact ⟨(before, s) :: found, last,
        .next (fun _ _ hk => not_standsAt_of_notMem hbefore hk) hscan, rfl⟩
    · rw [List.length_append, List.length_cons] at hn
      obtain ⟨found, last, hscan, hsplit⟩ :=
        ih after.length (by omega) (literal ++ (before ++ ['%'])) after rfl
      have hpassed : ∀ (s : Slot) (k : Nat), k < (before ++ ['%']).length →
          ¬ s.StandsAt k (before ++ ['%'] ++ after) := by
        intro s k hk
        rw [← List.append_cons]
        rw [List.length_append, List.length_singleton, Nat.lt_succ_iff_lt_or_eq] at hk
        rcases hk with hlt | rfl
        · exact not_standsAt_of_notMem hbefore hlt
        · rw [StandsAt, List.drop_left]
          exact hlone s
      obtain ⟨found', last', hscan', hpieces⟩ := exists_scan_append hscan hpassed
      rw [split_percent literal hbefore hlone, hsplit, List.append_cons]
      exact ⟨found', last', hscan', (hpieces literal).symm⟩

/-- Every text can be scanned. -/
theorem exists_scan (cs : List Char) : ∃ found last, Scan cs found last := by
  obtain ⟨found, last, hscan, -⟩ := exists_scan_split [] cs
  exact ⟨found, last, hscan⟩

/-- To split a text is to scan it. -/
theorem split_eq_pieces {cs last : List Char} {found : List (List Char × Slot)}
    (h : Scan cs found last) : split [] cs = pieces [] found last := by
  obtain ⟨found', last', h', hsplit⟩ := exists_scan_split [] cs
  obtain ⟨rfl, rfl⟩ := h.unique h'
  exact hsplit

/-! ## Counting and filling the pieces -/

theorem count_addLiteral (s : Slot) (literal : List Char) (segments : List Segment) :
    (addLiteral literal segments).count (.slot s) = segments.count (.slot s) := by
  cases literal with
  | nil => rfl
  | cons c cs => exact List.count_cons_of_ne (by simp)

/-- A slot stands in as many places as it has been found. -/
theorem count_pieces (s : Slot) (literal : List Char) (found : List (List Char × Slot))
    (last : List Char) : (pieces literal found last).count (.slot s) = timesFound s found := by
  induction found generalizing literal with
  | nil => rw [pieces, count_addLiteral]; rfl
  | cons p found ih =>
    rw [pieces, count_addLiteral, List.count_cons, ih, timesFound, timesFound, List.map_cons,
      List.count_cons]
    simp

theorem join_addLiteral (values : SlotValues) (literal : List Char) (segments : List Segment) :
    String.join ((addLiteral literal segments).map (Segment.fill values)) =
      String.ofList literal ++ String.join (segments.map (Segment.fill values)) := by
  cases literal with
  | nil => simp [addLiteral]
  | cons c cs => exact String.join_cons

/-- Filling the pieces puts values where placeholders have been found. -/
theorem render_pieces (values : SlotValues) (literal : List Char)
    (found : List (List Char × Slot)) (last : List Char) :
    render ⟨pieces literal found last⟩ values =
      String.ofList (literal ++ substituted values.get found last) := by
  induction found generalizing literal with
  | nil => simp [render, pieces, join_addLiteral, substituted]
  | cons p found ih =>
    have hrest : String.join ((pieces [] found last).map (Segment.fill values)) =
        String.ofList (substituted values.get found last) := ih []
    rw [render, pieces, join_addLiteral, List.map_cons, String.join_cons, hrest, substituted_cons]
    simp only [String.ofList_append, String.ofList_toList, String.append_assoc]
    rfl

/-- A literal piece is the text before a slot, or the one after all slots. -/
theorem mem_of_literal_mem_pieces {text : String} {found : List (List Char × Slot)}
    {last : List Char} (h : .literal text ∈ pieces [] found last) :
    (∃ p ∈ found, p.1 = text.toList) ∨ last = text.toList := by
  have hliteral : ∀ (literal : List Char) (segments : List Segment),
      .literal text ∈ addLiteral literal segments →
        literal = text.toList ∨ .literal text ∈ segments := by
    intro literal segments hmem
    cases literal with
    | nil => exact .inr hmem
    | cons c cs =>
      rcases List.mem_cons.1 hmem with heq | hmem
      · rw [Segment.literal.injEq] at heq
        exact .inl (by rw [heq, String.toList_ofList])
      · exact .inr hmem
  induction found with
  | nil =>
    rcases hliteral _ _ h with heq | hmem
    · exact .inr heq
    · cases hmem
  | cons p found ih =>
    rcases hliteral _ _ h with heq | hmem
    · exact .inl ⟨p, List.mem_cons_self, heq⟩
    · rcases List.mem_cons.1 hmem with heq | hmem
      · cases heq
      · exact (ih hmem).imp_left fun ⟨q, hq, heq⟩ => ⟨q, .tail _ hq, heq⟩

end Template

/-! ## Skeletons -/

namespace Slot

/-- How often a slot may stand: once if it is the package or one of the bodies, and at least once if
it is a name. -/
def Allows : Slot → Nat → Prop
  | .package, n | .embeddableTypeContent, n | .getPropertyBody, n | .instantiateBody, n => n = 1
  | .name, n | .sumType, n | .embeddableType, n => 1 ≤ n

theorem allows_iff {s : Slot} {n : Nat} : s.Allows n ↔ n ≠ 0 ∧ (1 < n → s.repeatable) := by
  cases s <;> simp [Allows, repeatable] <;> omega

instance (s : Slot) (n : Nat) : Decidable (s.Allows n) := decidable_of_iff _ allows_iff.symm

/-- What is wrong with a slot that stands a number of times that is not allowed. -/
def miscount (s : Slot) (n : Nat) : TemplateError :=
  if n = 0 then .missingSlot s else .repeatedSlot s n

end Slot

/-- The placeholders as values of their slots. -/
def SlotValues.placeholders : SlotValues where
  name := Slot.placeholder .name
  package := Slot.placeholder .package
  sumType := Slot.placeholder .sumType
  embeddableType := Slot.placeholder .embeddableType
  embeddableTypeContent := Slot.placeholder .embeddableTypeContent
  getPropertyBody := Slot.placeholder .getPropertyBody
  instantiateBody := Slot.placeholder .instantiateBody

theorem SlotValues.get_placeholders : placeholders.get = Slot.placeholder := by
  funext s
  cases s <;> rfl

namespace Template

open Slot

variable {found : List (List Char × Slot)} {last : List Char}

theorem flaw?_pieces (s : Slot) :
    flaw? ⟨pieces [] found last⟩ s =
      if s.Allows (timesFound s found) then none else some (s.miscount (timesFound s found)) := by
  have hcount : count ⟨pieces [] found last⟩ s = timesFound s found := count_pieces s [] found last
  unfold flaw? miscount
  rw [hcount, if_congr allows_iff rfl rfl]
  by_cases hzero : timesFound s found = 0
  · simp [hzero]
  · by_cases hone : 1 < timesFound s found
    · cases s.repeatable <;> simp [hzero, hone]
    · simp [hzero, hone]

theorem flaw?_pieces_eq_none_iff {s : Slot} :
    flaw? ⟨pieces [] found last⟩ s = none ↔ s.Allows (timesFound s found) := by
  rw [flaw?_pieces]
  split_ifs with hallows <;> simp [hallows]

theorem flaw?_pieces_eq_some_iff {s : Slot} {e : TemplateError} :
    flaw? ⟨pieces [] found last⟩ s = some e ↔
      ¬ s.Allows (timesFound s found) ∧ e = s.miscount (timesFound s found) := by
  rw [flaw?_pieces]
  split_ifs with hallows <;> simp [hallows, eq_comm]

variable {src : String}

theorem parse_eq (h : Scan src.toList found last) :
    parse src = match Slot.all.findSome? (flaw? ⟨pieces [] found last⟩) with
      | some e => .error e
      | none => .ok ⟨pieces [] found last⟩ := by
  have hunfold : parse src = match Slot.all.findSome? (flaw? ⟨split [] src.toList⟩) with
      | some e => .error e
      | none => .ok ⟨split [] src.toList⟩ := rfl
  rw [hunfold, split_eq_pieces h]

/-- A text is a skeleton iff every slot is found as often as it may stand. -/
theorem parse_eq_ok_iff (h : Scan src.toList found last) {t : Template} :
    parse src = .ok t ↔ (∀ s : Slot, s.Allows (timesFound s found)) ∧ ⟨pieces [] found last⟩ = t := by
  have hall : Slot.all.findSome? (flaw? ⟨pieces [] found last⟩) = none ↔
      ∀ s : Slot, s.Allows (timesFound s found) := by
    rw [List.findSome?_eq_none_iff]
    simp only [flaw?_pieces_eq_none_iff, Slot.mem_all, forall_const]
  rw [parse_eq h, ← hall]
  cases Slot.all.findSome? (flaw? ⟨pieces [] found last⟩) <;> simp

/-- If not, then what is reported is the first slot of which this is not so. -/
theorem parse_eq_error_iff (h : Scan src.toList found last) {e : TemplateError} :
    parse src = .error e ↔ ∃ before s after, Slot.all = before ++ s :: after ∧
      (∀ b ∈ before, b.Allows (timesFound b found)) ∧ ¬ s.Allows (timesFound s found) ∧
        e = s.miscount (timesFound s found) := by
  have hflaw : parse src = .error e ↔
      Slot.all.findSome? (flaw? ⟨pieces [] found last⟩) = some e := by
    rw [parse_eq h]
    cases Slot.all.findSome? (flaw? ⟨pieces [] found last⟩) <;> simp
  rw [hflaw, List.findSome?_eq_some_iff]
  simp only [flaw?_pieces_eq_some_iff, flaw?_pieces_eq_none_iff, and_comm, and_assoc]

end Template

/-- Every text has one scan from the left for placeholders that do not overlap, and with it: the
text is a skeleton iff the package and the bodies are found once and the names at least once, and
otherwise the first slot is reported that is not found as often as it may stand. A skeleton with its
slots filled is the text with the values in the place of what has been found, and nothing else
changed. So with the placeholders as values it is the text itself, and no literal piece of it
contains a placeholder. -/
theorem template_substitutes (src : String) :
    ∃ found last, Slot.Scan src.toList found last ∧
      (∀ found' last', Slot.Scan src.toList found' last' → found' = found ∧ last' = last) ∧
      ((∃ t, Template.parse src = .ok t) ↔ ∀ s : Slot, s.Allows (s.timesFound found)) ∧
      (∀ e, Template.parse src = .error e ↔ ∃ before s after, Slot.all = before ++ s :: after ∧
        (∀ b ∈ before, b.Allows (b.timesFound found)) ∧ ¬ s.Allows (s.timesFound found) ∧
          e = s.miscount (s.timesFound found)) ∧
      ∀ t, Template.parse src = .ok t →
        (∀ values : SlotValues,
          t.render values = String.ofList (Slot.substituted values.get found last)) ∧
        t.render .placeholders = src ∧
        ∀ text, .literal text ∈ t.segments →
          ∀ s : Slot, ¬ s.placeholder.toList <:+: text.toList := by
  obtain ⟨found, last, hscan⟩ := Template.exists_scan src.toList
  refine ⟨found, last, hscan, fun found' last' h' => h'.unique hscan, ?_,
    fun e => Template.parse_eq_error_iff hscan, fun t ht => ?_⟩
  · simp only [Template.parse_eq_ok_iff hscan, exists_and_left, exists_eq', and_true]
  · obtain ⟨-, rfl⟩ := (Template.parse_eq_ok_iff hscan).1 ht
    refine ⟨fun values => Template.render_pieces values [] found last, ?_, fun text htext s => ?_⟩
    · rw [Template.render_pieces, SlotValues.get_placeholders, hscan.substituted_placeholder,
        List.nil_append, String.ofList_toList]
    · obtain ⟨hfound, hlast⟩ := hscan.not_infix
      rcases Template.mem_of_literal_mem_pieces htext with ⟨p, hp, heq⟩ | heq
      · exact heq ▸ hfound p hp s
      · exact heq ▸ hlast s

/-- A skeleton with percent signs that stand for themselves, one of them before a placeholder, and
with the beginning of a placeholder at its end. -/
def percentSkeleton : String :=
  "50% of %NAME%SUM_TYPE%%SUM_TYPE%%PACKAGE%%EMBEDDABLE_TYPE%%EMBEDDABLE_TYPE_CONTENT%" ++
    "%GET_PROPERTY_BODY%%INSTANTIATE_BODY%%NAME"

/-- The pieces of the skeleton with percent signs. -/
def percentTemplate : Template :=
  ⟨[.literal "50% of ", .slot .name, .literal "SUM_TYPE%", .slot .sumType, .slot .package,
    .slot .embeddableType, .slot .embeddableTypeContent, .slot .getPropertyBody,
    .slot .instantiateBody, .literal "%NAME"]⟩

theorem template_substitutes_percent :
    Template.parse percentSkeleton = .ok percentTemplate ∧
      percentTemplate.render .placeholders = percentSkeleton ∧
      .literal "SUM_TYPE%" ∈ percentTemplate.segments ∧
      ∀ s : Slot, ¬ s.placeholder.toList <:+: "SUM_TYPE%".toList := by
  have hparse : Template.parse percentSkeleton = .ok percentTemplate := by
    decide +kernel
  have hmem : .literal "SUM_TYPE%" ∈ percentTemplate.segments := by
    decide
  obtain ⟨found, last, -, -, -, -, hrender⟩ := template_substitutes percentSkeleton
  obtain ⟨-, hback, hliteral⟩ := hrender percentTemplate hparse
  exact ⟨hparse, hback, hmem, hliteral _ hmem⟩

end WideRow
