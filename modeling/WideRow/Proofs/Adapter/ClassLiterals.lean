import Mathlib.Data.List.TakeWhile
import WideRow.Proofs.Adapter.ColumnAgreement

/-!
# What class literals keep of a type

A type whose angle brackets are balanced is a row of plain pieces with a group of type arguments
between each and the next. Erasure should delete the groups and keep the pieces. It keeps the first
piece and drops everything after it, so that it does what it should just for the types of which
nothing but white space stands behind the first group: `List<String>` becomes `List`, but
`List<String>[]` becomes `List` too. All cells are read as the class that is left.

Main definitions:
* `SplitsAtGroups`: the pieces of a type outside of its outermost groups;
* `TypeRef.AnglesClose`: the angle brackets of a type are balanced;
* `Rejoins`: pieces put together again, up to white space at the seams;
* `TypeRef.ErasesGroups`: erasure deletes the groups and nothing else.

Results:
* `anglesClose_iff`: the types with balanced brackets are those that split at groups;
* `SplitsAtGroups.unique`: the pieces of a type are determined;
* `TypeRef.toList_erasure`: erasure keeps the first piece;
* `erasure_of_balanced`: when erasure deletes the groups and nothing else.
-/

namespace WideRow

/-! ## Groups of type arguments -/

/-- There are no angle brackets in the text. -/
def IsPlain (piece : List Char) : Prop := '<' ∉ piece ∧ '>' ∉ piece

/-- The text consists of the pieces, with a group of type arguments between each and the next. A
group is enclosed in angle brackets and may hold further groups. -/
inductive SplitsAtGroups : List Char → List (List Char) → Prop
  | plain {piece : List Char} : IsPlain piece → SplitsAtGroups piece [piece]
  | group {piece inner rest : List Char} {innerPieces pieces : List (List Char)} :
      IsPlain piece → SplitsAtGroups inner innerPieces → SplitsAtGroups rest pieces →
      SplitsAtGroups (piece ++ '<' :: (inner ++ '>' :: rest)) (piece :: pieces)

/-- Of the angle brackets of a text, each that closes has one that opens before it, and each that
opens is closed. A number of brackets is open at the beginning. -/
def anglesClose : Nat → List Char → Bool
  | depth, [] => depth == 0
  | depth, c :: rest =>
    if c = '<' then anglesClose (depth + 1) rest
    else if c = '>' then depth != 0 && anglesClose (depth - 1) rest
    else anglesClose depth rest

/-- The angle brackets of the type are balanced. -/
def TypeRef.AnglesClose (t : TypeRef) : Prop := anglesClose 0 t.text.toList

instance (t : TypeRef) : Decidable t.AnglesClose :=
  inferInstanceAs (Decidable (anglesClose 0 t.text.toList = true))

/-- The pieces of a text outside of all groups, where a number of groups is open at the beginning. -/
def outsideGroups : Nat → List Char → List (List Char)
  | _, [] => [[]]
  | 0, c :: rest =>
    if c = '<' then [] :: outsideGroups 1 rest else (outsideGroups 0 rest).modifyHead (c :: ·)
  | depth + 1, c :: rest =>
    if c = '<' then outsideGroups (depth + 2) rest
    else if c = '>' then outsideGroups depth rest
    else outsideGroups (depth + 1) rest

section Scans

variable {cs piece : List Char} {pieces : List (List Char)}

theorem isPlain_cons_iff {c : Char} :
    IsPlain (c :: cs) ↔ (c ≠ '<' ∧ c ≠ '>') ∧ IsPlain cs := by
  unfold IsPlain
  simp only [List.mem_cons, not_or]
  constructor
  · rintro ⟨⟨hopen, hopens⟩, hclose, hcloses⟩
    exact ⟨⟨Ne.symm hopen, Ne.symm hclose⟩, hopens, hcloses⟩
  · rintro ⟨⟨hopen, hclose⟩, hopens, hcloses⟩
    exact ⟨⟨Ne.symm hopen, hopens⟩, Ne.symm hclose, hcloses⟩

theorem isPlain_nil : IsPlain [] := ⟨List.not_mem_nil, List.not_mem_nil⟩

theorem anglesClose_plain (h : IsPlain piece) (depth : Nat) (rest : List Char) :
    anglesClose depth (piece ++ rest) = anglesClose depth rest := by
  induction piece with
  | nil => rfl
  | cons c piece ih =>
    obtain ⟨⟨hopen, hclose⟩, hpiece⟩ := isPlain_cons_iff.1 h
    rw [List.cons_append, anglesClose, if_neg hopen, if_neg hclose, ih hpiece]

/-- A text that splits at groups leaves as many brackets open as there were. -/
theorem SplitsAtGroups.anglesClose_append (h : SplitsAtGroups cs pieces) :
    ∀ (depth : Nat) (rest : List Char), anglesClose depth (cs ++ rest) = anglesClose depth rest := by
  induction h with
  | plain hpiece => exact anglesClose_plain hpiece
  | group hpiece _ _ ihinner ihrest =>
    intro depth tail
    rw [List.append_assoc, anglesClose_plain hpiece, List.cons_append, anglesClose, if_pos rfl,
      List.append_assoc, ihinner, List.cons_append, anglesClose, if_neg (by decide), if_pos rfl,
      Nat.add_sub_cancel, ihrest]
    rfl

theorem outsideGroups_succ_plain (h : IsPlain piece) (depth : Nat) (rest : List Char) :
    outsideGroups (depth + 1) (piece ++ rest) = outsideGroups (depth + 1) rest := by
  induction piece with
  | nil => rfl
  | cons c piece ih =>
    obtain ⟨⟨hopen, hclose⟩, hpiece⟩ := isPlain_cons_iff.1 h
    rw [List.cons_append, outsideGroups, if_neg hopen, if_neg hclose, ih hpiece]

/-- Nothing inside a group is a piece. -/
theorem SplitsAtGroups.outsideGroups_succ_append (h : SplitsAtGroups cs pieces) :
    ∀ (depth : Nat) (rest : List Char),
      outsideGroups (depth + 1) (cs ++ rest) = outsideGroups (depth + 1) rest := by
  induction h with
  | plain hpiece => exact outsideGroups_succ_plain hpiece
  | group hpiece _ _ ihinner ihrest =>
    intro depth tail
    rw [List.append_assoc, outsideGroups_succ_plain hpiece, List.cons_append, outsideGroups,
      if_pos rfl, List.append_assoc, ihinner, List.cons_append, outsideGroups, if_neg (by decide),
      if_pos rfl]
    exact ihrest depth tail

theorem outsideGroups_zero_plain (h : IsPlain piece) (rest : List Char) :
    outsideGroups 0 (piece ++ rest) = (outsideGroups 0 rest).modifyHead (piece ++ ·) := by
  induction piece with
  | nil =>
    rw [List.nil_append]
    cases outsideGroups 0 rest <;> rfl
  | cons c piece ih =>
    obtain ⟨⟨hopen, -⟩, hpiece⟩ := isPlain_cons_iff.1 h
    rw [List.cons_append, outsideGroups, if_neg hopen, ih hpiece]
    cases outsideGroups 0 rest <;> rfl

/-- The scan finds the pieces. -/
theorem SplitsAtGroups.outsideGroups_eq (h : SplitsAtGroups cs pieces) :
    outsideGroups 0 cs = pieces := by
  induction h with
  | @plain piece hpiece =>
    have hscan := outsideGroups_zero_plain hpiece []
    rw [List.append_nil] at hscan
    rw [hscan, outsideGroups, List.modifyHead_cons, List.append_nil]
  | group hpiece hinner _ _ ihrest =>
    rw [outsideGroups_zero_plain hpiece, outsideGroups, if_pos rfl,
      hinner.outsideGroups_succ_append, outsideGroups, if_neg (by decide), if_pos rfl, ihrest,
      List.modifyHead_cons, List.append_nil]

/-- The pieces of a text are determined. -/
theorem SplitsAtGroups.unique {pieces' : List (List Char)} (h : SplitsAtGroups cs pieces)
    (h' : SplitsAtGroups cs pieces') : pieces = pieces' :=
  h.outsideGroups_eq.symm.trans h'.outsideGroups_eq

end Scans

/-! ### Balanced texts split at groups -/

/-- The text splits at groups after a number of brackets has been closed, and so does what stands
before each of these. -/
def ClosesGroups : Nat → List Char → Prop
  | 0, cs => ∃ pieces, SplitsAtGroups cs pieces
  | depth + 1, cs =>
    ∃ inner innerPieces rest, cs = inner ++ '>' :: rest ∧ SplitsAtGroups inner innerPieces ∧
      ClosesGroups depth rest

theorem SplitsAtGroups.cons {c : Char} {cs : List Char} {pieces : List (List Char)}
    (h : SplitsAtGroups cs pieces) (hopen : c ≠ '<') (hclose : c ≠ '>') :
    ∃ pieces', SplitsAtGroups (c :: cs) pieces' := by
  cases h with
  | plain hpiece => exact ⟨_, .plain (isPlain_cons_iff.2 ⟨⟨hopen, hclose⟩, hpiece⟩)⟩
  | group hpiece hinner hrest =>
    exact ⟨_, .group (isPlain_cons_iff.2 ⟨⟨hopen, hclose⟩, hpiece⟩) hinner hrest⟩

/-- What is closed inside of a bracket can be put in front of what follows the bracket. -/
theorem ClosesGroups.open_group {inner rest : List Char} {innerPieces : List (List Char)}
    (hinner : SplitsAtGroups inner innerPieces) :
    ∀ {depth : Nat}, ClosesGroups depth rest → ClosesGroups depth ('<' :: (inner ++ '>' :: rest))
  | 0, ⟨_, hrest⟩ => ⟨_, .group isPlain_nil hinner hrest⟩
  | _ + 1, ⟨inner', _, rest', hsplit, hinner', hrest'⟩ => by
    refine ⟨'<' :: (inner ++ '>' :: inner'), _, rest', ?_, .group isPlain_nil hinner hinner', hrest'⟩
    rw [hsplit, List.cons_append, List.append_assoc, List.cons_append]

theorem ClosesGroups.cons {c : Char} (hopen : c ≠ '<') (hclose : c ≠ '>') {cs : List Char} :
    ∀ {depth : Nat}, ClosesGroups depth cs → ClosesGroups depth (c :: cs)
  | 0, ⟨_, h⟩ => h.cons hopen hclose
  | _ + 1, ⟨inner, _, rest, hsplit, hinner, hrest⟩ => by
    obtain ⟨_, hcons⟩ := hinner.cons hopen hclose
    exact ⟨c :: inner, _, rest, by rw [hsplit, List.cons_append], hcons, hrest⟩

theorem closesGroups_of_anglesClose {cs : List Char} :
    ∀ {depth : Nat}, anglesClose depth cs → ClosesGroups depth cs := by
  induction cs with
  | nil =>
    intro depth h
    obtain rfl : depth = 0 := by simpa [anglesClose] using h
    exact ⟨_, .plain isPlain_nil⟩
  | cons c cs ih =>
    intro depth h
    rw [anglesClose] at h
    split_ifs at h with hopen hclose
    · obtain ⟨inner, _, rest, rfl, hinner, hrest⟩ := ih h
      exact hopen ▸ hrest.open_group hinner
    · obtain ⟨hopened, hrest⟩ := Bool.and_eq_true_iff.1 h
      obtain ⟨depth, rfl⟩ := Nat.exists_eq_succ_of_ne_zero (bne_iff_ne.1 hopened)
      exact ⟨[], _, cs, by rw [hclose, List.nil_append], .plain isPlain_nil, ih hrest⟩
    · exact (ih h).cons hopen hclose

/-- The brackets of a text are balanced iff it splits at groups. -/
theorem anglesClose_iff {cs : List Char} :
    anglesClose 0 cs ↔ ∃ pieces, SplitsAtGroups cs pieces := by
  constructor
  · intro h
    exact closesGroups_of_anglesClose h
  · rintro ⟨pieces, h⟩
    have hclose := h.anglesClose_append 0 []
    rw [List.append_nil] at hclose
    rw [hclose]
    rfl

example : outsideGroups 0 "Map<K, List<V>>.Entry<K, V>[]".toList =
    ["Map".toList, ".Entry".toList, "[]".toList] := by
  decide

/-! ## Pieces put together -/

/-- The text is white space. -/
def AllBlank (cs : List Char) : Prop := ∀ c ∈ cs, Text.isBlank c

/-- The text is what the pieces come to when they are put together; at each seam, some of the white
space on either side may be gone. -/
inductive Rejoins : List (List Char) → List Char → Prop
  | last (piece : List Char) : Rejoins [piece] piece
  | seam {kept back front next text : List Char} {pieces : List (List Char)} :
      AllBlank back → AllBlank front → Rejoins (next :: pieces) text →
      Rejoins ((kept ++ back) :: (front ++ next) :: pieces) (kept ++ text)

/-- Erasure deletes the groups of type arguments and nothing else, up to the white space around
them. -/
def TypeRef.ErasesGroups (t : TypeRef) : Prop :=
  ∃ pieces, SplitsAtGroups t.text.toList pieces ∧ Rejoins pieces t.erasure.toList

theorem allBlank_nil : AllBlank [] := fun _ h => absurd h List.not_mem_nil

theorem AllBlank.filter_eq_nil {cs : List Char} (h : AllBlank cs) :
    cs.filter (!Text.isBlank ·) = [] := by
  rw [List.filter_eq_nil_iff]
  intro c hc
  simp [h c hc]

/-- Nothing but white space is gone. -/
theorem Rejoins.filter_eq {pieces : List (List Char)} {text : List Char} (h : Rejoins pieces text) :
    text.filter (!Text.isBlank ·) = pieces.flatten.filter (!Text.isBlank ·) := by
  induction h with
  | last piece => rw [List.flatten_singleton]
  | seam hback hfront _ ih =>
    rw [List.flatten_cons, List.flatten_cons, List.filter_append, List.filter_append,
      List.filter_append, List.filter_append, List.filter_append, hback.filter_eq_nil,
      hfront.filter_eq_nil, ih, List.flatten_cons, List.filter_append, List.append_nil,
      List.nil_append]

/-- Pieces of white space may be gone altogether. -/
theorem rejoins_of_allBlank {kept back : List Char} (hback : AllBlank back)
    {pieces : List (List Char)} (hne : pieces ≠ []) (h : ∀ piece ∈ pieces, AllBlank piece) :
    Rejoins ((kept ++ back) :: pieces) kept := by
  induction pieces generalizing kept back with
  | nil => exact absurd rfl hne
  | cons next pieces ih =>
    rw [List.forall_mem_cons] at h
    have hrest : Rejoins ([] :: pieces) [] := by
      cases pieces with
      | nil => exact .last []
      | cons piece pieces => exact @ih [] [] allBlank_nil (List.cons_ne_nil _ _) h.2
    have hseam : Rejoins ((kept ++ back) :: (next ++ []) :: pieces) (kept ++ []) :=
      .seam hback h.1 hrest
    rwa [List.append_nil, List.append_nil] at hseam

/-! ## What is kept -/

/-- A text is followed by white space where its end has been trimmed. -/
theorem exists_trimEndChars_append (cs : List Char) :
    ∃ back, AllBlank back ∧ Text.trimEndChars cs ++ back = cs := by
  refine ⟨(cs.reverse.takeWhile Text.isBlank).reverse, fun c hc => ?_, ?_⟩
  · exact List.mem_takeWhile_imp (List.mem_reverse.1 hc)
  · rw [Text.trimEndChars, ← List.reverse_append, List.takeWhile_append_dropWhile,
      List.reverse_reverse]

/-- Erasure keeps the first piece, without white space at its end if a group follows. -/
theorem TypeRef.toList_erasure {t : TypeRef} {head : List Char} {others : List (List Char)}
    (h : SplitsAtGroups t.text.toList (head :: others)) :
    t.erasure.toList = if others = [] then head else Text.trimEndChars head := by
  generalize hcs : t.text.toList = cs at h
  rw [TypeRef.erasure]
  cases h with
  | plain hpiece => rw [hcs, if_neg hpiece.1, if_pos rfl, hcs]
  | group hpiece _ hrest =>
    have hothers : others ≠ [] := by
      rintro rfl
      cases hrest
    have hall : ∀ c ∈ head, (c != '<') = true := by
      intro c hc
      rw [bne_iff_ne]
      rintro rfl
      exact hpiece.1 hc
    rw [hcs, if_pos (List.mem_append_right _ List.mem_cons_self), if_neg hothers,
      String.toList_ofList, List.takeWhile_append_of_pos hall,
      List.takeWhile_cons_of_neg (by decide), List.append_nil]

theorem SplitsAtGroups.ne_nil {cs : List Char} {pieces : List (List Char)}
    (h : SplitsAtGroups cs pieces) : ∃ head others, pieces = head :: others := by
  cases h with
  | plain => exact ⟨_, _, rfl⟩
  | group => exact ⟨_, _, rfl⟩

/-- Erasure deletes the groups and nothing else iff there is nothing but white space behind the first
group. -/
theorem TypeRef.erasesGroups_iff {t : TypeRef} {head : List Char} {others : List (List Char)}
    (h : SplitsAtGroups t.text.toList (head :: others)) :
    t.ErasesGroups ↔ ∀ piece ∈ others, AllBlank piece := by
  have herasure := toList_erasure h
  obtain ⟨back, hback, htrim⟩ := exists_trimEndChars_append head
  constructor
  · rintro ⟨pieces, hpieces, hrejoins⟩
    obtain rfl := hpieces.unique h
    rcases eq_or_ne others [] with rfl | hne
    · exact fun piece hpiece => absurd hpiece List.not_mem_nil
    -- what is not white space comes from `head` alone, so that nothing is left for the others
    have hkept := hrejoins.filter_eq
    rw [herasure, if_neg hne, List.flatten_cons, List.filter_append] at hkept
    nth_rewrite 2 [← htrim] at hkept
    rw [List.filter_append, hback.filter_eq_nil, List.append_nil, List.self_eq_append_right,
      List.filter_eq_nil_iff] at hkept
    intro piece hpiece c hc
    simpa using hkept c (List.mem_flatten.2 ⟨piece, hpiece, hc⟩)
  · intro hblank
    refine ⟨head :: others, h, ?_⟩
    rw [herasure]
    rcases eq_or_ne others [] with rfl | hne
    · exact .last head
    · rw [if_neg hne]
      have hrejoins : Rejoins ((Text.trimEndChars head ++ back) :: others) (Text.trimEndChars head) :=
        rejoins_of_allBlank hback hne hblank
      rwa [htrim] at hrejoins

/-! ## Class literals -/

/-- The cells that a branch reads: in its test, in its guards and as arguments. -/
def Branch.reads (b : Branch) : List CellRead :=
  let tested := match b.test with
    | .populated cells => cells
    | .isInstance .. => []
  let arguments := match b.final with
    | .returnNew _ arguments => arguments
    | _ => []
  tested ++ b.guards.flatMap (·.cells) ++ arguments

/-- A branch reads cells of slots. -/
theorem exists_slot_of_mem_reads {p : Planner} {c : Candidate} {later : List Candidate}
    {r : CellRead} (h : r ∈ (instantiateBranch p c later).reads) :
    ∃ e ∈ c :: later, ∃ slot ∈ e.slots, r = CellRead.of slot := by
  have htest : r ∈ c.slotsByPosition.map CellRead.of →
      ∃ e ∈ c :: later, ∃ slot ∈ e.slots, r = CellRead.of slot := by
    intro hmem
    obtain ⟨slot, hslot, rfl⟩ := List.mem_map.1 hmem
    exact ⟨c, List.mem_cons_self, slot, Candidate.mem_slotsByPosition.1 hslot, rfl⟩
  rw [instantiateBranch] at h
  dsimp only at h
  split_ifs at h with hties
  · exact htest (by simpa [Branch.reads] using h)
  · rw [Branch.reads, List.mem_append, List.mem_append, List.mem_flatMap] at h
    dsimp only at h
    rcases h with (htested | ⟨g, hg, hguard⟩) | hargument
    · exact htest htested
    · obtain ⟨rival, hrival, rfl⟩ := List.mem_map.1 hg
      obtain ⟨e, he, rfl⟩ := Candidate.exists_of_mem_rivals hrival
      obtain ⟨slot, hslot, rfl⟩ := List.mem_map.1 hguard
      exact ⟨e, .tail _ he, slot, Candidate.mem_slots_of_mem_beyond hslot, rfl⟩
    · obtain ⟨slot, hslot, rfl⟩ := List.mem_map.1 hargument
      exact ⟨c, List.mem_cons_self, slot, hslot, rfl⟩

/-- A cell is read as the class that is left of the type of its column. -/
theorem Definition.className_of_mem_reads {d : Definition} {b : Branch}
    (hb : b ∈ (instantiateCascade d.planner).branches) {r : CellRead} (hr : r ∈ b.reads) {f : Field}
    (hposition : d.schema.positionOf? f = some r.position) : r.className = f.type.erasure := by
  obtain ⟨c, later, hsub, rfl⟩ := exists_of_mem_instantiateBranches hb
  obtain ⟨e, he, ⟨g, k⟩, hslot, rfl⟩ := exists_slot_of_mem_reads hr
  have hg := positionOf?_of_mem_order (hsub he) hslot
  rw [Schema.positionOf?_injective hposition hg]
  rfl

/-- For every type whose angle brackets are balanced: it consists of plain pieces with a group of
type arguments between each and the next, and erasure keeps the first piece, without white space at
its end if a group follows. So the groups are deleted and nothing else, up to white space around
them, iff nothing but white space stands outside of groups behind the first group. What is left is
the class as which any definition reads the cells of the columns of that type. -/
theorem erasure_of_balanced {t : TypeRef} (h : t.AnglesClose) :
    ∃ head others, SplitsAtGroups t.text.toList (head :: others) ∧
      t.erasure.toList = (if others = [] then head else Text.trimEndChars head) ∧
      (t.ErasesGroups ↔ ∀ piece ∈ others, AllBlank piece) ∧
      ∀ (d : Definition), ∀ b ∈ (instantiateCascade d.planner).branches, ∀ r ∈ b.reads,
        ∀ name, d.schema.positionOf? ⟨name, t⟩ = some r.position → r.className = t.erasure := by
  obtain ⟨pieces, hpieces⟩ := anglesClose_iff.1 h
  obtain ⟨head, others, rfl⟩ := hpieces.ne_nil
  refine ⟨head, others, hpieces, TypeRef.toList_erasure hpieces, TypeRef.erasesGroups_iff hpieces,
    ?_⟩
  intro d b hb r hr name hposition
  exact Definition.className_of_mem_reads hb hr hposition

/-- Type arguments within type arguments are deleted as a whole. -/
theorem erasure_of_balanced_nested :
    (TypeRef.mk "Map<K, List<V>>").AnglesClose ∧ (TypeRef.mk "Map<K, List<V>>").ErasesGroups := by
  have hclose : (TypeRef.mk "Map<K, List<V>>").AnglesClose := by
    decide
  obtain ⟨head, others, hpieces, -, hiff, -⟩ := erasure_of_balanced hclose
  have hscan : outsideGroups 0 "Map<K, List<V>>".toList = ["Map".toList, []] := by
    decide
  obtain ⟨rfl, rfl⟩ := List.cons.inj (hpieces.outsideGroups_eq.symm.trans hscan)
  refine ⟨hclose, hiff.2 fun piece hpiece => ?_⟩
  rw [List.mem_singleton.1 hpiece]
  exact allBlank_nil

/-- A table whose columns are lists. -/
def table : Description :=
  { name := "a.Table", package := none, closed := true
    alternatives := [⟨"a.Table.Filled", .record [⟨"columns", "java.util.List<java.lang.String>[]"⟩]⟩] }

/-- The definition of the table. -/
def tableDefinition : Definition :=
  ⟨"a.Table", none, [⟨"a.Table.Filled", [.of "columns" "java.util.List<java.lang.String>[]"]⟩]⟩

/-- With the type argument of its items, an array loses its brackets, and its cells are read as
lists. -/
theorem erasure_loses_dimension :
    table.build = .ok tableDefinition ∧
      (TypeRef.ofText "java.util.List<java.lang.String>[]").AnglesClose ∧
      (TypeRef.ofText "java.util.List<java.lang.String>[]").erasure = "java.util.List" ∧
      ¬ (TypeRef.ofText "java.util.List<java.lang.String>[]").ErasesGroups ∧
      (instantiateCascade tableDefinition.planner).branches.flatMap Branch.reads =
        [⟨0, "java.util.List"⟩, ⟨0, "java.util.List"⟩] := by
  have hclose : anglesClose 0 "java.util.List<java.lang.String>[]".toList := by
    decide
  have hscan : outsideGroups 0 "java.util.List<java.lang.String>[]".toList =
      ["java.util.List".toList, "[]".toList] := by
    decide
  obtain ⟨pieces, hpieces⟩ := anglesClose_iff.1 hclose
  obtain rfl := hpieces.outsideGroups_eq.symm.trans hscan
  have hlost : ¬ (TypeRef.ofText "java.util.List<java.lang.String>[]").ErasesGroups := by
    rw [TypeRef.erasesGroups_iff (t := .ofText "java.util.List<java.lang.String>[]") hpieces]
    intro hblank
    exact absurd (hblank "[]".toList List.mem_cons_self '[' (by decide)) (by decide)
  refine ⟨by decide, hclose, by decide, hlost, ?_⟩
  decide +kernel

end WideRow
