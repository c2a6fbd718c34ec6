import WideRow.Proofs.Json.Held
import WideRow.Proofs.Json.Steps

/-!
# Reading compact text

The compact text of a value without numbers is read back as that value, as long as its brackets are
nested no deeper than what is held.

Main definitions:
* `Value.NumberFree`: a value without numbers;
* `Value.depth`: how deep the brackets of a value are nested;
* `Value.Reads`: the text of a value is read back from the front of any text.

Results:
* `readText_escaped`: strings are read back;
* `holds_read_compact`: the text of a value is read back.
-/

namespace WideRow.Json

/-! ## Strings -/

/-- A string of which some characters have been read, in reverse order, without a flaw. -/
def TextSoFar.plain (reversed : List Char) : TextSoFar := ⟨reversed, none, none⟩

/-- A character that stands for itself is read as it is. -/
theorem readText_plain {c : Char} (hquote : c ≠ '"') (hbackslash : c ≠ '\\')
    (hcontrol : ¬ c.toNat < 0x20) (reversed tail : List Char) (place : Mark) :
    readText (.plain reversed) (c :: tail) place =
      readText (.plain (c :: reversed)) tail (place.after c) := by
  rw [readText.eq_def]
  dsimp only
  rw [if_neg hquote, if_neg hbackslash, if_neg hcontrol]
  rfl

/-- A short escape is read as its character. -/
theorem readText_short {e c : Char} (hshort : shortEscape? e = some c) (hu : e ≠ 'u')
    (reversed tail : List Char) (place : Mark) :
    readText (.plain reversed) ('\\' :: e :: tail) place =
      readText (.plain (c :: reversed)) tail (place.next.after e) := by
  rw [readText.eq_4 _ _ _ _ _ hu, if_neg (by decide), if_pos rfl, hshort]
  rfl

/-- Four hexadecimal digits of a unit that is no surrogate are read as its character. -/
theorem readText_unit {a b c d : Char} {unit : Nat} (hunit : hexValue4? a b c d = some unit)
    (hsurrogate : unit < 0xD800) (reversed tail : List Char) (place : Mark) :
    ∃ place', readText (.plain reversed) ('\\' :: 'u' :: a :: b :: c :: d :: tail) place =
      readText (.plain (Char.ofNat unit :: reversed)) tail place' := by
  have hpush : ∀ stop, (TextSoFar.plain reversed).pushUnit unit stop =
      .plain (Char.ofNat unit :: reversed) := by
    intro stop
    rw [TextSoFar.pushUnit]
    dsimp only [TextSoFar.plain]
    rw [if_neg (by omega), if_neg (by omega)]
  refine ⟨⟨place.next.next.line, place.next.next.column + 4⟩, ?_⟩
  rw [readText, if_neg (by decide), if_pos rfl]
  dsimp only
  rw [hunit]
  dsimp only
  rw [hpush]

theorem hexValue4?_control : ∀ n < 0x20,
    hexValue4? '0' '0' (hexDigit (n / 16)) (hexDigit (n % 16)) = some n := by
  decide

/-- The spelling of a character is read back. -/
theorem readText_escape (c : Char) (reversed tail : List Char) (place : Mark) :
    ∃ place', readText (.plain reversed) (escape c ++ tail) place =
      readText (.plain (c :: reversed)) tail place' := by
  unfold escape
  split
  iterate 7 exact ⟨_, readText_short rfl (by decide) reversed tail place⟩
  next hquote hbackslash _ _ _ _ _ =>
    split
    · next hcontrol =>
      obtain ⟨place', hread⟩ := readText_unit (hexValue4?_control c.toNat hcontrol) (by omega)
        reversed tail place
      rw [Char.ofNat_toNat] at hread
      exact ⟨place', hread⟩
    · next hcontrol => exact ⟨_, readText_plain hquote hbackslash hcontrol reversed tail place⟩

/-- A string is read up to its closing quote, and without a flaw. -/
theorem readText_escaped (cs reversed tail : List Char) (place : Mark) :
    ∃ place', readText (.plain reversed) (cs.flatMap escape ++ '"' :: tail) place =
      ⟨⟨String.ofList (reversed.reverse ++ cs), none⟩, .ok ⟨tail, place'⟩⟩ := by
  induction cs generalizing reversed place with
  | nil =>
    refine ⟨place.next, ?_⟩
    rw [List.flatMap_nil, List.nil_append, readText.eq_def]
    dsimp only
    rw [if_pos rfl, List.append_nil]
    rfl
  | cons c cs ih =>
    obtain ⟨place', hc⟩ := readText_escape c reversed (cs.flatMap escape ++ '"' :: tail) place
    obtain ⟨place'', hcs⟩ := ih (c :: reversed) place'
    refine ⟨place'', ?_⟩
    rw [List.flatMap_cons, List.append_assoc, hc, hcs, List.reverse_cons, List.append_assoc,
      List.singleton_append]

/-! ## Brackets -/

section

variable {fuel depth : Nat} {c : Cursor} {tail : List Char} {place place' : Mark}

theorem nested_of_ok (h : depth < deepest) (start : Mark) (node : Span → Node) :
    nested depth start (.ok c) node = ⟨node ⟨start, c.place⟩, .ok c⟩ := by
  unfold nested
  dsimp only
  rw [if_pos h]

theorem readNode_array {rest : List Char} {ns : List Node} (hdepth : depth < deepest)
    (h : readItems fuel (depth + 1) ⟨rest, place.next⟩ = ⟨ns, .ok ⟨tail, place'⟩⟩) :
    readNode (fuel + 1) depth ⟨'[' :: rest, place⟩ =
      ⟨.array ⟨place, place'⟩ ns none, .ok ⟨tail, place'⟩⟩ := by
  have hopen := skip_of_not_isSpace (c := '[') (by decide) rest place
  rw [readNode]
  simp only [hopen, h, nested_of_ok hdepth]

theorem readNode_object {rest : List Char} {ms : List (Key × Node)} (hdepth : depth < deepest)
    (h : readMembers fuel (depth + 1) ⟨rest, place.next⟩ = ⟨(ms, .closed), .ok ⟨tail, place'⟩⟩) :
    readNode (fuel + 1) depth ⟨'\x7b' :: rest, place⟩ =
      ⟨.object ⟨place, place'⟩ ms .closed, .ok ⟨tail, place'⟩⟩ := by
  have hopen := skip_of_not_isSpace (c := '\x7b') (by decide) rest place
  rw [readNode]
  simp only [hopen, h, nested_of_ok hdepth]

end

/-! ## Values -/

mutual

/-- There are no numbers in the value. -/
def Value.NumberFree : Value → Prop
  | .number _ => False
  | .array items => Value.NumberFreeItems items
  | .object members => Value.NumberFreeMembers members
  | _ => True

/-- There are no numbers in the items. -/
def Value.NumberFreeItems : List Value → Prop
  | [] => True
  | v :: rest => v.NumberFree ∧ NumberFreeItems rest

/-- There are no numbers in the members. -/
def Value.NumberFreeMembers : List (String × Value) → Prop
  | [] => True
  | (_, v) :: rest => v.NumberFree ∧ NumberFreeMembers rest

end

mutual

/-- How deep the brackets of a value are nested. -/
def Value.depth : Value → Nat
  | .array items => Value.depthItems items + 1
  | .object members => Value.depthMembers members + 1
  | _ => 0

/-- How deep the brackets of the items are nested. -/
def Value.depthItems : List Value → Nat
  | [] => 0
  | v :: rest => max v.depth (depthItems rest)

/-- How deep the brackets of the members are nested. -/
def Value.depthMembers : List (String × Value) → Nat
  | [] => 0
  | (_, v) :: rest => max v.depth (depthMembers rest)

end

theorem Value.numberFreeItems_iff {items : List Value} :
    NumberFreeItems items ↔ ∀ v ∈ items, v.NumberFree := by
  induction items with
  | nil => simp [NumberFreeItems]
  | cons v rest ih => rw [NumberFreeItems, ih, List.forall_mem_cons]

theorem Value.numberFreeMembers_iff {members : List (String × Value)} :
    NumberFreeMembers members ↔ ∀ m ∈ members, m.2.NumberFree := by
  induction members with
  | nil => simp [NumberFreeMembers]
  | cons m rest ih => rw [NumberFreeMembers, ih, List.forall_mem_cons]

theorem toList_quote (s : String) :
    (quote s).toList = '"' :: (s.toList.flatMap escape ++ ['"']) := by
  simp [quote]

/-- The text of a value begins with a character that is neither white space nor a bracket that
closes. -/
theorem Value.exists_toList_compact {v : Value} (h : v.NumberFree) :
    ∃ first rest, v.compact.toList = first :: rest ∧ isSpace first = false ∧ first ≠ ']' := by
  match v, h with
  | .null, _ => exact ⟨_, _, rfl, by decide, by decide⟩
  | .bool true, _ => exact ⟨_, _, rfl, by decide, by decide⟩
  | .bool false, _ => exact ⟨_, _, rfl, by decide, by decide⟩
  | .string s, _ => exact ⟨_, _, toList_quote s, by decide, by decide⟩
  | .array [], _ => exact ⟨_, _, rfl, by decide, by decide⟩
  | .array (v :: rest), _ =>
    refine ⟨'[', v.compact.toList ++ (Value.compactItems rest).toList, ?_, by decide, by decide⟩
    rw [compact, String.toList_append, String.toList_append, List.append_assoc]
    rfl
  | .object [], _ => exact ⟨_, _, rfl, by decide, by decide⟩
  | .object ((key, v) :: rest), _ =>
    refine ⟨'\x7b', (quote key ++ ":" ++ v.compact ++ Value.compactMembers rest).toList, ?_,
      by decide, by decide⟩
    rw [compact, String.append_assoc, String.append_assoc, String.append_assoc,
      String.toList_append, String.append_assoc, String.append_assoc]
    rfl

/-- The text of the value is read back from the front of any text, if there are steps enough and the
brackets are not nested too deep. -/
def Value.Reads (v : Value) : Prop :=
  -- a character takes three steps at most: for a value, for its items and for the first of them
  ∀ (fuel depth : Nat) (tail : List Char) (place : Mark), 3 * v.compact.toList.length ≤ fuel →
    depth + v.depth ≤ deepest →
    ∃ n place', readNode fuel depth ⟨v.compact.toList ++ tail, place⟩ = ⟨n, .ok ⟨tail, place'⟩⟩ ∧
      n.Holds v

theorem readWord_append (word tail : List Char) (place : Mark) :
    ∃ place', readWord word (word ++ tail) place = .ok ⟨tail, place'⟩ := by
  induction word generalizing place with
  | nil => exact ⟨place, rfl⟩
  | cons c word ih =>
    obtain ⟨place', hword⟩ := ih (place.after c)
    refine ⟨place', ?_⟩
    rw [List.cons_append, readWord, if_pos rfl, hword]

theorem readScalarWord_append (word tail : List Char) (value : Scalar) (start : Mark) :
    ∃ n place', readScalarWord word value start (word ++ tail) = ⟨n, .ok ⟨tail, place'⟩⟩ ∧
      n.Holds value.value := by
  obtain ⟨place', hword⟩ := readWord_append word tail start.next
  refine ⟨.scalar ⟨start, place'⟩ value, place', ?_, rfl⟩
  rw [readScalarWord, hword]

theorem reads_null : Value.null.Reads := by
  intro fuel depth tail place hfuel _
  cases fuel with
  | zero => simp [Value.compact] at hfuel
  | succ fuel =>
    rw [readNode]
    exact readScalarWord_append ['u', 'l', 'l'] tail .null place

theorem reads_bool (b : Bool) : (Value.bool b).Reads := by
  intro fuel depth tail place hfuel _
  cases fuel with
  | zero => cases b <;> simp [Value.compact] at hfuel
  | succ fuel =>
    rw [readNode]
    cases b with
    | true => exact readScalarWord_append ['r', 'u', 'e'] tail (.bool true) place
    | false => exact readScalarWord_append ['a', 'l', 's', 'e'] tail (.bool false) place

theorem reads_string (s : String) : (Value.string s).Reads := by
  intro fuel depth tail place hfuel _
  cases fuel with
  | zero => simp [Value.compact, quote] at hfuel
  | succ fuel =>
    have hquote := skip_of_not_isSpace (c := '"') (by decide)
      (s.toList.flatMap escape ++ '"' :: tail) place
    obtain ⟨place', htext⟩ := readText_escaped s.toList [] tail place.next
    refine ⟨.scalar ⟨place, place'⟩ (.string s), place', ?_, rfl⟩
    rw [Value.compact, toList_quote, List.cons_append, List.append_assoc, List.singleton_append,
      readNode]
    simp only [hquote, readString, TextSoFar.empty]
    rw [← TextSoFar.plain, htext]
    simp

/-- Items are read one after the other, up to the bracket that closes. -/
theorem readItem_compact (v : Value) (rest : List Value) (fuel depth : Nat) (tail : List Char)
    (place : Mark) (hreads : ∀ w ∈ v :: rest, w.NumberFree ∧ w.Reads ∧ depth + w.depth ≤ deepest)
    (hfuel : 3 * (v.compact.toList.length + (Value.compactItems rest).toList.length) < fuel) :
    ∃ ns place', readItem fuel depth
        ⟨v.compact.toList ++ ((Value.compactItems rest).toList ++ tail), place⟩ =
      ⟨ns, .ok ⟨tail, place'⟩⟩ ∧ List.Forall₂ Node.Holds ns (v :: rest) := by
  induction rest generalizing v fuel place with
  | nil =>
    obtain ⟨-, hv, hdepth⟩ := hreads v List.mem_cons_self
    obtain ⟨fuel, rfl⟩ := Nat.exists_eq_succ_of_ne_zero (Nat.ne_zero_of_lt hfuel)
    obtain ⟨n, place', hnode, hholds⟩ := hv fuel depth (']' :: tail) place (by omega) hdepth
    exact ⟨[n], place'.next, readItem_close hnode rfl, .cons hholds .nil⟩
  | cons w rest ih =>
    rw [List.forall_mem_cons] at hreads
    obtain ⟨⟨-, hv, hdepth⟩, hrest⟩ := hreads
    obtain ⟨fuel, rfl⟩ := Nat.exists_eq_succ_of_ne_zero (Nat.ne_zero_of_lt hfuel)
    have hitems : (Value.compactItems (w :: rest)).toList =
        ',' :: (w.compact.toList ++ (Value.compactItems rest).toList) := by
      simp [Value.compactItems]
    rw [hitems, List.length_cons, List.length_append] at hfuel
    obtain ⟨first, back, hw, hspace, hclose⟩ :=
      Value.exists_toList_compact (hrest w List.mem_cons_self).1
    obtain ⟨n, place', hnode, hholds⟩ := hv fuel depth
      (',' :: (w.compact.toList ++ ((Value.compactItems rest).toList ++ tail))) place (by omega) hdepth
    obtain ⟨ns, place'', hitem, hall⟩ := ih w fuel place'.next hrest (by omega)
    refine ⟨n :: ns, place'', ?_, .cons hholds hall⟩
    rw [hw, List.cons_append] at hnode hitem
    rw [hitems, List.cons_append, List.append_assoc, hw, List.cons_append,
      readItem_comma hnode rfl (skip_of_not_isSpace hspace _ _) hclose, hitem]
    rfl

/-- The text of a member after the opening quote of its key, up to the text of its value. -/
def keyRest (key : String) : List Char := key.toList.flatMap escape ++ ['"', ':']

theorem readText_keyRest (key : String) (rest : List Char) (place : Mark) :
    ∃ place', readText .empty (keyRest key ++ rest) place =
      ⟨⟨key, none⟩, .ok ⟨':' :: rest, place'⟩⟩ := by
  obtain ⟨place', htext⟩ := readText_escaped key.toList [] (':' :: rest) place
  refine ⟨place', ?_⟩
  rw [List.reverse_nil, List.nil_append, String.ofList_toList] at htext
  rw [keyRest, List.append_assoc]
  exact htext

theorem Value.toList_compactMembers_cons (key : String) (v : Value)
    (rest : List (String × Value)) :
    (compactMembers ((key, v) :: rest)).toList =
      ',' :: '"' :: (keyRest key ++ (v.compact.toList ++ (compactMembers rest).toList)) := by
  simp [compactMembers, toList_quote, keyRest]

/-- Members are read one after the other, up to the brace that closes. -/
theorem readMember_compact (key : String) (v : Value) (rest : List (String × Value))
    (fuel depth : Nat) (tail : List Char) (place : Mark)
    (hreads : ∀ m ∈ (key, v) :: rest, m.2.Reads ∧ depth + m.2.depth ≤ deepest)
    (hfuel : 3 * (v.compact.toList.length + (Value.compactMembers rest).toList.length) < fuel) :
    ∃ ms place', readMember fuel depth
        ⟨keyRest key ++ (v.compact.toList ++ ((Value.compactMembers rest).toList ++ tail)), place⟩ =
      ⟨(ms, .closed), .ok ⟨tail, place'⟩⟩ ∧
        List.Forall₂ Node.HoldsMember ms ((key, v) :: rest) := by
  induction rest generalizing key v fuel place with
  | nil =>
    obtain ⟨hv, hdepth⟩ := hreads (key, v) List.mem_cons_self
    dsimp only at hv hdepth
    obtain ⟨fuel, rfl⟩ := Nat.exists_eq_succ_of_ne_zero (Nat.ne_zero_of_lt hfuel)
    obtain ⟨place₁, hkey⟩ := readText_keyRest key (v.compact.toList ++ '\x7d' :: tail) place
    obtain ⟨n, place₂, hnode, hholds⟩ :=
      hv fuel depth ('\x7d' :: tail) place₁.next (by omega) hdepth
    exact ⟨_, _, readMember_close hkey rfl hnode rfl, .cons ⟨rfl, rfl, hholds⟩ .nil⟩
  | cons m rest ih =>
    obtain ⟨key', w⟩ := m
    rw [List.forall_mem_cons] at hreads
    obtain ⟨⟨hv, hdepth⟩, hrest⟩ := hreads
    dsimp only at hv hdepth
    obtain ⟨fuel, rfl⟩ := Nat.exists_eq_succ_of_ne_zero (Nat.ne_zero_of_lt hfuel)
    rw [Value.toList_compactMembers_cons] at hfuel ⊢
    simp only [List.length_cons, List.length_append] at hfuel
    simp only [List.cons_append, List.append_assoc]
    obtain ⟨place₁, hkey⟩ := readText_keyRest key (v.compact.toList ++ ',' :: '"' ::
      (keyRest key' ++ (w.compact.toList ++ ((Value.compactMembers rest).toList ++ tail)))) place
    obtain ⟨n, place₂, hnode, hholds⟩ := hv fuel depth (',' :: '"' ::
      (keyRest key' ++ (w.compact.toList ++ ((Value.compactMembers rest).toList ++ tail))))
      place₁.next (by omega) hdepth
    obtain ⟨ms, place₃, hmember, hall⟩ := ih key' w fuel place₂.next.next hrest (by omega)
    rw [readMember_comma hkey rfl hnode rfl rfl, hmember]
    exact ⟨_, place₃, rfl, .cons ⟨rfl, rfl, hholds⟩ hall⟩

theorem Value.depthItems_le_iff {items : List Value} {bound : Nat} :
    depthItems items ≤ bound ↔ ∀ v ∈ items, v.depth ≤ bound := by
  induction items with
  | nil => simp [depthItems]
  | cons v rest ih => rw [depthItems, Nat.max_le, ih, List.forall_mem_cons]

theorem Value.depthMembers_le_iff {members : List (String × Value)} {bound : Nat} :
    depthMembers members ≤ bound ↔ ∀ m ∈ members, m.2.depth ≤ bound := by
  induction members with
  | nil => simp [depthMembers]
  | cons m rest ih => rw [depthMembers, Nat.max_le, ih, List.forall_mem_cons]

theorem reads_array {items : List Value} (h : ∀ v ∈ items, v.NumberFree ∧ v.Reads) :
    (Value.array items).Reads := by
  intro fuel depth tail place hfuel hdepth
  rw [Value.depth] at hdepth
  have hdepths : ∀ v ∈ items, depth + 1 + v.depth ≤ deepest := by
    intro v hv
    have hle := Value.depthItems_le_iff.1 (Nat.le_refl (Value.depthItems items)) v hv
    omega
  cases items with
  | nil =>
    obtain ⟨fuel, rfl⟩ : ∃ fuel', fuel = fuel' + 1 + 1 :=
      Nat.exists_eq_add_of_le' (show 2 ≤ fuel from Nat.le_trans (by decide) hfuel)
    exact ⟨_, _, readNode_array (by omega) (readItems_close rfl), rfl⟩
  | cons v rest =>
    have htext : (Value.array (v :: rest)).compact.toList =
        '[' :: (v.compact.toList ++ (Value.compactItems rest).toList) := by
      simp [Value.compact]
    rw [htext, List.length_cons, List.length_append] at hfuel
    obtain ⟨fuel, rfl⟩ : ∃ fuel', fuel = fuel' + 1 + 1 :=
      Nat.exists_eq_add_of_le' (show 2 ≤ fuel by omega)
    obtain ⟨first, back, hv, hspace, hclose⟩ :=
      Value.exists_toList_compact (h v List.mem_cons_self).1
    obtain ⟨ns, place', hitem, hall⟩ := readItem_compact v rest fuel (depth + 1) tail place.next
      (fun w hw => ⟨(h w hw).1, (h w hw).2, hdepths w hw⟩) (by omega)
    have hitems : readItems (fuel + 1) (depth + 1)
        ⟨v.compact.toList ++ ((Value.compactItems rest).toList ++ tail), place.next⟩ =
          ⟨ns, .ok ⟨tail, place'⟩⟩ := by
      rw [hv, List.cons_append] at hitem ⊢
      rw [readItems_item (skip_of_not_isSpace hspace _ _) hclose, hitem]
    refine ⟨.array ⟨place, place'⟩ ns none, place', ?_, ?_⟩
    · rw [htext, List.cons_append, List.append_assoc]
      exact readNode_array (by omega) hitems
    · rw [Node.Holds, Node.held, Node.heldItems_of_holds hall]
      rfl

theorem reads_object {members : List (String × Value)} (h : ∀ m ∈ members, m.2.Reads) :
    (Value.object members).Reads := by
  intro fuel depth tail place hfuel hdepth
  rw [Value.depth] at hdepth
  have hdepths : ∀ m ∈ members, depth + 1 + m.2.depth ≤ deepest := by
    intro m hm
    have hle := Value.depthMembers_le_iff.1 (Nat.le_refl (Value.depthMembers members)) m hm
    omega
  cases members with
  | nil =>
    obtain ⟨fuel, rfl⟩ : ∃ fuel', fuel = fuel' + 1 + 1 :=
      Nat.exists_eq_add_of_le' (show 2 ≤ fuel from Nat.le_trans (by decide) hfuel)
    exact ⟨_, _, readNode_object (by omega) (readMembers_close rfl), rfl⟩
  | cons m rest =>
    obtain ⟨key, v⟩ := m
    have htext : (Value.object ((key, v) :: rest)).compact.toList =
        '\x7b' :: '"' :: (keyRest key ++ (v.compact.toList ++
          (Value.compactMembers rest).toList)) := by
      simp [Value.compact, toList_quote, keyRest]
    rw [htext] at hfuel
    simp only [List.length_cons, List.length_append] at hfuel
    obtain ⟨fuel, rfl⟩ : ∃ fuel', fuel = fuel' + 1 + 1 :=
      Nat.exists_eq_add_of_le' (show 2 ≤ fuel by omega)
    obtain ⟨ms, place', hmember, hall⟩ := readMember_compact key v rest fuel (depth + 1) tail
      place.next.next (fun m hm => ⟨h m hm, hdepths m hm⟩) (by omega)
    refine ⟨.object ⟨place, place'⟩ ms .closed, place', ?_, ?_⟩
    · rw [htext, List.cons_append, List.cons_append, List.append_assoc, List.append_assoc]
      exact readNode_object (by omega) ((readMembers_member rfl).trans hmember)
    · rw [Node.Holds, Node.held, Node.heldMembers_of_holds hall]
      rfl

/-- The text of a value without numbers is read back from the front of any text. -/
theorem Value.NumberFree.reads {v : Value} (h : v.NumberFree) : v.Reads := by
  induction v using Value.induction with
  | null => exact reads_null
  | bool b => exact reads_bool b
  | number n => exact h.elim
  | string s => exact reads_string s
  | array items ih =>
    rw [NumberFree, numberFreeItems_iff] at h
    exact reads_array fun v hv => ⟨h v hv, ih v hv (h v hv)⟩
  | object members ih =>
    rw [NumberFree, numberFreeMembers_iff] at h
    exact reads_object fun m hm => ih m hm (h m hm)

/-- The compact text of a value without numbers is read to its end. -/
theorem exists_readFirst_compact {v : Value} (h : v.NumberFree) (hdepth : v.depth ≤ deepest) :
    ∃ n place, readFirst v.compact = ⟨n, .ok ⟨[], place⟩⟩ ∧ n.Holds v := by
  obtain ⟨n, place, hread, hholds⟩ := h.reads (3 * v.compact.toList.length + 3) 0 [] .start
    (by omega) (by omega)
  rw [List.append_nil] at hread
  exact ⟨n, place, hread, hholds⟩

/-- The compact text of a value without numbers is read as that value. -/
theorem holds_read_compact {v : Value} (h : v.NumberFree) (hdepth : v.depth ≤ deepest) :
    (Node.read v.compact).Holds v := by
  obtain ⟨n, place, hread, hholds⟩ := exists_readFirst_compact h hdepth
  rw [Node.read, hread]
  exact hholds

end WideRow.Json
