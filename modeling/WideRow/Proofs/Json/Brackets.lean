import WideRow.Proofs.Json.Printed

/-!
# Brackets of a text

How deep the brackets of a text are nested, where brackets in strings do not count. The compact text
of a value is nested as deep as the value.

Main definitions:
* `bracketDepth`: how deep the brackets of a text are nested.

Results:
* `bracketDepth_compact`: the depth of the text of a value is the depth of the value.
-/

namespace WideRow.Json

/-! ## Scanning -/

/-- What the next character belongs to. -/
inductive ScanMode where
  | outside
  | string
  /-- a string, after a backslash -/
  | escaped
  deriving DecidableEq

/-- Where a scan for brackets stands: how many are open, and how many have been at most. -/
structure BracketScan where
  mode : ScanMode
  opened : Nat
  most : Nat
  deriving DecidableEq

/-- The scan after one more character. -/
def BracketScan.step (s : BracketScan) (c : Char) : BracketScan :=
  match s.mode with
  | .escaped => { s with mode := .string }
  | .string =>
    if c = '\\' then { s with mode := .escaped }
    else if c = '"' then { s with mode := .outside }
    else s
  | .outside =>
    if c = '"' then { s with mode := .string }
    else if c = '[' ∨ c = '\x7b' then
      { s with opened := s.opened + 1, most := max s.most (s.opened + 1) }
    else if c = ']' ∨ c = '\x7d' then { s with opened := s.opened - 1 }
    else s

/-- How deep the brackets of a text are nested, those in strings apart. -/
def bracketDepth (text : String) : Nat :=
  (text.toList.foldl BracketScan.step ⟨.outside, 0, 0⟩).most

/-- The scan of a text from a state on. -/
def scanFrom (s : BracketScan) (text : String) : BracketScan := text.toList.foldl .step s

theorem scanFrom_append (s : BracketScan) (front back : String) :
    scanFrom s (front ++ back) = scanFrom (scanFrom s front) back := by
  rw [scanFrom, String.toList_append, List.foldl_append, scanFrom, scanFrom]

/-! ## Strings -/

theorem step_string_of_ne {c : Char} (hquote : c ≠ '"') (hbackslash : c ≠ '\\') (opened most : Nat) :
    BracketScan.step ⟨.string, opened, most⟩ c = ⟨.string, opened, most⟩ := by
  rw [BracketScan.step]
  dsimp only
  rw [if_neg hbackslash, if_neg hquote]

theorem hexDigit_ne : ∀ n < 0x20, hexDigit (n / 16) ≠ '"' ∧ hexDigit (n / 16) ≠ '\\' ∧
    hexDigit (n % 16) ≠ '"' ∧ hexDigit (n % 16) ≠ '\\' := by
  decide

/-- The spelling of a character does not end the string that it stands in. -/
theorem foldl_step_escape (c : Char) (opened most : Nat) :
    (escape c).foldl .step ⟨.string, opened, most⟩ = BracketScan.mk .string opened most := by
  unfold escape
  split
  iterate 7 rfl
  next hquote hbackslash _ _ _ _ _ =>
    split
    · next hcontrol =>
      obtain ⟨hhigh, hhigh', hlow, hlow'⟩ := hexDigit_ne c.toNat hcontrol
      show [hexDigit (c.toNat / 16), hexDigit (c.toNat % 16)].foldl BracketScan.step
        ⟨.string, opened, most⟩ = _
      rw [List.foldl_cons, step_string_of_ne hhigh hhigh', List.foldl_cons,
        step_string_of_ne hlow hlow', List.foldl_nil]
    · rw [List.foldl_cons, step_string_of_ne hquote hbackslash, List.foldl_nil]

theorem scanFrom_quote (s : String) (opened most : Nat) :
    scanFrom ⟨.outside, opened, most⟩ (quote s) = ⟨.outside, opened, most⟩ := by
  have hchars : ∀ cs : List Char, (cs.flatMap escape).foldl .step ⟨.string, opened, most⟩ =
      BracketScan.mk .string opened most := by
    intro cs
    induction cs with
    | nil => rfl
    | cons c cs ih => rw [List.flatMap_cons, List.foldl_append, foldl_step_escape, ih]
  rw [scanFrom, toList_quote, List.foldl_cons, List.foldl_append]
  show [_].foldl BracketScan.step ((s.toList.flatMap escape).foldl .step ⟨.string, opened, most⟩) = _
  rw [hchars]
  rfl

/-! ## Values -/

/-- The scan of the text of the value comes back to where it was, and notes how deep it has been. -/
def Value.Scans (v : Value) : Prop := ∀ opened most : Nat, opened ≤ most →
  scanFrom ⟨.outside, opened, most⟩ v.compact =
    ⟨.outside, opened, max most (opened + v.depth)⟩

theorem scans_of_word {v : Value} (hdepth : v.depth = 0)
    (hword : ∀ opened most, scanFrom ⟨.outside, opened, most⟩ v.compact =
      ⟨.outside, opened, most⟩) : v.Scans := by
  intro opened most hle
  rw [hword, hdepth, Nat.add_zero, Nat.max_eq_left hle]

theorem scanFrom_compactItems {items : List Value} (h : ∀ v ∈ items, v.Scans) {opened most : Nat}
    (hle : opened + 1 ≤ most) :
    scanFrom ⟨.outside, opened + 1, most⟩ (Value.compactItems items) =
      ⟨.outside, opened, max most (opened + 1 + Value.depthItems items)⟩ := by
  induction items generalizing most with
  | nil =>
    rw [Value.depthItems, Nat.add_zero, Nat.max_eq_left hle]
    rfl
  | cons v rest ih =>
    rw [List.forall_mem_cons] at h
    have hcomma : scanFrom ⟨.outside, opened + 1, most⟩ "," = ⟨.outside, opened + 1, most⟩ := rfl
    rw [Value.compactItems, scanFrom_append, scanFrom_append, hcomma, h.1 _ _ hle,
      ih h.2 (Nat.le_trans hle (Nat.le_max_left _ _)), Value.depthItems, Nat.max_assoc,
      ← Nat.add_max_add_left]

theorem scanFrom_compactMembers {members : List (String × Value)} (h : ∀ m ∈ members, m.2.Scans)
    {opened most : Nat} (hle : opened + 1 ≤ most) :
    scanFrom ⟨.outside, opened + 1, most⟩ (Value.compactMembers members) =
      ⟨.outside, opened, max most (opened + 1 + Value.depthMembers members)⟩ := by
  induction members generalizing most with
  | nil =>
    rw [Value.depthMembers, Nat.add_zero, Nat.max_eq_left hle]
    rfl
  | cons m rest ih =>
    obtain ⟨key, v⟩ := m
    rw [List.forall_mem_cons] at h
    have hcomma : scanFrom ⟨.outside, opened + 1, most⟩ "," = ⟨.outside, opened + 1, most⟩ := rfl
    have hcolon : scanFrom ⟨.outside, opened + 1, most⟩ ":" = ⟨.outside, opened + 1, most⟩ := rfl
    rw [Value.compactMembers, scanFrom_append, scanFrom_append, scanFrom_append, scanFrom_append,
      hcomma, scanFrom_quote, hcolon, h.1 _ _ hle, ih h.2 (Nat.le_trans hle (Nat.le_max_left _ _)),
      Value.depthMembers, Nat.max_assoc, ← Nat.add_max_add_left]

theorem scans_array {items : List Value} (h : ∀ v ∈ items, v.Scans) : (Value.array items).Scans := by
  intro opened most hle
  have hopen : scanFrom ⟨.outside, opened, most⟩ "[" =
      ⟨.outside, opened + 1, max most (opened + 1)⟩ := rfl
  cases items with
  | nil => rfl
  | cons v rest =>
    rw [List.forall_mem_cons] at h
    rw [Value.compact, scanFrom_append, scanFrom_append, hopen,
      h.1 _ _ (Nat.le_max_right _ _),
      scanFrom_compactItems h.2 (Nat.le_trans (Nat.le_max_right _ _) (Nat.le_max_left _ _)),
      Value.depth, Value.depthItems, BracketScan.mk.injEq]
    exact ⟨rfl, rfl, by omega⟩

theorem scans_object {members : List (String × Value)} (h : ∀ m ∈ members, m.2.Scans) :
    (Value.object members).Scans := by
  intro opened most hle
  have hopen : scanFrom ⟨.outside, opened, most⟩ "\x7b" =
      ⟨.outside, opened + 1, max most (opened + 1)⟩ := rfl
  cases members with
  | nil => rfl
  | cons m rest =>
    obtain ⟨key, v⟩ := m
    rw [List.forall_mem_cons] at h
    dsimp only at h
    have hcolon : ∀ k m, scanFrom ⟨.outside, k, m⟩ ":" = ⟨.outside, k, m⟩ := fun _ _ => rfl
    rw [Value.compact, scanFrom_append, scanFrom_append, scanFrom_append, scanFrom_append, hopen,
      scanFrom_quote, hcolon, h.1 _ _ (Nat.le_max_right _ _),
      scanFrom_compactMembers h.2 (Nat.le_trans (Nat.le_max_right _ _) (Nat.le_max_left _ _)),
      Value.depth, Value.depthMembers, BracketScan.mk.injEq]
    exact ⟨rfl, rfl, by omega⟩

theorem Value.NumberFree.scans {v : Value} (h : v.NumberFree) : v.Scans := by
  induction v using Value.induction with
  | null => exact scans_of_word rfl fun _ _ => rfl
  | bool b => cases b <;> exact scans_of_word rfl fun _ _ => rfl
  | number n => exact h.elim
  | string s => exact scans_of_word rfl (scanFrom_quote s)
  | array items ih =>
    rw [NumberFree, numberFreeItems_iff] at h
    exact scans_array fun v hv => ih v hv (h v hv)
  | object members ih =>
    rw [NumberFree, numberFreeMembers_iff] at h
    exact scans_object fun m hm => ih m hm (h m hm)

/-- The brackets of the text of a value without numbers are nested as deep as the value. -/
theorem bracketDepth_compact {v : Value} (h : v.NumberFree) : bracketDepth v.compact = v.depth := by
  have hscan := h.scans 0 0 (Nat.le_refl 0)
  rw [scanFrom] at hscan
  rw [bracketDepth, hscan, Nat.zero_add, Nat.zero_max]

end WideRow.Json
