import Mathlib.Tactic.Push
import WideRow.Proofs.Columns
import WideRow.Proofs.Text.ByteOrder

/-!
# What unification comes to

The schema lists each pair of a name and a type that some alternative declares, once and in the
order of their bytes, and the common fields are the pairs that every alternative declares. The order
is what a search by halving relies on: it ends at the column of the field if there is one. As both
are sets, it does not matter in which order, or how often, alternatives and fields are declared.

Main definitions:
* `Field.BytesBefore`: the order of fields by the bytes of name and type;
* `Schema.bisect?`: the search by halving;
* `Definition.SameFieldSets`: definitions that differ in order and repetition only.

Results:
* `Schema.bisect?_eq`: the search by halving finds the position of a field;
* `Definition.SameFieldSets.schema_eq`, `Definition.SameFieldSets.commonFields_eq`: what order and
  repetition do not change;
* `unification_exact`: schema, positions and common fields of any definition.
-/

namespace WideRow

/-! ## Columns in order -/

/-- The name of the first field has the smaller bytes, or the names are the same and its type has. -/
def Field.BytesBefore (f g : Field) : Prop :=
  Text.bytes f.name < Text.bytes g.name ∨
    (f.name = g.name ∧ Text.bytes f.type.text < Text.bytes g.type.text)

theorem Field.bytesBefore_iff {f g : Field} : f.BytesBefore g ↔ f < g := by
  rw [BytesBefore, Text.bytes_lt_iff, Text.bytes_lt_iff, Field.lt_iff]

namespace Schema

variable {s : Schema} {f : Field}

theorem getElem?_columns (s : Schema) (k : Nat) :
    s.columns[k]? = s.fields.toList[k]?.map (Column.mk k) := List.getElem?_mapIdx

theorem map_field_columns (s : Schema) : s.columns.map (·.field) = s.fields.toList := by
  refine List.ext_getElem? fun k => ?_
  rw [List.getElem?_map, getElem?_columns, Option.map_map]
  exact Option.map_id'

theorem positionOf?_eq_none_iff : s.positionOf? f = none ↔ f ∉ s.fields := List.idxOf?_eq_none_iff

/-! ## Search by halving -/

/-- The place to which a search by halving narrows the `size` places from `base` on. It looks at the
middle one, as long as there are several, and keeps those in front of it if the field there comes
after the one that is looked for, and else those from it on. -/
def narrow (s : Schema) (f : Field) (base size : Nat) : Nat :=
  if 1 < size then
    let middle := base + size / 2
    let next := if s.fields.toList[middle]?.any (f < ·) then base else middle
    s.narrow f next (size - size / 2)
  else base
termination_by size

/-- The position at which a search by halving finds a field. -/
def bisect? (s : Schema) (f : Field) : Option Nat :=
  let k := s.narrow f 0 s.width
  if s.fields.toList[k]? = some f then some k else none

theorem lt_of_getElem? {i j : Nat} {g : Field} (hij : i < j) (hi : s.fields.toList[i]? = some f)
    (hj : s.fields.toList[j]? = some g) : f < g := by
  obtain ⟨hi', rfl⟩ := List.getElem?_eq_some_iff.1 hi
  obtain ⟨hj', rfl⟩ := List.getElem?_eq_some_iff.1 hj
  exact List.pairwise_iff_getElem.1 s.fields.increasing i j hi' hj' hij

/-- The middle place comes after a field iff the field stands in front of it. -/
theorem any_lt_getElem?_iff {k middle : Nat} (hk : s.fields.toList[k]? = some f)
    (hmiddle : middle < s.width) : s.fields.toList[middle]?.any (f < ·) ↔ k < middle := by
  have hg := List.getElem?_eq_getElem hmiddle
  rw [hg, Option.any_some, decide_eq_true_eq]
  constructor
  · intro hlt
    by_contra hle
    rcases Nat.lt_or_eq_of_le (Nat.not_lt.1 hle) with hlt' | rfl
    · exact Field.lt_irrefl f (Field.lt_trans hlt (lt_of_getElem? hlt' hg hk))
    · rw [hk, Option.some.injEq] at hg
      exact Field.lt_irrefl f (hg ▸ hlt)
  · exact fun hlt => lt_of_getElem? hlt hk hg

/-- A field that stands among the places is where the search ends. -/
theorem narrow_eq {k base size : Nat} (hk : s.fields.toList[k]? = some f) (hbase : base ≤ k)
    (hsize : k < base + size) (hwidth : base + size ≤ s.width) : s.narrow f base size = k := by
  induction base, size using narrow.induct s f with
  | case1 base size hseveral middle next ih =>
    have hmiddle : middle < s.width := by omega
    have hiff := any_lt_getElem?_iff hk hmiddle
    rw [narrow, if_pos hseveral]
    by_cases hlt : k < middle
    · have hnext : next = base := if_pos (hiff.2 hlt)
      exact ih (by omega) (by omega) (by omega)
    · have hnext : next = middle := if_neg fun h => hlt (hiff.1 h)
      exact ih (by omega) (by omega) (by omega)
  | case2 base size hone =>
    rw [narrow, if_neg hone]
    omega

/-- The search by halving finds the position of a field, and nothing for a field without one. -/
theorem bisect?_eq (s : Schema) (f : Field) : s.bisect? f = s.positionOf? f := by
  rw [bisect?]
  cases hposition : s.positionOf? f with
  | some k =>
    have hk := positionOf?_eq_some_iff.1 hposition
    have hin := lt_width_of_positionOf? hposition
    rw [narrow_eq hk (Nat.zero_le k) (by omega) (by omega)]
    exact if_pos hk
  | none =>
    refine if_neg fun hfound => ?_
    rw [← positionOf?_eq_some_iff, hposition] at hfound
    cases hfound

end Schema

/-! ## Order and repetition -/

/-- The alternatives declare the same fields, in whatever order and however often. -/
def Alternative.SameFields (a b : Alternative) : Prop :=
  (∀ f ∈ a.fields, f ∈ b.fields) ∧ ∀ f ∈ b.fields, f ∈ a.fields

instance (a b : Alternative) : Decidable (a.SameFields b) :=
  inferInstanceAs (Decidable (_ ∧ _))

theorem Alternative.SameFields.mem_iff {a b : Alternative} (h : a.SameFields b) {f : Field} :
    f ∈ a.fields ↔ f ∈ b.fields := ⟨h.1 f, h.2 f⟩

/-- The definitions have alternatives of the same fields, in whatever order and however often. -/
structure Definition.SameFieldSets (e d : Definition) : Prop where
  exists_of_mem_left : ∀ a ∈ e.alternatives, ∃ b ∈ d.alternatives, a.SameFields b
  exists_of_mem_right : ∀ b ∈ d.alternatives, ∃ a ∈ e.alternatives, a.SameFields b

namespace Definition.SameFieldSets

variable {e d : Definition}

theorem schema_eq (h : e.SameFieldSets d) : e.schema = d.schema := by
  have hfields : e.schema.fields = d.schema.fields := FieldSet.ext fun f => by
    rw [mem_schema_iff, mem_schema_iff]
    constructor
    · rintro ⟨a, ha, hf⟩
      obtain ⟨b, hb, hab⟩ := h.exists_of_mem_left a ha
      exact ⟨b, hb, hab.mem_iff.1 hf⟩
    · rintro ⟨b, hb, hf⟩
      obtain ⟨a, ha, hab⟩ := h.exists_of_mem_right b hb
      exact ⟨a, ha, hab.mem_iff.2 hf⟩
  exact congrArg Schema.mk hfields

theorem alternatives_ne_nil_iff (h : e.SameFieldSets d) :
    e.alternatives ≠ [] ↔ d.alternatives ≠ [] := by
  constructor
  · intro hne
    obtain ⟨a, ha⟩ := List.exists_mem_of_ne_nil _ hne
    obtain ⟨b, hb, -⟩ := h.exists_of_mem_left a ha
    exact List.ne_nil_of_mem hb
  · intro hne
    obtain ⟨b, hb⟩ := List.exists_mem_of_ne_nil _ hne
    obtain ⟨a, ha, -⟩ := h.exists_of_mem_right b hb
    exact List.ne_nil_of_mem ha

theorem commonFields_eq (h : e.SameFieldSets d) : e.commonFields = d.commonFields := by
  refine FieldSet.ext fun f => ?_
  rw [mem_commonFields_iff, mem_commonFields_iff, h.alternatives_ne_nil_iff]
  refine and_congr_right fun _ => ?_
  constructor
  · intro hall b hb
    obtain ⟨a, ha, hab⟩ := h.exists_of_mem_right b hb
    exact hab.mem_iff.1 (hall a ha)
  · intro hall a ha
    obtain ⟨b, hb, hab⟩ := h.exists_of_mem_left a ha
    exact hab.mem_iff.2 (hall b hb)

end Definition.SameFieldSets

/-! ## All definitions -/

/-- For every definition, built or not: the columns are at the positions 0, 1, 2 and so on, and their
fields are the pairs of a name and a type that some alternative declares, strictly increasing by the
bytes of the name and then of the type. A field has the position of the column that holds it, which
is also what a search by halving finds, and none iff no alternative declares it. The common fields
are those that every alternative declares, and none if there is no alternative. So schema and common
fields stay the same if alternatives or fields are reordered or repeated. -/
theorem unification_exact (d : Definition) :
    (d.schema.columns.map (·.field)).Pairwise Field.BytesBefore ∧
    (∀ f, f ∈ d.schema.columns.map (·.field) ↔ ∃ a ∈ d.alternatives, f ∈ a.fields) ∧
    (∀ (k : Nat) (c : Column), d.schema.columns[k]? = some c → c.position = k) ∧
    (∀ (f : Field) (k : Nat),
      d.schema.positionOf? f = some k ↔ d.schema.columns[k]? = some ⟨k, f⟩) ∧
    (∀ f, d.schema.positionOf? f = none ↔ ∀ a ∈ d.alternatives, f ∉ a.fields) ∧
    (∀ f, d.schema.bisect? f = d.schema.positionOf? f) ∧
    (∀ f, f ∈ d.commonFields ↔ d.alternatives ≠ [] ∧ ∀ a ∈ d.alternatives, f ∈ a.fields) ∧
    ∀ e : Definition, e.SameFieldSets d →
      e.schema = d.schema ∧ e.commonFields = d.commonFields := by
  refine ⟨?_, fun f => ?_, fun k c hc => ?_, fun f k => ?_, fun f => ?_,
    fun f => d.schema.bisect?_eq f, fun f => Definition.mem_commonFields_iff,
    fun e he => ⟨he.schema_eq, he.commonFields_eq⟩⟩
  · rw [Schema.map_field_columns]
    exact d.schema.fields.increasing.imp Field.bytesBefore_iff.2
  · rw [Schema.map_field_columns]
    exact Definition.mem_schema_iff
  · rw [Schema.getElem?_columns] at hc
    obtain ⟨f, -, rfl⟩ := Option.map_eq_some_iff.1 hc
    rfl
  · rw [Schema.positionOf?_eq_some_iff, Schema.getElem?_columns, Option.map_eq_some_iff]
    simp
  · rw [Schema.positionOf?_eq_none_iff, Definition.mem_schema_iff]
    push Not
    rfl

/-- A time of day, with a zone or without. -/
def clock : Definition :=
  ⟨"a.Clock", none,
    [⟨"a.Clock.Local", [.of "minute" "int"]⟩,
      ⟨"a.Clock.Zoned", [.of "minute" "int", .of "été" "boolean", .of "zone" "int"]⟩]⟩

/-- The same time of day, told more than once. -/
def repeatedClock : Definition :=
  ⟨"a.Clock", none,
    [⟨"a.Clock.Zoned", [.of "zone" "int", .of "minute" "int", .of "été" "boolean"]⟩,
      ⟨"a.Clock.Local", [.of "minute" "int", .of "minute" "int"]⟩,
      ⟨"a.Clock.Zoned", [.of "minute" "int", .of "été" "boolean", .of "zone" "int"]⟩]⟩

/-- A name that begins with a letter beyond ASCII has its column after the others. -/
theorem unification_exact_clock :
    repeatedClock.SameFieldSets clock ∧ repeatedClock.schema = clock.schema ∧
      repeatedClock.commonFields = clock.commonFields ∧
      repeatedClock.schema.bisect? (.of "été" "boolean") = some 2 := by
  have hsame : repeatedClock.SameFieldSets clock := ⟨by decide, by decide⟩
  obtain ⟨-, -, -, -, -, hbisect, -, hunchanged⟩ := unification_exact clock
  obtain ⟨hschema, hcommon⟩ := hunchanged repeatedClock hsame
  refine ⟨hsame, hschema, hcommon, ?_⟩
  rw [hschema, hbisect]
  decide

end WideRow
