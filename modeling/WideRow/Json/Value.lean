import WideRow.Decimal.Shortest

/-!
# JSON values

Values whose objects keep the order of their keys. Integers of 64 bits, signed or unsigned, are
exact; every other number is a double.

Main definitions:
* `Value`: a JSON value;
* `Members.get?`, `Members.insert`: the members of an object by their keys;
* `Value.merged`: a value in which no object repeats a key.
-/

namespace WideRow.Json

/-! ## Values -/

/-- A number as it is held: an integer of 64 bits, signed or unsigned, or a double. -/
inductive Number where
  | integer (n : Int)
  | double (x : Float)
  deriving DecidableEq, Inhabited

/-- A JSON value. An object is the list of its members in order; its keys need not differ. -/
inductive Value where
  | null
  | bool (b : Bool)
  | number (n : Number)
  | string (s : String)
  | array (items : List Value)
  | object (members : List (String × Value))
  deriving Inhabited

/-- The value is `null`. -/
def Value.isNull : Value → Bool
  | .null => true
  | _ => false

/-- The value of a natural number. -/
def Value.ofNat (n : Nat) : Value := .number (.integer n)

/-- The value of a text that may be missing: `null` stands for a missing one. -/
def Value.ofOption : Option String → Value
  | some s => .string s
  | none => .null

/-! ## Members -/

/-- The members of an object, in order. -/
abbrev Members := List (String × Value)

/-- The value of the first member of a key. -/
def Members.get? : Members → String → Option Value
  | [], _ => none
  | (k, v) :: rest, key => if k = key then some v else get? rest key

/-- The members with one key set: in its place if it is present, at the end otherwise. -/
def Members.insert : Members → String → Value → Members
  | [], key, v => [(key, v)]
  | (k, old) :: rest, key, v => if k = key then (k, v) :: rest else (k, old) :: insert rest key v

/-- Members inserted one after the other: of a repeated key the last value at its first place. -/
def Members.ofList (entries : List (String × Value)) : Members :=
  entries.foldl (fun ms entry => Members.insert ms entry.1 entry.2) []

theorem Members.get?_eq_none_of_notMem {ms : Members} {key : String}
    (h : key ∉ ms.map Prod.fst) : ms.get? key = none := by
  induction ms with
  | nil => rfl
  | cons m ms ih =>
    obtain ⟨k, v⟩ := m
    rw [List.map_cons, List.mem_cons, not_or] at h
    rw [get?, if_neg (Ne.symm h.1), ih h.2]

/-- A key that is new goes to the end. -/
theorem Members.insert_of_notMem {ms : Members} {key : String} (v : Value)
    (h : key ∉ ms.map Prod.fst) : insert ms key v = ms ++ [(key, v)] := by
  induction ms with
  | nil => rfl
  | cons m ms ih =>
    obtain ⟨k, old⟩ := m
    rw [List.map_cons, List.mem_cons, not_or] at h
    rw [insert, if_neg (Ne.symm h.1), ih h.2, List.cons_append]

/-! ## Repeated keys -/

mutual

/-- A value whose objects hold every key once: of a repeated key the last value counts, at the
place of the first. -/
def Value.merged : Value → Value
  | .array items => .array (Value.mergedItems items)
  | .object members => .object (Members.ofList (Value.mergedMembers members))
  | v => v

/-- `merged` on every item. -/
def Value.mergedItems : List Value → List Value
  | [] => []
  | v :: rest => v.merged :: mergedItems rest

/-- `merged` on every member. -/
def Value.mergedMembers : List (String × Value) → List (String × Value)
  | [] => []
  | (key, v) :: rest => (key, v.merged) :: mergedMembers rest

end

end WideRow.Json
