import WideRow.Filter.Outputs
import WideRow.Filter.Term

/-!
# Places

A filter points into its input: an output can be a part of the input, and then the way to it is
known. Steps lead from a place to places inside it, and a place can be given a new value.

Main definitions:
* `Place`: a datum with the way to it;
* `Place.take`: the places that a step leads to;
* `PathStep.update`: a datum with the parts that a step leads to changed.
-/

namespace WideRow.Filter

/-! ## Outputs that can fail -/

namespace Outputs

variable {α β σ : Type}

/-- Outputs, each of which may be a failure instead. -/
abbrev Fallible (α : Type) := Outputs (Except Datum.Failure α)

/-- A single output or failure. -/
def lift (r : Except Datum.Failure α) : Fallible α := one r

/-- The outputs for every output. A failure stays in its place. -/
def andThen (o : Fallible α) (k : α → Fallible β) : Fallible β :=
  o.flatMap fun
    | .ok a => k a
    | .error e => one (.error e)

/-- A state taken through the items of a list. A step with several outputs goes on with each. -/
def foldThen (step : σ → α → Fallible σ) (s : σ) : List α → Fallible σ
  | [] => lift (.ok s)
  | a :: rest => (step s a).andThen fun s' => foldThen step s' rest

/-- All outputs, or the first failure. -/
def collect (o : Fallible α) : Except Datum.Failure (List α) :=
  go [] o
where
  go (acc : List α) : Fallible α → Except Datum.Failure (List α)
    | .done => .ok acc.reverse
    | .one (.ok a) => .ok (a :: acc).reverse
    | .one (.error e) => .error e
    | .more (.ok a) rest => go (a :: acc) (rest ())
    | .more (.error e) _ => .error e
    | .later o => go acc (o ())

/-- The outputs in front of the way out to a label. -/
def untilLeft (label : Nat) : Fallible α → Fallible α
  | .done => .done
  | .one r => if isLeft r then .done else .one r
  | .more r rest => if isLeft r then .done else .more r fun _ => untilLeft label (rest ())
  | .later o => untilLeft label (o ())
where
  isLeft : Except Datum.Failure α → Bool
    | .error (.broke l) => l == label
    | _ => false

/-- The outputs in front of the first error, and then those of a handler of the error. -/
def handle (handler : Datum → Fallible α) : Fallible α → Fallible α
  | .done => .done
  | .one (.error (.raised d)) => handler d
  | .one r => .one r
  | .more (.error (.raised d)) _ => handler d
  | .more r rest => .more r fun _ => handle handler (rest ())
  | .later o => handle handler (o ())

/-- The last output, or the first failure. -/
def last (o : Fallible α) : Fallible α :=
  match o.collect with
  | .ok items => ofList (items.getLast?.map .ok).toList
  | .error e => one (.error e)

/-- A state taken through the outputs, with what each new state shows. A step with several outputs
goes on with each of them in turn. -/
def scanStates (step : α → σ → Fallible σ) (view : α → σ → Fallible β) :
    Fallible α → σ → Fallible β
  | .done, _ => .done
  | .one (.error e), _ => one (.error e)
  | .one (.ok a), s => (step a s).andThen (view a)
  | .more (.error e) _, _ => one (.error e)
  | .more (.ok a) rest, s =>
    (step a s).andThen fun s' =>
      (view a s').append fun _ => scanStates step view (rest ()) s'
  | .later o, s => scanStates step view (o ()) s

/-- The states after one more output. A step with several outputs goes on with each of them. -/
def stepStates (step : α → σ → Fallible σ) (a : Except Datum.Failure α)
    (states : List (Except Datum.Failure σ)) : List (Except Datum.Failure σ) :=
  states.flatMap fun
    | .error e => [.error e]
    | .ok s => match a with
      | .ok a => (step a s).toList
      | .error e => [.error e]

/-- The states after all outputs. -/
def finalStates (step : α → σ → Fallible σ) :
    Fallible α → List (Except Datum.Failure σ) → List (Except Datum.Failure σ)
  | .done, states => states
  | .one a, states => stepStates step a states
  | .more a rest, states => finalStates step (rest ()) (stepStates step a states)
  | .later o, states => finalStates step (o ()) states

end Outputs

open Outputs (Fallible)

/-! ## Places -/

/-- A datum, with the keys and indices that lead to it, the last one first, if it is a part of what
paths start from. -/
structure Place where
  value : Datum
  trail : Option (List Datum)
  deriving Inhabited

namespace Place

/-- A datum that has been made. -/
def made (d : Datum) : Place := ⟨d, none⟩

/-- The place of a part. -/
def part (p : Place) (key value : Datum) : Place := ⟨value, p.trail.map (key :: ·)⟩

/-- The key of a slice in a path. -/
def sliceKey (start stop : Option Datum) : Datum :=
  .object [("start", start.getD .null), ("end", stop.getD .null)]

/-- The places that a step leads to. -/
def step (p : Place) : PathStep Datum → Fallible Place
  | .index i => .lift ((Datum.index p.value i).map (p.part i))
  | .slice start stop =>
    .lift ((Datum.slice p.value start stop).map (p.part (sliceKey start stop)))
  | .elements =>
    match p.value with
    | .array items => .ofList (items.zipIdx.map fun (d, i) => .ok (p.part (.int i) d))
    | .object members => .ofList (members.map fun (key, d) => .ok (p.part (.string key) d))
    | d => .lift (Datum.failAs d Datum.iterable)

/-- The places that steps lead to. A step that is marked leads nowhere where it cannot be taken. -/
def follow (p : Place) : List (PathStep Datum × Bool) → Fallible Place
  | [] => .lift (.ok p)
  | (s, optional) :: rest =>
    let places := if optional then (p.step s).filter Except.isOk else p.step s
    places.andThen fun q => follow q rest

end Place

/-! ## Changes -/

namespace PathStep

/-- The first output of a filter. -/
def firstOf (o : Fallible Datum) : Except Datum.Failure (Option Datum) :=
  match o.head? with
  | none => .ok none
  | some (.ok d) => .ok (some d)
  | some (.error e) => .error e

/-- The members of an object without a key: the last member takes the place of the one that goes. -/
def eraseMember (key : String) (members : List (String × Datum)) : List (String × Datum) :=
  match members.getLast? with
  | none => []
  | some last =>
    if last.1 = key then members.dropLast
    else members.dropLast.map fun m => if m.1 = key then last else m

/-- A datum with the parts that a step leads to changed: each part becomes what a filter makes of
it, and it goes if the filter has no output. -/
def update (f : Datum → Fallible Datum) (d : Datum) : PathStep Datum → Except Datum.Failure Datum
  | .index i =>
    match d, i with
    | .array items, .int n =>
      match Datum.position? n items.length with
      | none => Datum.fail ("index " ++ toString n ++ " is out of bounds")
      | some k => do
        match ← firstOf (f (items[k]?.getD .null)) with
        | some new => return .array (items.set k new)
        | none => return .array (items.eraseIdx k)
    | .object members, .string key => do
      match ← firstOf (f ((Datum.member? key members).getD .null)) with
      | some new => return .object (Datum.setMember key new members)
      | none => return .object (eraseMember key members)
    | .array _, _ => Datum.failIndex d i
    | .object _, _ => Datum.failIndex d i
    | _, _ => Datum.failAs d Datum.iterable
  | .slice start stop =>
    match d with
    | .array items => do
      let first ← Datum.bound start items.length 0
      let past ← Datum.bound stop items.length items.length
      let past := max first past
      match ← firstOf (f (.array ((items.drop first).take (past - first)))) with
      | some (.array new) => return .array (items.take first ++ new ++ items.drop past)
      | some other => Datum.failAs other "array"
      | none => return .array (items.take first ++ items.drop past)
    | d => Datum.failAs d "array"
  | .elements =>
    match d with
    | .array items => do
      return .array (← items.flatMapM fun item => (f item).collect)
    | .object members => do
      return .object (← members.filterMapM fun (key, old) => do
        return (← firstOf (f old)).map (key, ·))
    | d => Datum.failAs d Datum.iterable

/-- A step cannot be taken from a datum. -/
def isBlocked (s : PathStep Datum) (d : Datum) : Bool :=
  !(((Place.made d).step s).head?.map Except.isOk).getD true

/-- A datum with the parts that steps lead to changed. A step that is marked changes nothing where
it cannot be taken. -/
def updateAll (f : Datum → Fallible Datum) : List (PathStep Datum × Bool) → Datum → Fallible Datum
  | [], d => f d
  | (s, optional) :: rest, d =>
    .lift (if optional && s.isBlocked d then .ok d else s.update (updateAll f rest) d)

end PathStep

end WideRow.Filter
