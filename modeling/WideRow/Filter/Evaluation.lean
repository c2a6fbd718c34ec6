import WideRow.Filter.Form
import WideRow.Filter.Native
import WideRow.Filter.Place

/-!
# Evaluation

The outputs of a filter. What a filter ends in is put off to whoever asks for the outputs, so that
calls at the end of a definition can follow each other without limit. Two numbers bound an
evaluation: the fuel, the steps that lead to a part of it one after the other, and the room, the
filters that wait for the outputs of a part. When one of them runs out there is a failure of its
own, which no filter can catch.

Main definitions:
* `eval`: the outputs of a filter;
* `update`: a datum with the parts that a filter points to changed.
-/

namespace WideRow.Filter

open Datum (Result Failure)
open Outputs (Fallible)

/-! ## Environments -/

/-- What a name stands for. -/
inductive Binding where
  | var (name : String) (d : Datum)
  | filter (name : String) (parameters : List Parameter) (body : Term)
  /-- a filter given as an argument, with the environment of the call -/
  | argument (name : String) (t : Term) (env : List Binding)
  | label (name : String) (id : Nat)
  deriving Inhabited

/-- The bindings around a term, the innermost first. -/
abbrev Env := List Binding

/-- A filter that a call leads to, with the bindings around its body. -/
structure Callee where
  parameters : List Parameter
  body : Term
  env : Env

namespace Env

/-- The value of a variable. -/
def var? (name : String) : Env → Option Datum
  | [] => none
  | .var n d :: rest => if n = name then some d else var? name rest
  | _ :: rest => var? name rest

/-- The label of a name. -/
def label? (name : String) : Env → Option Nat
  | [] => none
  | .label n id :: rest => if n = name then some id else label? name rest
  | _ :: rest => label? name rest

/-- The filter of a name and a number of arguments. The body of a definition knows the definition
and what stands before it. -/
def callee? (name : String) (arity : Nat) : Env → Option Callee
  | [] => none
  | .filter n parameters body :: rest =>
    if n = name ∧ parameters.length = arity then
      some ⟨parameters, body, .filter n parameters body :: rest⟩
    else callee? name arity rest
  | .argument n t env :: rest =>
    if n = name ∧ arity = 0 then some ⟨[], t, env⟩ else callee? name arity rest
  | _ :: rest => callee? name arity rest

end Env

/-! ## Parts of the evaluation that need no terms -/

/-- The values of places. -/
def values (o : Fallible Place) : Fallible Datum := o.map fun r => r.map Place.value

/-- A datum that has been made, or a failure, as a place. -/
def produce (r : Result) : Fallible Place := .lift (r.map Place.made)

/-- Data that have been made as places. -/
def produceAll (o : Fallible Datum) : Fallible Place := o.map fun r => r.map Place.made

/-- The sum of two numbers of a range. -/
def advance (d step : Datum) : Result := Datum.apply .add d step

/-- A number of a range has not reached the bound. -/
def isWithin (step stop d : Datum) : Bool :=
  if (Datum.int 0).less step then d.less stop
  else if step.less (.int 0) then stop.less d
  else !d.equals stop

/-- The numbers of a range. -/
def numbersFrom (fuel : Nat) (d stop step : Datum) : Fallible Place :=
  match fuel with
  | 0 => .lift (.error .exhausted)
  | fuel + 1 =>
    if isWithin step stop d then
      .more (.ok (.made d)) fun _ =>
        match advance d step with
        | .ok next => numbersFrom fuel next stop step
        | .error e => .lift (.error e)
    else .done

/-- The most numbers that a range can have. -/
def rangeBound : Nat := Nat.pow 2 63

/-- The count of outputs that a datum stands for. -/
def countOf (d : Datum) : Except Failure Nat :=
  match d.calculated with
  | .int n => .ok n.toNat
  | _ => Datum.failAs d "integer"

/-- The outcome of a comparison. It hangs on the order alone, also where a number is undefined. -/
def Comparison.holds (c : Comparison) (a b : Datum) : Bool :=
  match c with
  | .eq => a.equals b
  | .ne => !a.equals b
  | .lt => a.compare b == .lt
  | .le => a.compare b != .gt
  | .gt => a.compare b == .gt
  | .ge => a.compare b != .lt

/-- An operation on two results. The failure of the left one comes first. -/
def calculateResults (op : Datum.Operation) (a b : Result) : Result := do
  Datum.apply op (← a) (← b)

/-- A comparison of two results. -/
def compareResults (c : Comparison) (a b : Result) : Result := do
  return .bool (c.holds (← a) (← b))

/-- The object with one member. -/
def entryOfResults (key value : Result) : Result := do
  let key ← key
  let value ← value
  match key with
  | .string k => return .object [(k, value)]
  | d => Datum.failAs d "string"

/-- The sums of the outputs of several filters, each with each. -/
def sums (empty : Datum) : List (Unit → Fallible Datum) → Fallible Datum
  | [] => .lift (.ok empty)
  | o :: rest => rest.foldl (fun sum o => sum.cross (calculateResults .add) o) (o ())

/-- A literal number: an integer of 64 bits, or the number in its spelling. -/
def ofLiteral (text : String) : Datum :=
  if text.toList.all Char.isDigit then
    let n := Decimal.natOfDigits text.toList
    if Datum.isMachineInt n then .int n else .numeral text
  else .numeral text

/-- A changed datum taken through environments one after the other. -/
def updateThrough (envs : Fallible Env) (k : Env → Datum → Fallible Datum) (d : Datum) :
    Fallible Datum :=
  match envs.collect with
  | .error e => .lift (.error e)
  | .ok envs => Outputs.foldThen (fun d env => k env d) d envs

/-- The failure of a filter that points to no part of its input. -/
def failPath {α : Type} (d : Datum) : Fallible α :=
  .lift (Datum.fail ("invalid path expression with input " ++ d.text))

/-- The filter that all parts of a datum are reached by. -/
def descent : String := ".."

/-! ## Evaluation -/

mutual

/-- The outputs of a filter for an input. -/
def eval (fuel room : Nat) (t : Term) (env : Env) (p : Place) : Fallible Place :=
  match fuel with
  | 0 => .lift (.error .exhausted)
  | fuel + 1 =>
    if room = 0 then .lift (.error .exhausted) else
    let inner (t : Term) : Fallible Place := eval fuel (room - 1) t env p
    let outputs (t : Term) : Fallible Datum := values (eval fuel (room - 1) t env (.made p.value))
    let finish (t : Term) (env : Env) (p : Place) : Fallible Place :=
      .later fun _ => eval fuel room t env p
    match t with
    | .input => .lift (.ok p)
    | .descend => finish (.call descent []) env p
    | .number text => produce (.ok (ofLiteral text))
    | .text format parts =>
      let piece (part : TextPart) (_ : Unit) : Fallible Datum := match part with
        | .piece s => .lift (.ok (.string s))
        | .term t => match format with
          | none => (outputs t).map fun r => r.map fun d => .string (Native.plainText d)
          | some name => outputs (.pipe t (.call ("@" ++ name) []))
      produceAll (sums (.string "") (parts.map piece))
    | .array none => produce (.ok (.array []))
    | .array (some t) => produce ((outputs t).collect.map .array)
    | .object entries =>
      let single (entry : Term × Option Term) (_ : Unit) : Fallible Datum := match entry with
        | (.var name, none) =>
          (outputs (.var name)).map (entryOfResults (.ok (.string name)))
        | (key, none) =>
          (outputs key).cross entryOfResults fun _ => outputs (.path .input [(.index key, false)])
        | (key, some value) => (outputs key).cross entryOfResults fun _ => outputs value
      produceAll (sums (.object []) (entries.map single))
    | .negate t => (outputs t).andThen fun d => produce d.negate
    | .pipe l r => (inner l).andThen fun q => finish r env q
    | .bindTo source pattern body =>
      (outputs source).andThen fun d =>
        (bindPattern fuel room pattern env env d).andThen fun bound => finish body bound p
    | .comma l r => (inner l).append fun _ => eval fuel room r env p
    | .calculate op l r =>
      produceAll ((outputs l).cross (calculateResults op) fun _ => outputs r)
    | .compare c l r => produceAll ((outputs l).cross (compareResults c) fun _ => outputs r)
    | .conjunction l r =>
      (outputs l).andThen fun a =>
        if a.isTrue then (outputs r).andThen fun b => produce (.ok (.bool b.isTrue))
        else produce (.ok (.bool false))
    | .disjunction l r =>
      (outputs l).andThen fun a =>
        if a.isTrue then produce (.ok (.bool true))
        else (outputs r).andThen fun b => produce (.ok (.bool b.isTrue))
    | .otherwise l r =>
      let kept := (inner l).filter fun
        | .ok q => q.value.isTrue
        | .error _ => true
      match kept.head? with
      | none => finish r env p
      | some _ => kept
    | .assign a l r =>
      let changed (f : Datum → Fallible Datum) : Fallible Place :=
        produceAll (update fuel (room - 1) l env f p.value)
      match a with
      | .update => changed fun d => values (eval fuel (room - 1) r env (.made d))
      | .plain => (outputs r).andThen fun new => changed fun _ => .lift (.ok new)
      | .calculate op => (outputs r).andThen fun new =>
          changed fun old => .lift (Datum.apply op old new)
      | .default => (outputs r).andThen fun new =>
          changed fun old => .lift (.ok (if old.isTrue then old else new))
    | .reduce source pattern start step =>
      let envs := (outputs source).andThen (bindPattern fuel room pattern env env)
      .ofList (envs.finalStates (fun bound q => eval fuel (room - 1) step bound q)
        (inner start).toList)
    | .foreach source pattern start step view =>
      let envs := (outputs source).andThen (bindPattern fuel room pattern env env)
      let shown (bound : Env) (q : Place) : Fallible Place := match view with
        | none => .lift (.ok q)
        | some v => finish v bound q
      (inner start).andThen
        (envs.scanStates (fun bound q => eval fuel (room - 1) step bound q) shown)
    | .attempt t handler =>
      (inner t).handle fun d => match handler with
        | none => .done
        | some t => finish t env (.made d)
    | .choose [] last =>
      match last with
      | none => .lift (.ok p)
      | some t => finish t env p
    | .choose ((condition, body) :: rest) last =>
      (outputs condition).andThen fun d =>
        if d.isTrue then finish body env p else finish (.choose rest last) env p
    | .define name parameters body rest => finish rest (.filter name parameters body :: env) p
    | .call name arguments =>
      match env.callee? name arguments.length with
      | some callee =>
        (bindArguments fuel room callee arguments env p.value).andThen fun bound =>
          finish callee.body bound p
      | none =>
        match Form.of? name arguments with
        | some form => evalForm fuel room form env p
        | none =>
          match Native.of? name arguments.length with
          | some native =>
            let extend (row : List Datum) (t : Term) : Fallible (List Datum) :=
              (outputs t).andThen fun d => .lift (.ok (row ++ [d]))
            (Outputs.foldThen extend [] arguments).andThen fun row =>
              produce (native.run row p.value)
          | none => .lift (Datum.fail ("undefined filter " ++ name))
    | .unknown name _ => .lift (Datum.fail ("undefined filter " ++ name))
    | .var name => produce ((env.var? name).elim (Datum.fail ("undefined variable " ++ name)) .ok)
    | .path t steps =>
      (inner t).andThen fun q => (evalSteps fuel room steps env p.value).andThen q.follow
    | .label name body =>
      (eval fuel (room - 1) body (.label name fuel :: env) p).untilLeft fuel
    | .leave name =>
      .lift ((env.label? name).elim (Datum.fail ("undefined label " ++ name))
        fun id => .error (.broke id))

/-- The outputs of a form. -/
def evalForm (fuel room : Nat) (form : Form) (env : Env) (p : Place) : Fallible Place :=
  match fuel with
  | 0 => .lift (.error .exhausted)
  | fuel + 1 =>
    let inner (t : Term) : Fallible Place := eval fuel (room - 1) t env p
    let outputs (t : Term) (d : Datum) : Fallible Datum :=
      values (eval fuel (room - 1) t env (.made d))
    match form with
    | .empty => .done
    | .raise t =>
      match (outputs t p.value).head? with
      | none => .lift (.ok p)
      | some (.ok d) => .lift (.error (.raised d))
      | some (.error e) => .lift (.error e)
    | .first t => (inner t).take 1
    | .last t => (inner t).last
    | .limit count t =>
      (outputs count p.value).andThen fun d =>
        match countOf d with
        | .ok n => (inner t).take n
        | .error e => .lift (.error e)
    | .skip count t =>
      (outputs count p.value).andThen fun d =>
        match countOf d with
        | .ok n => (inner t).drop n
        | .error e => .lift (.error e)
    | .range start stop step =>
      (outputs start p.value).andThen fun a => (outputs stop p.value).andThen fun b =>
        (outputs step p.value).andThen fun c => numbersFrom rangeBound a b c
    | .path t =>
      (eval fuel (room - 1) t env ⟨p.value, some []⟩).andThen fun q =>
        match q.trail with
        | some keys => produce (.ok (.array keys.reverse))
        | none => failPath q.value
    | .arrange a key =>
      match p.value with
      | .array items => produce do
          return a.apply (← items.mapM fun d => do return (← (outputs key d).collect, d))
      | d => .lift (Datum.failAs d "array")

/-- The environments in which the body of a called filter is evaluated. -/
def bindArguments (fuel room : Nat) (callee : Callee) (arguments : List Term) (env : Env)
    (d : Datum) : Fallible Env :=
  match fuel with
  | 0 => .lift (.error .exhausted)
  | fuel + 1 =>
    let extend (bound : Env) (given : Parameter × Term) : Fallible Env := match given with
      | (.filter name, t) => .lift (.ok (.argument name t env :: bound))
      | (.var name, t) =>
        (values (eval fuel (room - 1) t env (.made d))).andThen fun v =>
          .lift (.ok (.var name v :: bound))
    Outputs.foldThen extend callee.env (callee.parameters.zip arguments)

/-- The environments with the variables of a pattern. The terms for keys get the datum that the keys
are looked up in, and they know the variables around the whole pattern, but none that it binds. -/
def bindPattern (fuel room : Nat) (pattern : Pattern) (outer env : Env) (d : Datum) :
    Fallible Env :=
  match fuel with
  | 0 => .lift (.error .exhausted)
  | fuel + 1 =>
    match pattern with
    | .var name => .lift (.ok (.var name d :: env))
    | .array items =>
      let extend (env : Env) (item : Pattern × Nat) : Fallible Env :=
        (Outputs.lift (Datum.index d (.int item.2))).andThen
          (bindPattern fuel room item.1 outer env)
      Outputs.foldThen extend env items.zipIdx
    | .object entries =>
      let extend (env : Env) (entry : Term × Pattern) : Fallible Env :=
        (values (eval fuel (room - 1) entry.1 outer (.made d))).andThen fun k =>
          (Outputs.lift (Datum.index d k)).andThen (bindPattern fuel room entry.2 outer env)
      Outputs.foldThen extend env entries

/-- The steps of a path with the outputs of their terms, each with each. -/
def evalSteps (fuel room : Nat) (steps : List (PathStep Term × Bool)) (env : Env) (d : Datum) :
    Fallible (List (PathStep Datum × Bool)) :=
  match fuel with
  | 0 => .lift (.error .exhausted)
  | fuel + 1 =>
    let outputs (t : Term) : Fallible Datum := values (eval fuel (room - 1) t env (.made d))
    let bound (t : Option Term) : Fallible (Option Datum) := match t with
      | none => .lift (.ok none)
      | some t => (outputs t).map fun r => r.map some
    let taken (step : PathStep Term) : Fallible (PathStep Datum) := match step with
      | .index t => (outputs t).map fun r => r.map .index
      | .slice start stop =>
        (bound start).cross (fun a b => do return .slice (← a) (← b)) fun _ => bound stop
      | .elements => .lift (.ok .elements)
    let extend (rows : Fallible (List (PathStep Datum × Bool))) (step : PathStep Term × Bool) :
        Fallible (List (PathStep Datum × Bool)) :=
      rows.cross (fun row s => do return (← row) ++ [(← s, step.2)]) fun _ => taken step.1
    steps.foldl extend (.lift (.ok []))

/-- The datum with the parts that a filter points to changed by a function. -/
def update (fuel room : Nat) (t : Term) (env : Env) (f : Datum → Fallible Datum) (d : Datum) :
    Fallible Datum :=
  match fuel with
  | 0 => .lift (.error .exhausted)
  | fuel + 1 =>
    if room = 0 then .lift (.error .exhausted) else
    let within (t : Term) (env : Env) : Datum → Fallible Datum := update fuel (room - 1) t env f
    let outputs (t : Term) : Fallible Datum := values (eval fuel (room - 1) t env (.made d))
    match t with
    | .input => f d
    | .descend => within (.call descent []) env d
    | .pipe l r => update fuel (room - 1) l env (within r env) d
    | .comma l r => (within l env d).andThen (within r env)
    | .bindTo source pattern body =>
      updateThrough ((outputs source).andThen (bindPattern fuel room pattern env env))
        (within body) d
    | .otherwise l r =>
      let kept := (outputs l).filter fun
        | .ok a => a.isTrue
        | .error _ => true
      within (if kept.head?.isSome then l else r) env d
    | .choose [] last =>
      match last with
      | none => f d
      | some t => within t env d
    | .choose ((condition, body) :: rest) last =>
      match (outputs condition).collect with
      | .error e => .lift (.error e)
      | .ok answers =>
        Outputs.foldThen (fun d (answer : Datum) =>
          if answer.isTrue then within body env d else within (.choose rest last) env d) d answers
    | .define name parameters body rest => within rest (.filter name parameters body :: env) d
    | .path t steps =>
      match (evalSteps fuel room steps env d).collect with
      | .error e => .lift (.error e)
      | .ok rows =>
        Outputs.foldThen
          (fun d row => update fuel (room - 1) t env (PathStep.updateAll f row) d) d rows
    | .call name arguments =>
      match env.callee? name arguments.length with
      | some callee =>
        updateThrough (bindArguments fuel room callee arguments env d) (within callee.body) d
      | none =>
        match name, arguments with
        | "empty", [] => .lift (.ok d)
        | "error", [] => .lift (.error (.raised d))
        | _, _ => failPath d
    | _ => failPath d

end

end WideRow.Filter
