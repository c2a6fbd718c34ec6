/-!
# Outputs

The outputs of a filter, one after the other, each computed only when it is asked for. So a consumer
that stops early does not care how many more there would be. A sequence can also put off to find out
whether there is an output at all: whoever asks for the outputs goes on from there, and so a chain
of filters that each end in the next one takes no more room than one of them.

Main definitions:
* `Outputs`: a sequence of outputs;
* `Outputs.toList`: the outputs, which is all that a sequence stands for.
-/

namespace WideRow.Filter

/-- A sequence of outputs that is computed step by step. -/
inductive Outputs (α : Type) where
  | done
  /-- a single output -/
  | one (a : α)
  | more (head : α) (rest : Unit → Outputs α)
  /-- outputs of which none is known yet -/
  | later (outputs : Unit → Outputs α)

namespace Outputs

variable {α β : Type}

instance : Inhabited (Outputs α) := ⟨.done⟩

/-! ## The list of outputs -/

/-- The outputs put in front of a list in reverse order. -/
def reverseOnto (acc : List α) : Outputs α → List α
  | .done => acc
  | .one a => a :: acc
  | .more a rest => reverseOnto (a :: acc) (rest ())
  | .later o => reverseOnto acc (o ())

/-- All outputs. -/
def toList (o : Outputs α) : List α := (o.reverseOnto []).reverse

theorem reverseOnto_eq (acc : List α) (o : Outputs α) :
    o.reverseOnto acc = o.reverseOnto [] ++ acc := by
  induction o generalizing acc with
  | done => rfl
  | one a => rfl
  | more a rest ih => simp only [reverseOnto]; rw [ih (), ih () [a]]; simp
  | later o ih => exact ih () acc

@[simp] theorem toList_done : (done : Outputs α).toList = [] := rfl

@[simp] theorem toList_one (a : α) : (one a).toList = [a] := rfl

@[simp] theorem toList_more (a : α) (rest : Unit → Outputs α) :
    (more a rest).toList = a :: (rest ()).toList := by
  simp only [toList, reverseOnto]
  rw [reverseOnto_eq]
  simp

@[simp] theorem toList_later (o : Unit → Outputs α) : (later o).toList = (o ()).toList := rfl

/-- The outputs of a list. -/
def ofList : List α → Outputs α
  | [] => .done
  | [a] => .one a
  | a :: b :: rest => .more a fun _ => ofList (b :: rest)

@[simp] theorem toList_ofList (l : List α) : (ofList l).toList = l := by
  fun_induction ofList l <;> simp_all

/-! ## Making outputs of outputs -/

/-- The outputs of one sequence and then of another. -/
def append : Outputs α → (Unit → Outputs α) → Outputs α
  | .done, b => .later b
  | .one a, b => .more a b
  | .more a rest, b => .more a fun _ => append (rest ()) b
  | .later o, b => .later fun _ => append (o ()) b

/-- A function of every output. -/
def map (f : α → β) : Outputs α → Outputs β
  | .done => .done
  | .one a => .one (f a)
  | .more a rest => .more (f a) fun _ => map f (rest ())
  | .later o => map f (o ())

/-- The outputs for every output. -/
def flatMap (f : α → Outputs β) : Outputs α → Outputs β
  | .done => .done
  | .one a => f a
  | .more a rest => (f a).append fun _ => flatMap f (rest ())
  | .later o => flatMap f (o ())

/-- A function of every output of one sequence with every output of another. -/
def cross {γ : Type} (f : α → β → γ) (o : Outputs α) (b : Unit → Outputs β) : Outputs γ :=
  o.flatMap fun a => (b ()).map (f a)

/-- The outputs that pass a test. -/
def filter (p : α → Bool) : Outputs α → Outputs α
  | .done => .done
  | .one a => if p a then .one a else .done
  | .more a rest => if p a then .more a fun _ => filter p (rest ()) else filter p (rest ())
  | .later o => filter p (o ())

/-! ## Parts of the outputs -/

/-- The first output. -/
def head? : Outputs α → Option α
  | .done => none
  | .one a => some a
  | .more a _ => some a
  | .later o => head? (o ())

/-- The first outputs, up to a number of them. -/
def take : Nat → Outputs α → Outputs α
  | 0, _ => .done
  | _ + 1, .done => .done
  | _ + 1, .one a => .one a
  | 1, .more a _ => .one a
  | n + 2, .more a rest => .more a fun _ => take (n + 1) (rest ())
  | n + 1, .later o => take (n + 1) (o ())

/-- The outputs after a number of them. -/
def drop : Nat → Outputs α → Outputs α
  | 0, o => o
  | _ + 1, .done => .done
  | _ + 1, .one _ => .done
  | n + 1, .more _ rest => drop n (rest ())
  | n + 1, .later o => drop (n + 1) (o ())

end Outputs

end WideRow.Filter
