import Schemata.Error
import Schemata.Event

/-!
# Changes

A change works on a state, logs events and ends with a value or an error. What it did before an error
stays done, and what it logged stays logged: nothing is rolled back.
-/

namespace Schemata

/-- What a change leaves behind. -/
structure Outcome (ε σ α : Type) where
  result : Except ε α
  state : σ
  log : List Event

/-- A change of a state of type `σ` that ends with an `α` or an error `ε`. -/
def Change (ε σ α : Type) : Type :=
  σ → Outcome ε σ α

/-- A change that stops with an error of the model. -/
abbrev Edit (σ α : Type) : Type :=
  Change Error σ α

namespace Change

variable {ε σ τ α β : Type}

protected def pure (a : α) : Change ε σ α := fun s =>
  ⟨.ok a, s, []⟩

/-- One change after another; an error of the first one ends both. -/
protected def bind (c : Change ε σ α) (f : α → Change ε σ β) : Change ε σ β := fun s =>
  let o := c s
  match o.result with
  | .ok a =>
    let p := f a o.state
    ⟨p.result, p.state, o.log ++ p.log⟩
  | .error e => ⟨.error e, o.state, o.log⟩

instance : Monad (Change ε σ) where
  pure := Change.pure
  bind := Change.bind

def get : Change ε σ σ := fun s =>
  ⟨.ok s, s, []⟩

def modify (f : σ → σ) : Change ε σ Unit := fun s =>
  ⟨.ok (), f s, []⟩

def fail (e : ε) : Change ε σ α := fun s =>
  ⟨.error e, s, []⟩

def report (e : Event) : Change ε σ Unit := fun s =>
  ⟨.ok (), s, [e]⟩

def ofExcept : Except ε α → Change ε σ α
  | .ok a => Change.pure a
  | .error e => fail e

/-- A new state, or an error that leaves the state as it is. -/
def attempt (f : σ → Except ε σ) : Change ε σ Unit := fun s =>
  match f s with
  | .ok t => ⟨.ok (), t, []⟩
  | .error e => ⟨.error e, s, []⟩

def mapError {δ : Type} (f : ε → δ) (c : Change ε σ α) : Change δ σ α := fun s =>
  let o := c s
  match o.result with
  | .ok a => ⟨.ok a, o.state, o.log⟩
  | .error e => ⟨.error (f e), o.state, o.log⟩

/-- A change of a part of the state. -/
def within (part : σ → τ) (put : τ → σ → σ) (c : Change ε τ α) : Change ε σ α := fun s =>
  let o := c (part s)
  ⟨o.result, put o.state s, o.log⟩

/-- A change of a state of its own, which starts as `t` and is handed back. -/
def starting (t : τ) (c : Change ε τ α) : Change ε σ (α × τ) := fun s =>
  let o := c t
  match o.result with
  | .ok a => ⟨.ok (a, o.state), s, o.log⟩
  | .error e => ⟨.error e, s, o.log⟩

/-- A change of every item of a list, from the first on, up to the first error. -/
def each (c : Change ε σ Unit) : Change ε (List σ) Unit
  | [] => ⟨.ok (), [], []⟩
  | s :: rest =>
    let o := c s
    match o.result with
    | .ok () =>
      let p := each c rest
      ⟨p.result, o.state :: p.state, o.log ++ p.log⟩
    | .error e => ⟨.error e, o.state :: rest, o.log⟩

/-- A change of the item at a position of a list; without such an item nothing happens. -/
def atPosition (pos : Nat) (c : Change ε σ Unit) : Change ε (List σ) Unit := fun ss =>
  match ss[pos]? with
  | some s =>
    let o := c s
    ⟨o.result, ss.set pos o.state, o.log⟩
  | none => ⟨.ok (), ss, []⟩

def forEach (f : α → Change ε σ Unit) : List α → Change ε σ Unit
  | [] => Change.pure ()
  | a :: rest => Change.bind (f a) fun _ => forEach f rest

/-- A change for every item of a list, in order, with the values that it gives. -/
def gather (f : α → Change ε σ (Option β)) : List α → Change ε σ (List β)
  | [] => Change.pure []
  | a :: rest =>
    Change.bind (f a) fun b => Change.bind (gather f rest) fun bs => Change.pure (b.toList ++ bs)

end Change

end Schemata
