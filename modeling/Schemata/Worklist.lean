import Schemata.Change

/-!
# Worklists

Work that brings up more work. Keys wait in a queue and are worked on one by one; after each one the
keys that are pending by then are added at the end, every key at most once. The rounds are counted, so
that work without end stops with an error.
-/

namespace Schemata

structure Worklist (κ : Type) where
  waiting : List κ := []
  seen : List κ := []

namespace Worklist

variable {ε σ κ : Type} [DecidableEq κ]

/-- The worklist with one more key at the end, unless it waited before. -/
def push (w : Worklist κ) (k : κ) : Worklist κ :=
  if k ∈ w.seen then w else { waiting := w.waiting ++ [k], seen := k :: w.seen }

def pushAll (w : Worklist κ) (ks : List κ) : Worklist κ :=
  ks.foldl push w

/-- Works on the waiting keys until none is left, and gives the keys that were worked on, in order.
    `run` tells whether there was anything to do for a key. -/
def drain (pending : σ → List κ) (run : κ → Change ε σ Bool) (endless : σ → ε) :
    Nat → Worklist κ → Change ε σ (List κ)
  | 0, w =>
    match w.waiting with
    | [] => pure []
    | _ :: _ => do Change.fail (endless (← Change.get))
  | fuel + 1, w =>
    match w.waiting with
    | [] => pure []
    | k :: rest => do
      if ← run k then
        let s ← Change.get
        let later ← drain pending run endless fuel (pushAll { w with waiting := rest } (pending s))
        pure (k :: later)
      else drain pending run endless fuel { w with waiting := rest }

/-- Works on everything that is pending, with `slack` rounds for the work that comes up meanwhile. -/
def work (slack : Nat) (pending : σ → List κ) (run : κ → Change ε σ Bool) (endless : σ → ε) :
    Change ε σ (List κ) := do
  let ks := pending (← Change.get)
  drain pending run endless (slack + ks.length) (pushAll {} ks)

end Worklist

end Schemata
