import MeteredContract.Fault.Basic

/-!
Computations over a state that may end in a fault. The state they leave counts in both cases: gas
that was spent before a fault stays spent. `Run.bind_apply` says how two computations follow each
other.
-/

set_option autoImplicit false
set_option relaxedAutoImplicit false

namespace MeteredContract

def Run (σ α : Type) : Type := σ → Except Fault α × σ

namespace Run

variable {σ τ α β : Type}

instance : Monad (Run σ) where
  pure a := fun s ↦ (.ok a, s)
  bind x f := fun s ↦
    match x s with
    | (.ok a, t) => f a t
    | (.error e, t) => (.error e, t)

theorem pure_apply (a : α) (s : σ) : (pure a : Run σ α) s = (.ok a, s) := rfl

theorem bind_apply (x : Run σ α) (f : α → Run σ β) (s : σ) :
    (x >>= f) s =
      match x s with
      | (.ok a, t) => f a t
      | (.error e, t) => (.error e, t) := rfl

def fail (c : Cause) : Run σ α := fun s ↦ (.error (.ofCause c), s)

/-- A computation that only reads the state. -/
def read (f : σ → Except Cause α) : Run σ α := fun s ↦
  match f s with
  | .ok a => (.ok a, s)
  | .error c => (.error (.ofCause c), s)

def ofExcept (x : Except Cause α) : Run σ α := read fun _ ↦ x

/-- A computation that changes the state and cannot fail. -/
def step (f : σ → α × σ) : Run σ α := fun s ↦
  let (a, t) := f s
  (.ok a, t)

/-- Add to the fault that a computation may end in. -/
def annotate (f : Fault → Fault) (x : Run σ α) : Run σ α := fun s ↦
  match x s with
  | (.ok a, t) => (.ok a, t)
  | (.error e, t) => (.error (f e), t)

/-- Run on a part of the state. -/
def zoom (get : τ → σ) (set : τ → σ → τ) (x : Run σ α) : Run τ α := fun s ↦
  let (r, t) := x (get s)
  (r, set s t)

end Run

end MeteredContract
