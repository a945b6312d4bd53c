import MeteredContract.Fault.Basic
import MeteredContract.Ty.Subst

/-!
Environments as chains of frames in an arena. Every binding pushes one frame, which holds a name,
what the name is bound to, and the handle of the enclosing environment; an environment is the handle
of its innermost frame. Extending an environment leaves all others as they are.

The arena has a frozen base and a scratch layer above it. Deployment freezes its frames, and each
message runs on a fresh scratch layer over them.

Handles are natural numbers. They stand for handles of 32 bits, which saturate, in runs that make
fewer than 2 ^ 32 frames.
-/

set_option autoImplicit false
set_option relaxedAutoImplicit false

namespace MeteredContract

inductive Binding where
  | value (v : Value)
  /-- A type variable that a type application instantiated. -/
  | type (t : Ty)
  /-- A recursive binding whose value is still being computed. -/
  | pending

structure Frame where
  name : String
  binding : Binding
  parent : Env

def Frame.closureIds (f : Frame) : List ClosureId :=
  match f.binding with
  | .value v => v.closureIds
  | _ => []

structure Arena where
  base : Array Frame
  scratch : Array Frame
  /-- Where the numbers of the closures start that are made over these frames. -/
  firstId : Nat

namespace Arena

def empty : Arena := ⟨#[], #[], 0⟩

/-- A fresh scratch layer over frozen frames. -/
def ofFrozen (frozen : Array Frame) : Arena := ⟨frozen, #[], 0⟩

/-- The same frames, over which the closures that are made differ from those. -/
def avoiding (a : Arena) (ids : List ClosureId) : Arena :=
  { a with firstId := ClosureId.ceiling ids }

/-- The frames of both layers as one frozen base. Handles stay valid. -/
def freeze (a : Arena) : Array Frame := a.base ++ a.scratch

def size (a : Arena) : Nat := a.base.size + a.scratch.size

/-- What the next closure is known by. Between two closures that are made side by side a frame is
pushed, so their numbers differ. -/
def nextId (a : Arena) : ClosureId := .made (a.firstId + a.size)

def frame? (a : Arena) (i : Nat) : Option Frame :=
  if i < a.base.size then a.base[i]? else a.scratch[i - a.base.size]?

def push (a : Arena) (f : Frame) : Arena × Env :=
  let top := a.size
  ({ a with scratch := a.scratch.push f }, ⟨some top⟩)

def bind (a : Arena) (env : Env) (name : String) (v : Value) : Arena × Env :=
  a.push ⟨name, .value v, env⟩

def bindType (a : Arena) (env : Env) (tvar : String) (t : Ty) : Arena × Env :=
  a.push ⟨tvar, .type t, env⟩

def bindPending (a : Arena) (env : Env) (name : String) : Arena × Env :=
  a.push ⟨name, .pending, env⟩

/-- Bind every name in order, the last one innermost. -/
def bindAll (a : Arena) (env : Env) : List (String × Value) → Arena × Env
  | [] => (a, env)
  | (name, v) :: rest =>
    let (a', env') := a.bind env name v
    bindAll a' env' rest

/-- Bind the innermost name of `env` to a value, in place of what it was bound to. -/
def set (a : Arena) (env : Env) (v : Value) : Arena :=
  let patch (f : Frame) : Frame := { f with binding := .value v }
  match env.top with
  | none => a
  | some i =>
    if i < a.base.size then { a with base := a.base.modify i patch }
    else { a with scratch := a.scratch.modify (i - a.base.size) patch }

/-- Follow the parent handles for at most `bound` frames. -/
def walk (a : Arena) : (bound : Nat) → Env → List Frame
  | 0, _ => []
  | bound + 1, env =>
    match env.top.bind a.frame? with
    | none => []
    | some f => f :: walk a bound f.parent

/-- The frames of an environment, innermost first. Parents are older than their frames, so a chain
is no longer than the arena. -/
def chain (a : Arena) (env : Env) : List Frame := a.walk a.size env

/-- The innermost frame that binds the name. -/
def find? (a : Arena) (env : Env) (name : String) : Option Frame :=
  (a.chain env).find? (·.name = name)

/-- The value of a name. Type variables and pending bindings hide outer values. -/
def lookup (a : Arena) (env : Env) (name : String) : Except Cause Value :=
  match a.find? env name with
  | some ⟨_, .value v, _⟩ => .ok v
  | _ => .error (.unboundIdentifier name)

def lookupType? (a : Arena) (env : Env) (tvar : String) : Option Ty :=
  match a.find? env tvar with
  | some ⟨_, .type t, _⟩ => some t
  | _ => none

/-- Replace the type variables that the environment instantiates. -/
def resolveTy (a : Arena) (env : Env) (t : Ty) : Ty :=
  if t.hasFreeVars then t.resolve (a.lookupType? env) else t

/-- The values of a chain of frames that no frame before them and no name in `seen` hides. -/
def visible : List String → List Frame → List (String × Value)
  | _, [] => []
  | seen, f :: fs =>
    if seen.contains f.name then visible seen fs
    else
      match f.binding with
      | .value v => (f.name, v) :: visible (f.name :: seen) fs
      | _ => visible (f.name :: seen) fs

/-- The values that `lookup` finds, outermost first. -/
def bindings (a : Arena) (env : Env) : List (String × Value) :=
  (visible [] (a.chain env)).reverse

/-- An environment of its own with the bindings whose names satisfy `keep`. -/
def filter (a : Arena) (env : Env) (keep : String → Bool) : Arena × Env :=
  a.bindAll .empty ((a.bindings env).filter fun b ↦ keep b.1)

end Arena

end MeteredContract
