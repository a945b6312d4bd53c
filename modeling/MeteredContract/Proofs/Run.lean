import MeteredContract.Eval.Run
import Mathlib.Order.Defs.Unbundled

/-!
A calculus for computations over a state. `Run.Keeps R x` says that `x` leaves a state in the
relation `R` to the one it started from, whether it ends in a value or in a fault. For a relation
that is reflexive and transitive this goes along with sequencing. `Run.Maintains` is for properties
of states, with what is known of values and faults, and `Run.FaultsIn` for faults alone. `Run.Lifts`
compares a computation with one over other states, `Run.AgreeOn` two computations from some states,
and `Run.UpTo` two computations of which one may be cut off.
-/

set_option autoImplicit false
set_option relaxedAutoImplicit false

namespace MeteredContract

theorem except_bind_eq_ok {ε α β : Type} {x : Except ε α} {f : α → Except ε β} {b : β} :
    x >>= f = .ok b ↔ ∃ a, x = .ok a ∧ f a = .ok b := by
  cases x with
  | error e => simp [bind, Except.bind]
  | ok a => simp [bind, Except.bind]

namespace Run

variable {σ α β : Type}

@[simp] theorem read_snd (f : σ → Except Cause α) (s : σ) : (read f s).2 = s := by
  unfold read
  split <;> rfl

@[simp] theorem fail_apply (c : Cause) (s : σ) :
    (fail c : Run σ α) s = (.error (.ofCause c), s) := rfl

@[simp] theorem annotate_snd (f : Fault → Fault) (x : Run σ α) (s : σ) :
    (annotate f x s).2 = (x s).2 := by
  unfold annotate
  split <;> simp_all

theorem bind_assoc {γ : Type} (x : Run σ α) (f : α → Run σ β) (g : β → Run σ γ) :
    x >>= f >>= g = x >>= fun a ↦ f a >>= g := by
  funext s
  rw [bind_apply, bind_apply, bind_apply]
  cases x s with
  | mk result t => cases result <;> rfl

theorem read_bind (f : σ → Except Cause α) (g : α → Run σ β) (s : σ) :
    (read f >>= g) s =
      match f s with
      | .ok a => g a s
      | .error c => (.error (.ofCause c), s) := by
  rw [bind_apply, read]
  cases f s <;> rfl

theorem bind_of_ok {x : Run σ α} {s t : σ} {a : α} (h : x s = (.ok a, t)) (f : α → Run σ β) :
    (x >>= f) s = f a t := by
  rw [bind_apply, h]

theorem bind_of_error {x : Run σ α} {s t : σ} {e : Fault} (h : x s = (.error e, t))
    (f : α → Run σ β) : (x >>= f) s = (.error e, t) := by
  rw [bind_apply, h]

theorem bind_fst_of_error {x : Run σ α} {s : σ} {e : Fault} (h : (x s).1 = .error e)
    (f : α → Run σ β) : ((x >>= f) s).1 = .error e := by
  have hrun : x s = (.error e, (x s).2) := Prod.ext h rfl
  rw [bind_of_error hrun f]

theorem bind_eq_ok {x : Run σ α} {f : α → Run σ β} {s u : σ} {b : β}
    (h : (x >>= f) s = (.ok b, u)) : ∃ a t, x s = (.ok a, t) ∧ f a t = (.ok b, u) := by
  rw [bind_apply] at h
  split at h
  · next a t hx => exact ⟨a, t, hx, h⟩
  · simp at h

theorem read_eq_ok {f : σ → Except Cause α} {s t : σ} {a : α} :
    read f s = (.ok a, t) ↔ f s = .ok a ∧ t = s := by
  unfold read
  cases f s with
  | error c => simp
  | ok b => simp [eq_comm]

theorem ofExcept_eq_ok {x : Except Cause α} {s t : σ} {a : α} :
    ofExcept x s = (.ok a, t) ↔ x = .ok a ∧ t = s := read_eq_ok (f := fun _ ↦ x)

theorem annotate_eq_ok {f : Fault → Fault} {x : Run σ α} {s t : σ} {a : α} :
    annotate f x s = (.ok a, t) ↔ x s = (.ok a, t) := by
  unfold annotate
  split
  · next h => rw [h]
  · next h => simp [h]

theorem bind_eq_ok_iff {x : Run σ α} {f : α → Run σ β} {s u : σ} {b : β} :
    (x >>= f) s = (.ok b, u) ↔ ∃ a t, x s = (.ok a, t) ∧ f a t = (.ok b, u) := by
  refine ⟨bind_eq_ok, ?_⟩
  rintro ⟨a, t, hx, hf⟩
  rw [bind_of_ok hx, hf]

def Keeps (R : σ → σ → Prop) (x : Run σ α) : Prop := ∀ s, R s (x s).2

theorem Keeps.of_eq {R : σ → σ → Prop} {x : Run σ α} (hx : Keeps R x) {s t : σ}
    {r : Except Fault α} (h : x s = (r, t)) : R s t := by
  have hs := hx s
  rw [h] at hs
  exact hs

namespace Keeps

variable {R : σ → σ → Prop} [IsPreorder σ R]

theorem pure (a : α) : Keeps R (Pure.pure a) := Std.Refl.refl

theorem fail (c : Cause) : Keeps R (Run.fail c : Run σ α) := Std.Refl.refl

theorem read (f : σ → Except Cause α) : Keeps R (Run.read f) := by
  intro s
  rw [read_snd]
  exact Std.Refl.refl s

theorem bind {x : Run σ α} {f : α → Run σ β} (hx : Keeps R x) (hf : ∀ a, Keeps R (f a)) :
    Keeps R (x >>= f) := by
  intro s
  have hs := hx s
  rw [bind_apply]
  split
  · next a t h =>
    rw [h] at hs
    exact IsTrans.trans _ _ _ hs (hf a t)
  · next e t h =>
    rw [h] at hs
    exact hs

/-- What the second of two computations keeps holds from the end of the first on. -/
theorem from_bind (x : Run σ α) {f : α → Run σ β} (hf : ∀ a, Keeps R (f a)) (s : σ) :
    R (x s).2 ((x >>= f) s).2 := by
  rw [bind_apply]
  split
  · next a t h =>
    rw [h]
    exact hf a t
  · next e t h =>
    rw [h]
    exact Std.Refl.refl t

end Keeps

/-- A value satisfies `post`, a fault satisfies `fault`. -/
def Yields (fault : Fault → Prop) (post : α → Prop) : Except Fault α → Prop
  | .ok a => post a
  | .error e => fault e

/-- From a state that satisfies `inv` the computation leaves one that does, whether it fails or
not. -/
def Maintains (inv : σ → Prop) (fault : Fault → Prop) (x : Run σ α) (post : α → Prop) : Prop :=
  ∀ s, inv s → inv (x s).2 ∧ Yields fault post (x s).1

namespace Maintains

variable {τ : Type} {inv : σ → Prop} {fault : Fault → Prop} {post : α → Prop} {post' : β → Prop}

theorem pure {a : α} (h : post a) : Maintains inv fault (Pure.pure a) post :=
  fun _ hs ↦ ⟨hs, h⟩

theorem fail {c : Cause} (h : fault (.ofCause c)) : Maintains inv fault (Run.fail c) post :=
  fun _ hs ↦ ⟨hs, h⟩

theorem bind {x : Run σ α} {f : α → Run σ β} (hx : Maintains inv fault x post)
    (hf : ∀ a, post a → Maintains inv fault (f a) post') : Maintains inv fault (x >>= f) post' := by
  intro s hs
  obtain ⟨hinv, hyields⟩ := hx s hs
  cases hrun : x s with
  | mk result t =>
    rw [hrun] at hinv hyields
    cases result with
    | error e =>
      rw [bind_of_error hrun]
      exact ⟨hinv, hyields⟩
    | ok a =>
      rw [bind_of_ok hrun]
      exact hf a hyields t hinv

theorem read {f : σ → Except Cause α} (hok : ∀ s a, inv s → f s = .ok a → post a)
    (herror : ∀ s c, inv s → f s = .error c → fault (.ofCause c)) :
    Maintains inv fault (Run.read f) post := by
  intro s hs
  unfold Run.read
  split
  · next hf => exact ⟨hs, hok s _ hs hf⟩
  · next hf => exact ⟨hs, herror s _ hs hf⟩

theorem annotate {x : Run σ α} {g : Fault → Fault} (hg : ∀ e, fault e → fault (g e))
    (hx : Maintains inv fault x post) : Maintains inv fault (x.annotate g) post := by
  intro s hs
  obtain ⟨hinv, hyields⟩ := hx s hs
  unfold Run.annotate
  split
  · next hrun =>
    rw [hrun] at hinv hyields
    exact ⟨hinv, hyields⟩
  · next hrun =>
    rw [hrun] at hinv hyields
    exact ⟨hinv, hg _ hyields⟩

theorem zoom {inv' : τ → Prop} {get : τ → σ} {set : τ → σ → τ} {x : Run σ α}
    (hget : ∀ s, inv' s → inv (get s)) (hset : ∀ s t, inv' s → inv t → inv' (set s t))
    (hx : Maintains inv fault x post) : Maintains inv' fault (x.zoom get set) post := by
  intro s hs
  obtain ⟨hinv, hyields⟩ := hx (get s) (hget s hs)
  exact ⟨hset s _ hs hinv, hyields⟩

end Maintains

/-- Every fault that the computation may end in satisfies `p`. -/
abbrev FaultsIn (p : Fault → Prop) (x : Run σ α) : Prop :=
  Maintains (fun _ ↦ True) p x fun _ ↦ True

theorem FaultsIn.of_error {p : Fault → Prop} {x : Run σ α} (hx : FaultsIn p x) {s t : σ} {f : Fault}
    (h : x s = (.error f, t)) : p f := by
  have hyields := (hx s trivial).2
  rw [h] at hyields
  exact hyields

theorem FaultsIn.mono {p q : Fault → Prop} {x : Run σ α} (hx : FaultsIn p x) (h : ∀ f, p f → q f) :
    FaultsIn q x := by
  intro s _
  refine ⟨trivial, ?_⟩
  cases hrun : x s with
  | mk result t =>
    cases result with
    | error f => exact h f (hx.of_error hrun)
    | ok a => trivial

/-- Only faults are annotated. -/
theorem FaultsIn.annotate {p q : Fault → Prop} {x : Run σ α} {g : Fault → Fault}
    (hx : FaultsIn p x) (hg : ∀ f, p f → q (g f)) : FaultsIn q (x.annotate g) := by
  intro s _
  refine ⟨trivial, ?_⟩
  unfold Run.annotate
  split
  · trivial
  · next hrun => exact hg _ (hx.of_error hrun)

/-- On the states that `put` makes, the first computation does what the second does. -/
def Lifts {τ : Type} (put : σ → τ) (x : Run τ α) (y : Run σ α) : Prop :=
  ∀ s, x (put s) = ((y s).1, put (y s).2)

namespace Lifts

variable {τ : Type} {put : σ → τ}

theorem pure (a : α) : Lifts put (Pure.pure a) (Pure.pure a) := fun _ ↦ rfl

theorem fail (c : Cause) : Lifts put (Run.fail c : Run τ α) (Run.fail c) := fun _ ↦ rfl

theorem read {f : τ → Except Cause α} {g : σ → Except Cause α} (h : ∀ s, f (put s) = g s) :
    Lifts put (Run.read f) (Run.read g) := by
  intro s
  simp only [Run.read, h]
  cases g s with
  | error c => rfl
  | ok a => rfl

theorem ofExcept (x : Except Cause α) : Lifts put (Run.ofExcept x) (Run.ofExcept x) :=
  .read fun _ ↦ rfl

theorem bind {x : Run τ α} {y : Run σ α} {f : α → Run τ β} {g : α → Run σ β} (hx : Lifts put x y)
    (hf : ∀ a, Lifts put (f a) (g a)) : Lifts put (x >>= f) (y >>= g) := by
  intro s
  rw [bind_apply, bind_apply, hx s]
  cases hy : y s with
  | mk result t =>
    cases result with
    | error e => rfl
    | ok a => exact hf a t

theorem annotate {x : Run τ α} {y : Run σ α} (hx : Lifts put x y) (f : Fault → Fault) :
    Lifts put (x.annotate f) (y.annotate f) := by
  intro s
  rw [Run.annotate, Run.annotate, hx s]
  cases hy : y s with
  | mk result t =>
    cases result with
    | error e => rfl
    | ok a => rfl

end Lifts

/-- From the states that satisfy `inv` the computations do the same. -/
def AgreeOn (inv : σ → Prop) (x y : Run σ α) : Prop := ∀ s, inv s → x s = y s

namespace AgreeOn

variable {inv : σ → Prop}

theorem refl (x : Run σ α) : AgreeOn inv x x := fun _ _ ↦ rfl

/-- The first of two computations has to lead to such states again. -/
theorem bind {x y : Run σ α} {f g : α → Run σ β} (hx : AgreeOn inv x y)
    (hinv : ∀ s a t, inv s → y s = (.ok a, t) → inv t) (hf : ∀ a, AgreeOn inv (f a) (g a)) :
    AgreeOn inv (x >>= f) (y >>= g) := by
  intro s hs
  rw [bind_apply, bind_apply, hx s hs]
  cases hy : y s with
  | mk result t =>
    cases result with
    | error e => rfl
    | ok a => exact hf a t (hinv s a t hs hy)

theorem read_bind (f : σ → Except Cause α) {g g' : α → Run σ β}
    (hg : ∀ a, AgreeOn inv (g a) (g' a)) : AgreeOn inv (read f >>= g) (read f >>= g') := by
  refine bind (.refl _) (fun s a t hs h ↦ ?_) hg
  rw [(read_eq_ok.mp h).2]
  exact hs

theorem annotate {x y : Run σ α} (hx : AgreeOn inv x y) (f : Fault → Fault) :
    AgreeOn inv (x.annotate f) (y.annotate f) := by
  intro s hs
  rw [Run.annotate, Run.annotate, hx s hs]

end AgreeOn

/-- The result is a fault with such a cause. -/
def CutOff (cut : Cause → Prop) (r : Except Fault α) : Prop := ∃ f, r = .error f ∧ cut f.cause

/-- The first computation does what the second does, unless the second ends in a fault with such a
cause. -/
def UpTo (cut : Cause → Prop) (x y : Run σ α) : Prop := ∀ s, x s = y s ∨ CutOff cut (y s).1

namespace UpTo

variable {τ : Type} {cut : Cause → Prop}

theorem refl (x : Run σ α) : UpTo cut x x := fun _ ↦ .inl rfl

theorem fail (x : Run σ α) {c : Cause} (hc : cut c) : UpTo cut x (Run.fail c) :=
  fun _ ↦ .inr ⟨.ofCause c, rfl, hc⟩

theorem bind {x y : Run σ α} {f g : α → Run σ β} (hxy : UpTo cut x y)
    (hfg : ∀ a, UpTo cut (f a) (g a)) : UpTo cut (x >>= f) (y >>= g) := by
  intro s
  cases hy : y s with
  | mk result t =>
    have hx := hxy s
    rw [hy] at hx
    cases result with
    | error e =>
      rw [bind_of_error hy]
      rcases hx with hx | ⟨e', he', hcut⟩
      · exact .inl (bind_of_error hx f)
      · cases he'
        exact .inr ⟨e, rfl, hcut⟩
    | ok a =>
      rcases hx with hx | ⟨e, he, -⟩
      · rw [bind_of_ok hy, bind_of_ok hx]
        exact hfg a t
      · cases he

/-- Annotations do not change the cause. -/
theorem annotate {x y : Run σ α} {g : Fault → Fault} (hxy : UpTo cut x y)
    (hg : ∀ e, (g e).cause = e.cause) : UpTo cut (x.annotate g) (y.annotate g) := by
  intro s
  rcases hxy s with hrun | ⟨e, he, hcut⟩
  · left
    rw [Run.annotate, Run.annotate, hrun]
  · right
    have hy : y s = (.error e, (y s).2) := Prod.ext he rfl
    refine ⟨g e, ?_, (hg e).symm ▸ hcut⟩
    rw [Run.annotate, hy]

theorem zoom {x y : Run σ α} (get : τ → σ) (set : τ → σ → τ) (hxy : UpTo cut x y) :
    UpTo cut (x.zoom get set) (y.zoom get set) := by
  intro s
  refine (hxy (get s)).imp_left fun hrun ↦ ?_
  rw [Run.zoom, Run.zoom, hrun]

end UpTo

end Run

end MeteredContract
