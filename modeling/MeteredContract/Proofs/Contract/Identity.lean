import MeteredContract.Proofs.Contract.Purity
import MeteredContract.Proofs.Evaluation.Stage
import MeteredContract.Proofs.Evaluation.Steps
import MeteredContract.Proofs.Execution.Plain
import MeteredContract.Proofs.Value.Parts

/-!
The identity of closures across calls. Closures are told apart by numbers, and a call starts to give
out numbers above those of all closures that are there when it begins. Evaluation and statements
leave this start as it is (`Stage.Reaches.sameStart`, `Reaches.sameStart`). So wherever in a call a
closure is made, it is none of those that were there before (`Handling.fresh_of_reaches`); in
particular it is none of those that earlier calls have left in the store, where they may be keys of
a map (`Handling.ne_of_stored`).
-/

set_option autoImplicit false
set_option relaxedAutoImplicit false

namespace MeteredContract

/-! ### Numbers that are not given out yet -/

theorem ClosureId.lt_ceiling {n : Nat} {ids : List ClosureId} (h : .made n ∈ ids) :
    n < ceiling ids := by
  induction ids with
  | nil => cases h
  | cons id ids ih =>
    rcases List.mem_cons.mp h with rfl | h
    · exact Nat.lt_of_lt_of_le n.lt_succ_self (Nat.le_max_left _ _)
    · have hlt := ih h
      cases id with
      | given _ => exact hlt
      | made _ => exact Nat.lt_of_lt_of_le hlt (Nat.le_max_right _ _)

theorem Arena.nextId_notMem {a : Arena} {ids : List ClosureId}
    (h : a.firstId = ClosureId.ceiling ids) : a.nextId ∉ ids := by
  intro hmem
  have hlt := ClosureId.lt_ceiling hmem
  omega

namespace Value

/-- What the value itself is known by, if it is a closure or a type closure. -/
def closureId? : Value → Option ClosureId
  | .closure id .. => some id
  | .tyClosure id .. => some id
  | _ => none

theorem allClosureIds_eq (vs : List Value) : allClosureIds vs = vs.flatMap closureIds := by
  induction vs with
  | nil => rfl
  | cons v vs ih => rw [allClosureIds, ih, List.flatMap_cons]

theorem entriesClosureIds_eq (es : List (Value × Value)) :
    entriesClosureIds es = es.flatMap fun e ↦ e.1.closureIds ++ e.2.closureIds := by
  induction es with
  | nil => rfl
  | cons e es ih => rw [entriesClosureIds, ih, List.flatMap_cons]

theorem messageClosureIds_eq (es : List MessageEntry) :
    messageClosureIds es = es.flatMap (·.value.closureIds) := by
  induction es with
  | nil => rfl
  | cons e es ih => rw [messageClosureIds, ih, List.flatMap_cons]

/-- The closures of a value are its parts that are closures. -/
theorem mem_closureIds_iff {v : Value} {id : ClosureId} :
    id ∈ v.closureIds ↔ ∃ w, Part w v ∧ w.closureId? = some id := by
  induction v with
  | data tyName constructor targs args ih =>
    rw [closureIds, allClosureIds_eq, List.mem_flatMap]
    constructor
    · rintro ⟨v, hv, hid⟩
      obtain ⟨w, hw, hid⟩ := (ih v hv).mp hid
      exact ⟨w, .arg hv hw, hid⟩
    · rintro ⟨w, hw, hid⟩
      cases hw with
      | self => cases hid
      | arg hv hw => exact ⟨_, hv, (ih _ hv).mpr ⟨w, hw, hid⟩⟩
  | map m ih =>
    obtain ⟨keyTy, valTy, es⟩ := m
    simp only [closureIds, entriesClosureIds_eq, List.mem_flatMap, List.mem_append]
    constructor
    · rintro ⟨e, he, hid | hid⟩
      · obtain ⟨w, hw, hid⟩ := (ih e he).1.mp hid
        exact ⟨w, .key he hw, hid⟩
      · obtain ⟨w, hw, hid⟩ := (ih e he).2.mp hid
        exact ⟨w, .val he hw, hid⟩
    · rintro ⟨w, hw, hid⟩
      cases hw with
      | self => cases hid
      | key he hw => exact ⟨_, he, .inl ((ih _ he).1.mpr ⟨w, hw, hid⟩)⟩
      | val he hw => exact ⟨_, he, .inr ((ih _ he).2.mpr ⟨w, hw, hid⟩)⟩
  | message es ih =>
    rw [closureIds, messageClosureIds_eq, List.mem_flatMap]
    constructor
    · rintro ⟨e, he, hid⟩
      obtain ⟨w, hw, hid⟩ := (ih e he).mp hid
      exact ⟨w, .entry he hw, hid⟩
    · rintro ⟨w, hw, hid⟩
      cases hw with
      | self => cases hid
      | entry he hw => exact ⟨_, he, (ih _ he).mpr ⟨w, hw, hid⟩⟩
  | closure id' | tyClosure id' =>
    rw [closureIds, List.mem_singleton]
    constructor
    · rintro rfl
      exact ⟨_, .self, rfl⟩
    · rintro ⟨w, ⟨⟩, hid⟩
      exact (Option.some.inj hid).symm
  | _ =>
    rw [closureIds]
    refine ⟨nofun, ?_⟩
    rintro ⟨w, ⟨⟩, ⟨⟩⟩

end Value

/-! ### Evaluation -/

/-- Closures are numbered from the same number on in both states. -/
def SameStart {σ : Type} (arena : σ → Arena) (t u : σ) : Prop :=
  (arena u).firstId = (arena t).firstId

instance {σ : Type} (arena : σ → Arena) : IsPreorder σ (SameStart arena) where
  refl _ := rfl
  trans _ _ _ h h' := h'.trans h

namespace Arena

theorem firstId_bindAll (a : Arena) (env : Env) (bs : List (String × Value)) :
    (a.bindAll env bs).1.firstId = a.firstId := by
  induction bs generalizing a env with
  | nil => rfl
  | cons b bs ih => exact ih _ _

theorem firstId_set (a : Arena) (env : Env) (v : Value) : (a.set env v).firstId = a.firstId := by
  unfold set
  split
  · rfl
  · split <;> rfl

end Arena

theorem EvalM.steps_sameStart : EvalM.Steps (Run.Keeps (SameStart Machine.arena)) where
  bind := .bind
  annotate span hx m := by
    rw [Run.annotate_snd]
    exact hx m
  read := .read
  push _ _ := rfl
  bindAll env bs m := m.arena.firstId_bindAll env bs
  setTop env v m := m.arena.firstId_set env v
  pay amount m := by
    unfold pay
    split <;> rfl

namespace Stage

variable {s : Setting} {p q : Stage}

theorem Leads.sameStart (h : Leads s p q) : SameStart Machine.arena p.machine q.machine := by
  have hsteps := EvalM.steps_sameStart
  cases h with
  | @letBody room x declared rhs body env m m' v hrhs =>
    have hrhs' : SameStart Machine.arena m m' := (hsteps.eval s room rhs env).of_eq hrhs
    exact hrhs'
  | clause => exact Arena.firstId_bindAll _ _ _
  | charged hpaid => exact (hsteps.charge _ _).of_eq hpaid
  | applied hx hf => exact (hsteps.apply (hsteps.enters s _) _ _).of_eq hf
  | instantiated hf => exact (hsteps.tyApply (hsteps.enters s _) _ _).of_eq hf
  | _ => rfl

theorem Reaches.sameStart (h : Reaches s p q) : SameStart Machine.arena p.machine q.machine := by
  induction h with
  | refl => rfl
  | tail _ hlead ih => exact hlead.sameStart.trans ih

end Stage

/-! ### Statements -/

/-- The arena of a session. -/
abbrev Session.arena (t : Session) : Arena := t.machine.arena

instance : Passable (SameStart Session.arena) where
  enter t env bs := t.arena.firstId_bindAll env bs
  leave _ _ := rfl

theorem ExecM.plain_sameStart : Plain (fun _ ↦ True) (Run.Keeps (SameStart Session.arena)) where
  bind := .bind
  read _ := .read _
  charge env c t := EvalM.steps_sameStart.charge env c t.machine
  extend _ _ _ _ := rfl
  write _ _ := rfl
  accept scene t := by
    unfold accept
    split
    · rfl
    · split <;> rfl
  emit _ _ := rfl
  announce _ _ := rfl

theorem Point.sameStart_of_simple (s : Setting) {p : Point} (hp : p.IsSimple) :
    SameStart Session.arena p.session (p.run s).2 := by
  obtain ⟨room, scene, code, t⟩ := p
  obtain ⟨st, site, rfl, hst⟩ := hp
  refine ExecM.plain_sameStart.execWith (fun e env u ↦ ?_) scene hst (fun _ _ ↦ trivial) site t
  rw [eval_outside]
  exact EvalM.steps_sameStart.eval s room e env u.machine

theorem Reaches.sameStart {s : Setting} {p q : Point} (h : Reaches s p q) :
    SameStart Session.arena p.session q.session :=
  h.session_of_simple fun r _ hr ↦ r.sameStart_of_simple s hr

/-! ### Calls -/

namespace Handling

variable {depthLimit : Nat} {m : Module} {state : ContractState} {store : Store} {d : Delivery}

/-- Wherever a call is, in its transition or in a procedure and inside an expression there, the next
closure is none of those that were there when the call began. -/
theorem fresh_of_reaches {sel : Selected} {p q : Point} {s : Setting} {task : Task} {r : Stage}
    (hsel : select m d.message = .ok sel)
    (hp : (deliver depthLimit m state store d).Starts depthLimit m p) (hq : Reaches s p q)
    (hr : Stage.Reaches s ⟨q.room, task, q.session.machine⟩ r) :
    r.machine.arena.nextId ∉ sel.closuresInUse state store := by
  obtain ⟨sel', hsel', rfl⟩ := hp
  obtain rfl : sel = sel' := Except.ok.inj (hsel.symm.trans hsel')
  refine Arena.nextId_notMem ?_
  calc r.machine.arena.firstId
    _ = q.session.arena.firstId := hr.sameStart
    _ = (sel.session state store d.gas).arena.firstId := hq.sameStart
    _ = ClosureId.ceiling (sel.closuresInUse state store) := Arena.firstId_bindAll _ _ _

/-- It is none of the closures in the store, at any depth of a value and also in the key of a map. -/
theorem ne_of_stored {p q : Point} {s : Setting} {task : Task} {r : Stage}
    (hp : (deliver depthLimit m state store d).Starts depthLimit m p) (hq : Reaches s p q)
    (hr : Stage.Reaches s ⟨q.room, task, q.session.machine⟩ r) {v w : Value} {id : ClosureId}
    (hv : v ∈ store.values) (hw : w.Part v) (hid : w.closureId? = some id) :
    r.machine.arena.nextId ≠ id := by
  rintro rfl
  obtain ⟨sel, hsel, -⟩ := id hp
  refine fresh_of_reaches hsel hp hq hr (List.mem_append_left _ (List.mem_append_left _ ?_))
  exact List.mem_flatMap.mpr ⟨v, hv, Value.mem_closureIds_iff.mpr ⟨w, hw, hid⟩⟩

end Handling

/-- Number of the entries of a stored map. -/
def entryCount (store : Store) (field : String) : Nat :=
  match store.field? field with
  | some (.map m) => m.size
  | _ => 0

/-- A message that enters a function into a map, as a key, makes another entry each time. -/
example :
    (history 4 Index.code Index.deployed.state ⟨[("m", .map (.empty .uint32 .uint32))], []⟩
      [Index.enter, Index.enter, Index.enter]).map (entryCount ·.outcome.store "m") = [1, 2, 3] := by
  decide +kernel

end MeteredContract
