import MeteredContract.Proofs.Execution.Point
import MeteredContract.Proofs.Termination.Bound

/-!
The recursion of execution and why it ends, in the same way as for evaluation: `Executor.unfold` is
execution with its recursive calls left open. They go to the clauses of the block and to the bodies
of procedures, which run with the part of the table before them (`Entered`). So along calls the
table gets shorter, or with the same table the block gets smaller, and the limit on the depth is not
needed.
-/

set_option autoImplicit false
set_option relaxedAutoImplicit false

namespace MeteredContract

open ExecM

/-- Something that executes blocks at a depth of calls. -/
abbrev Executor : Type := (depth : Nat) → Scene → List Stmt → ExecM Unit

namespace Executor

/-- What blocks find outside, with `self` for the bodies of procedures. -/
def outside (s : Setting) (self : Executor) (depth : Nat) : Outside where
  eval := evalAt s depth
  invoke scene bs body := do
    Run.ofExcept (s.guard depth)
    withBindings scene.initEnv bs (self (depth + 1) scene body)

end Executor

/-- Run a statement, with `self` for the blocks that have to be executed on the way. -/
def Stmt.unfold (s : Setting) (self : Executor) (depth : Nat) (scene : Scene) :
    Stmt → (site : Span) → ExecM Unit
  | .matching x clauses, _ => do
    let v ← lookup x
    match Pattern.firstMatch (clauses.map Prod.fst) v with
    | none => Run.fail (.noMatchingClause x)
    | some (i, binds) =>
      let env ← inspect fun _ env ↦ .ok env
      withBindings env binds <|
        match clauses[i]? with
        | none => Run.fail (.noMatchingClause x)
        | some clause => self depth scene clause.2
  | .located sp st, _ => (st.unfold s self depth scene sp).annotate (·.withSpan sp)
  | st, site => st.execWith (self.outside s depth) scene site

namespace Executor

/-- Execute one block, with `self` for the blocks that have to be executed on the way. -/
def unfold (s : Setting) (self : Executor) (depth : Nat) (scene : Scene) : List Stmt → ExecM Unit
  | [] => return ()
  | st :: rest => do
    (st.unfold s self depth scene .dummy).annotate (·.attach scene.trail)
    unfold s self depth scene rest

end Executor

/-- Execution at a depth, with the room that the limit leaves. -/
def execAt (s : Setting) : Executor := fun depth scene block ↦
  exec s (s.depthLimit - depth) scene block

theorem outside_execAt (s : Setting) (depth : Nat) :
    (execAt s).outside s depth = outside s (s.depthLimit - depth) := by
  have heval : evalAt s depth = eval s (s.depthLimit - depth) := rfl
  by_cases hlt : depth < s.depthLimit
  · obtain ⟨room, hroom⟩ : ∃ room, s.depthLimit - depth = room + 1 :=
      ⟨s.depthLimit - (depth + 1), by omega⟩
    have hnext : s.depthLimit - (depth + 1) = room := by omega
    simp only [Executor.outside, heval, execAt, hroom, hnext, Setting.guard, hlt, if_true]
    rfl
  · have hroom : s.depthLimit - depth = 0 := by omega
    simp only [Executor.outside, heval, hroom, Setting.guard, hlt, if_false]
    rfl

theorem Stmt.unfold_execAt (s : Setting) (depth : Nat) (scene : Scene) (st : Stmt) (site : Span) :
    st.unfold s (execAt s) depth scene site =
      st.execWith (outside s (s.depthLimit - depth)) scene site := by
  induction st generalizing site with
  | matching x clauses ih =>
    simp only [Stmt.unfold, Stmt.execWith]
    refine bind_congr fun v ↦ ?_
    cases hmatch : Pattern.firstMatch (clauses.map Prod.fst) v with
    | none => rfl
    | some found =>
      obtain ⟨i, binds⟩ := found
      obtain ⟨clause, hclause⟩ := exists_clause hmatch
      simp only [hclause, execClause_eq x hclause]
      rfl
  | located sp st ih =>
    simp only [Stmt.unfold, Stmt.execWith]
    rw [ih]
  | _ =>
    rw [← outside_execAt]
    rfl

/-- Execution solves its recursive equation. -/
theorem execAt_unfold (s : Setting) : (execAt s).unfold s = execAt s := by
  funext depth scene block
  induction block with
  | nil => rfl
  | cons st rest ih =>
    simp only [Executor.unfold, ih, Stmt.unfold_execAt]
    simp only [execAt, exec, execBlock]

/-! ### Recursive calls go down -/

/-- Executing the second block calls for the first: it is smaller and belongs to the same component,
or it is the body of a procedure, which sees only the procedures before it. -/
inductive Entered : Scene × List Stmt → Scene × List Stmt → Prop
  | clause {scene : Scene} {block body : List Stmt} (hsize : blockSize body < blockSize block) :
    Entered (scene, body) (scene, block)
  | callee {scene scene' : Scene} {block : List Stmt} {name : String} {c : Callee}
    (hfound : findCallee? name scene.procedures = some c)
    (hvisible : scene'.procedures = c.visible) (hsize : 0 < blockSize block) :
    Entered (scene', c.procedure.body) (scene, block)

/-- The order in which recursive calls go down: first the length of the table, then the size of the
block. -/
def BlockBelow (p q : Scene × List Stmt) : Prop :=
  Prod.Lex (· < ·) (· < ·) (p.1.procedures.length, blockSize p.2)
    (q.1.procedures.length, blockSize q.2)

theorem wellFounded_blockBelow : WellFounded BlockBelow :=
  InvImage.wf (fun p : Scene × List Stmt ↦ (p.1.procedures.length, blockSize p.2))
    (Prod.lex Nat.lt_wfRel Nat.lt_wfRel).wf

theorem Entered.below {p q : Scene × List Stmt} (h : Entered p q) : BlockBelow p q := by
  cases h with
  | clause hsize => exact .right _ hsize
  | callee hfound hvisible hsize =>
    refine .left _ _ ?_
    rw [hvisible]
    exact length_visible_lt hfound

/-- The executors agree on the blocks that a block calls for. -/
def Executor.AgreeOnEntered (self self' : Executor) (scene : Scene) (block : List Stmt) : Prop :=
  ∀ depth scene' block', Entered (scene', block') (scene, block) →
    self depth scene' block' = self' depth scene' block'

section Congr

variable {s : Setting} {self self' : Executor} {scene : Scene} {block : List Stmt}
  (h : self.AgreeOnEntered self' scene block) (hsize : 0 < blockSize block)

include h hsize

theorem Executor.call_congr (depth : Nat) (site : Span) (name : String) (args : List Value) :
    (self.outside s depth).call scene site name args =
      (self'.outside s depth).call scene site name args := by
  unfold Outside.call
  cases hfound : findCallee? name scene.procedures with
  | none => rfl
  | some c =>
    obtain ⟨p, visible⟩ := c
    refine bind_congr fun own ↦ bind_congr fun sender ↦ bind_congr fun origin ↦ ?_
    refine bind_congr fun amount ↦ ?_
    have hbody := h (depth + 1) { scene with
      procedures := visible
      trail := scene.trail.push name (some site) } p.body (.callee hfound rfl hsize)
    simp only [outside, hbody]

theorem Executor.callEach_congr (depth : Nat) (site : Span) (name : String)
    (items : List Value) :
    (self.outside s depth).callEach scene site name items =
      (self'.outside s depth).callEach scene site name items := by
  induction items with
  | nil => rfl
  | cons item items ih => simp only [Outside.callEach, call_congr h hsize, ih]

theorem Stmt.unfold_congr (depth : Nat) {st : Stmt} (hst : st.size ≤ blockSize block)
    (site : Span) :
    st.unfold s self depth scene site = st.unfold s self' depth scene site := by
  induction st generalizing site with
  | matching x clauses ih =>
    simp only [Stmt.unfold]
    refine bind_congr fun v ↦ ?_
    split
    · rfl
    · next i binds _ =>
      cases hclause : clauses[i]? with
      | none => rfl
      | some clause =>
        have hlt := blockSize_lt_clausesSize hclause
        rw [Stmt.size] at hst
        simp only [h depth scene clause.2 (.clause (by omega))]
  | located sp st ih =>
    rw [Stmt.size] at hst
    simp only [Stmt.unfold, ih (by omega)]
  | call name args => simp only [Stmt.unfold, Stmt.execWith, Executor.call_congr h hsize]
  | forEach list name => simp only [Stmt.unfold, Stmt.execWith, Executor.callEach_congr h hsize]
  | _ => rfl

end Congr

/-- One unfolding makes its recursive calls for what the block calls for: what an executor does
elsewhere does not matter. -/
theorem Executor.unfold_congr {s : Setting} {self self' : Executor} {scene : Scene}
    {block : List Stmt} (h : self.AgreeOnEntered self' scene block) (depth : Nat) :
    self.unfold s depth scene block = self'.unfold s depth scene block := by
  have hpart : ∀ part, blockSize part ≤ blockSize block →
      self.unfold s depth scene part = self'.unfold s depth scene part := by
    intro part hle
    induction part with
    | nil => rfl
    | cons st rest ih =>
      rw [blockSize] at hle
      have hst : st.unfold s self depth scene .dummy = st.unfold s self' depth scene .dummy :=
        Stmt.unfold_congr h (by omega) depth (by omega) .dummy
      simp only [unfold, hst, ih (by omega)]
  exact hpart block (Nat.le_refl _)

/-- The equation of execution has no other solution. -/
theorem eq_execAt_of_unfold {s : Setting} {self : Executor} (h : self.unfold s = self) :
    self = execAt s := by
  have hall : ∀ (p : Scene × List Stmt) (depth : Nat),
      self depth p.1 p.2 = execAt s depth p.1 p.2 := by
    intro p
    induction p using wellFounded_blockBelow.induction with
    | _ p ih =>
      intro depth
      rw [← h, ← execAt_unfold s]
      refine Executor.unfold_congr (fun depth' scene' block' hentered ↦ ?_) depth
      exact ih (scene', block') hentered.below depth'
  funext depth scene block
  exact hall (scene, block) depth

/-! ### The number of unfoldings -/

/-- Size of the largest body in a table of procedures. -/
def tableSize : List Component → Nat
  | [] => 0
  | p :: ps => max (blockSize p.body) (tableSize ps)

theorem blockSize_le_tableSize {p : Component} {procedures : List Component}
    (h : p ∈ procedures) : blockSize p.body ≤ tableSize procedures := by
  induction procedures with
  | nil => simp at h
  | cons q ps ih =>
    rw [tableSize]
    rcases List.mem_cons.mp h with rfl | h
    · exact Nat.le_max_left _ _
    · exact Nat.le_trans (ih h) (Nat.le_max_right _ _)

theorem mem_of_findCallee? {name : String} {procedures : List Component} {c : Callee}
    (h : findCallee? name procedures = some c) :
    c.procedure ∈ procedures ∧ ∀ p ∈ c.visible, p ∈ procedures := by
  induction procedures generalizing c with
  | nil => simp [findCallee?] at h
  | cons p ps ih =>
    unfold findCallee? at h
    split at h
    · cases h
      simp
    · obtain ⟨c', hc', rfl⟩ := Option.map_eq_some_iff.mp h
      obtain ⟨hmem, hvisible⟩ := ih hc'
      refine ⟨List.mem_cons_of_mem p hmem, ?_⟩
      intro q hq
      rcases List.mem_cons.mp hq with rfl | hq
      · exact List.mem_cons_self
      · exact List.mem_cons_of_mem p (hvisible q hq)

/-- How often the equation of execution has to be unfolded for a block, if there is no procedure of
a size larger than `k`: not more often than the length of the table and the sizes say, whatever the
limit on the depth. -/
def blockUnfoldings (k : Nat) (scene : Scene) (block : List Stmt) : Nat :=
  scene.procedures.length * k + blockSize block + 1

theorem blockUnfoldings_lt {k : Nat} {scene scene' : Scene} {block block' : List Stmt}
    (h : Entered (scene', block') (scene, block))
    (hk : ∀ p ∈ scene.procedures, blockSize p.body ≤ k) :
    blockUnfoldings k scene' block' < blockUnfoldings k scene block ∧
      ∀ p ∈ scene'.procedures, blockSize p.body ≤ k := by
  unfold blockUnfoldings
  cases h with
  | clause hsize => exact ⟨by omega, hk⟩
  | @callee _ _ _ name c hfound hvisible hsize =>
    obtain ⟨hmem, hsub⟩ := mem_of_findCallee? hfound
    rw [hvisible]
    refine ⟨?_, fun p hp ↦ hk p (hsub p hp)⟩
    have hbody := hk c.procedure hmem
    have hlength := length_visible_lt hfound
    calc c.visible.length * k + blockSize c.procedure.body + 1
        ≤ (c.visible.length + 1) * k + 1 := by rw [Nat.succ_mul]; omega
      _ ≤ scene.procedures.length * k + 1 :=
          Nat.add_le_add_right (Nat.mul_le_mul_right k hlength) 1
      _ < scene.procedures.length * k + blockSize block + 1 := by omega

theorem Executor.iterate_unfold_of_le (s : Setting) (rest : Executor) {k r : Nat} {scene : Scene}
    {block : List Stmt} (hk : ∀ p ∈ scene.procedures, blockSize p.body ≤ k)
    (hr : blockUnfoldings k scene block ≤ r) (depth : Nat) :
    (unfold s)^[r] rest depth scene block = execAt s depth scene block := by
  induction r generalizing depth scene block with
  | zero =>
    unfold blockUnfoldings at hr
    omega
  | succ r ih =>
    rw [Function.iterate_succ_apply', ← execAt_unfold s]
    refine unfold_congr (fun depth' scene' block' hentered ↦ ?_) depth
    obtain ⟨hlt, hk'⟩ := blockUnfoldings_lt hentered hk
    exact ih hk' (by omega) depth'

/-- Unfolding often enough gives execution, whatever stands for the calls further down. -/
theorem Executor.iterate_unfold (s : Setting) (rest : Executor) {r : Nat} {scene : Scene}
    {block : List Stmt}
    (hr : blockUnfoldings (tableSize scene.procedures) scene block ≤ r) (depth : Nat) :
    (unfold s)^[r] rest depth scene block = execAt s depth scene block :=
  iterate_unfold_of_le s rest (fun _ hp ↦ blockSize_le_tableSize hp) hr depth

end MeteredContract
