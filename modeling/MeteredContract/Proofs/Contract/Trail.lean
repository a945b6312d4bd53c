import MeteredContract.Proofs.Contract.Selection
import MeteredContract.Proofs.Execution.Trail

/-!
Where a call of a contract failed. A fault that was raised while the body of the transition ran has
the trail of the procedures that were active, innermost first, with the transition at its end
(`Handling.Backtrace`). A fault of the validation of the message before the body, or of the
settlement of what was sent after it, has none (`failure_located`).
-/

set_option autoImplicit false
set_option relaxedAutoImplicit false

namespace MeteredContract

theorem untraced_of_settle {balance : Tokens} {emitted : List Value} {f : Fault}
    (h : settle balance emitted = .error f) : f.Untraced := by
  unfold settle at h
  split at h
  · cases h
    rfl
  · split at h
    · cases h
    · cases h
      rfl

namespace Handling

/-- The trail of a fault that was raised in the body of the selected transition: calls of procedures
that are declared before it, nested in each other, and then the transition itself, which no
statement calls. -/
structure Backtrace (m : Module) (sel : Selected) (f : Fault) (calls : Trail) : Prop where
  trail : f.trail = some (calls ++ [⟨sel.callee.procedure.name, none⟩])
  declared : ∃ before after, m.components = before ++ sel.callee.procedure :: after ∧
    sel.callee.visible = before.filter (·.kind = .procedure)
  /-- Each call is made, at its position, by the body of the component that follows in the trail. -/
  nested : Nested sel.callee.visible (blockCalls sel.callee.procedure.body) calls
  known : ∀ c ∈ calls, positionOf sel.callee.visible c.name < sel.callee.visible.length
  ordered : calls.Pairwise fun c d ↦
    positionOf sel.callee.visible c.name < positionOf sel.callee.visible d.name
  distinct : (calls.map (·.name)).Nodup
  length_le : calls.length ≤ sel.callee.visible.length

/-- How the body of a selected transition ends. -/
def bodyRun (depthLimit : Nat) (h : Handling) (sel : Selected) : Except Fault Unit × Session :=
  exec (h.setting depthLimit) depthLimit (sel.scene h.before h.delivery.chain)
    sel.callee.procedure.body (sel.session h.before h.storeBefore h.delivery.gas)

/-- The three places where a call can fail, with the trail of its fault. -/
inductive FailedIn (depthLimit : Nat) (m : Module) (h : Handling) (f : Fault) : Prop
  | validation {c : Cause} (hselect : select m h.delivery.message = .error c)
    (htrail : f.trail = none)
  | body {sel : Selected} {t : Session} {calls : Trail}
    (hselect : select m h.delivery.message = .ok sel)
    (hrun : h.bodyRun depthLimit sel = (.error f, t)) (htrace : Backtrace m sel f calls)
  | settlement {sel : Selected} {t : Session} (hselect : select m h.delivery.message = .ok sel)
    (hrun : h.bodyRun depthLimit sel = (.ok (), t))
    (hsettle : settle t.balance t.emitted = .error f) (htrail : f.trail = none)

theorem backtrace_of_select {m : Module} {message : List (String × Value)} {sel : Selected}
    (hselect : select m message = .ok sel) {s : Setting} {room : Nat} {state : ContractState}
    {chain : Chain} {t u : Session} {f : Fault}
    (hrun : exec s room (sel.scene state chain) sel.callee.procedure.body t = (.error f, u)) :
    ∃ calls, Backtrace m sel f calls := by
  obtain ⟨tag, hfound, -⟩ := exists_of_select hselect
  obtain ⟨-, -, hdeclared⟩ := eq_append_of_findTransition? hfound
  have hscene : (sel.scene state chain).trail ≠ [] := List.cons_ne_nil _ _
  obtain ⟨calls, hnested, htrail⟩ := (exec_traces s room hscene _).of_error hrun
  obtain ⟨hknown, hordered⟩ := hnested.ordered
  exact ⟨calls, htrail, hdeclared, hnested, hknown, hordered, hnested.nodup_names,
    hnested.length_le⟩

end Handling

open Handling

/-- A call that fails did so while the message was validated, in the body of the transition, or when
what was sent was settled, and the trail of its fault is as it should be. -/
theorem failure_located (depthLimit : Nat) (m : Module) (state : ContractState) (store : Store)
    (d : Delivery) (f : Fault)
    (hf : (deliver depthLimit m state store d).outcome.result = .error f) :
    (deliver depthLimit m state store d).FailedIn depthLimit m f := by
  rcases deliver_cases depthLimit m state store d with ⟨c, hselect, houtcome⟩ | ⟨p, hp, -⟩
  · rw [houtcome] at hf
    cases hf
    exact .validation hselect rfl
  · have hstart := hp
    obtain ⟨sel, hselect, rfl⟩ := hstart
    cases hrun : (deliver depthLimit m state store d).bodyRun depthLimit sel with
    | mk result t =>
      obtain ⟨pending, hresult⟩ := hp.outcome hrun
      rw [hf] at hresult
      cases result with
      | error g =>
        cases hresult
        obtain ⟨calls, htrace⟩ := backtrace_of_select hselect hrun
        exact .body hselect hrun htrace
      | ok _ =>
        cases hsettle : settle t.balance t.emitted with
        | error g =>
          rw [hsettle] at hresult
          cases hresult
          exact .settlement hselect hrun hsettle (untraced_of_settle hsettle)
        | ok rest =>
          rw [hsettle] at hresult
          cases hresult

namespace Cascade

/-- The transition calls a procedure within a clause, which calls another for each element of a
list, which throws. Two procedures have the same name; the first is the one that is called. -/
def code : Module where
  name := "Cascade"
  imports := []
  library := none
  params := []
  constraint := none
  fields := []
  components :=
    [ ⟨.procedure, "stop", [⟨"item", .uint32⟩], [.located ⟨40, 45⟩ (.throw none)]⟩,
      ⟨.procedure, "each", [⟨"items", .list .uint32⟩],
        [.located ⟨60, 70⟩ (.forEach "items" "stop")]⟩,
      ⟨.procedure, "stop", [⟨"item", .uint32⟩], []⟩,
      ⟨.transition, "go", [⟨"items", .list .uint32⟩],
        [ .matching "items" [⟨.binder "all", [.located ⟨80, 90⟩ (.call "each" ["all"])]⟩] ]⟩ ]

def state : ContractState where
  env := .empty
  frames := #[]
  fields := []
  balance := .zero
  datatypes := .standard

def order : Delivery where
  message :=
    [ (Label.tag, .str "go"),
      (Label.amount, .int (.ofTokens .zero)),
      (Label.sender, .bystrx (List.replicate addressWidth 7)),
      ("items", .data "List" "Cons" [.uint32]
        [.int (.ofUInt32 1), .data "List" "Nil" [.uint32] []]) ]
  chain := .empty
  gas := 10

def handling : Handling := deliver 2 code state .empty order

end Cascade

/-- The trail goes from the procedure that throws out to the transition. -/
theorem failure_located_cascade :
    ∃ f, Cascade.handling.outcome.result = .error f ∧
      f.trail = some [⟨"stop", some ⟨60, 70⟩⟩, ⟨"each", some ⟨80, 90⟩⟩, ⟨"go", none⟩] ∧
      Cascade.handling.FailedIn 2 Cascade.code f := by
  have htrail : (match Cascade.handling.outcome.result with
      | .error f => f.trail
      | .ok _ => none) =
      some [⟨"stop", some ⟨60, 70⟩⟩, ⟨"each", some ⟨80, 90⟩⟩, ⟨"go", none⟩] := by decide +kernel
  cases hresult : Cascade.handling.outcome.result with
  | ok r =>
    rw [hresult] at htrail
    cases htrail
  | error f =>
    rw [hresult] at htrail
    exact ⟨f, rfl, htrail,
      failure_located 2 Cascade.code Cascade.state .empty Cascade.order f hresult⟩

end MeteredContract
