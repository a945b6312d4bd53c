import MeteredContract.Contract.Dispatch
import MeteredContract.Proofs.Contract.Arguments
import MeteredContract.Proofs.Metering.Law
import MeteredContract.Proofs.Primitive

/-!
Whatever a run reads, computes or checks on its way may fail, but not for want of gas, which only
paying a charge does, and not by an exception, which only a program throws. So all these are
`Ordinary`.
-/

set_option autoImplicit false
set_option relaxedAutoImplicit false

namespace MeteredContract

/-- The cause is neither a lack of gas nor an exception. -/
def Cause.isOrdinary : Cause → Bool
  | .outOfGas _ _ => false
  | .thrown _ => false
  | _ => true

/-- A result that is no fault, or one with an ordinary cause. -/
def Ordinary {α : Type} (x : Except Cause α) : Prop := ∀ c, x = .error c → c.isOrdinary = true

namespace Ordinary

variable {α β : Type}

theorem ok (a : α) : Ordinary (.ok a) := nofun

theorem error {c : Cause} (h : c.isOrdinary = true) : Ordinary (.error c : Except Cause α) := by
  rintro _ ⟨⟩
  exact h

theorem bind {x : Except Cause α} {f : α → Except Cause β} (hx : Ordinary x)
    (hf : ∀ a, Ordinary (f a)) : Ordinary (x >>= f) := by
  cases x with
  | error c => exact error (hx c rfl)
  | ok a => exact hf a

theorem gasFree {x : Except Cause α} (hx : Ordinary x) : GasFree x := by
  rintro required remaining rfl
  cases hx _ rfl

end Ordinary

/-! ### Reading an environment -/

namespace Arena

variable (a : Arena) (env : Env)

theorem ordinary_lookup (x : String) : Ordinary (a.lookup env x) := by
  unfold lookup
  split
  · exact .ok _
  · exact .error rfl

theorem ordinary_lookupAll (xs : List String) : Ordinary (a.lookupAll env xs) := by
  induction xs with
  | nil => exact .ok _
  | cons x xs ih =>
    exact (a.ordinary_lookup env x).bind fun _ ↦ ih.bind fun _ ↦ .ok _

theorem ordinary_literal (l : Literal) : Ordinary (a.literal env l) := by
  unfold literal
  split
  · exact .ok _
  · split
    · exact .ok _
    · exact .error rfl

theorem ordinary_payload (p : Payload) : Ordinary (a.payload env p) := by
  cases p with
  | lit l => exact a.ordinary_literal env l
  | var x => exact a.ordinary_lookup env x

theorem ordinary_messageEntries (entries : List (String × Payload)) :
    Ordinary (a.messageEntries env entries) := by
  induction entries with
  | nil => exact .ok _
  | cons e rest ih =>
    obtain ⟨name, p⟩ := e
    refine (a.ordinary_payload env p).bind fun v ↦ ?_
    split
    · exact ih.bind fun _ ↦ .ok _
    · exact .error rfl

theorem ordinary_construct (types : Datatypes) (name : String) (targs : List Ty)
    (args : List String) : Ordinary (a.construct env types name targs args) := by
  unfold construct
  split
  · exact .error rfl
  · split
    · exact (a.ordinary_lookupAll env args).bind fun _ ↦ .ok _
    · exact .error rfl

end Arena

/-! ### Primitives and their prices -/

theorem Value.ordinary_typesFor (op : String) (vs : List Value) : Ordinary (typesFor op vs) := by
  induction vs with
  | nil => exact .ok _
  | cons v vs ih =>
    have hfirst : Ordinary (v.typeFor op) := by
      unfold typeFor
      split
      · exact .ok _
      · exact .error rfl
    exact hfirst.bind fun _ ↦ ih.bind fun _ ↦ .ok _

theorem Primitive.ordinary_find (name : String) (argTypes : List Ty) :
    Ordinary (find name argTypes) := by
  unfold find
  split
  · exact .error rfl
  · split
    · exact .error rfl
    · exact .ok _

/-- Running a primitive asks for no gas: its price is paid before. -/
theorem Primitive.ordinary_run (p : Primitive) (args : List Value) (ret : Ty) :
    Ordinary (p.run args ret) := by
  have hgives := p.gives_run args ret
  generalize p.run args ret = result at hgives
  cases hgives with
  | failure f => exact .error rfl
  | overflow => exact .error rfl
  | _ => exact .ok _

namespace Gas

theorem ordinary_argument (op : String) (args : List String) (i : Nat) :
    Ordinary (argument op args i) := by
  unfold argument
  split
  · exact .ok _
  · exact .error rfl

theorem ordinary_primitivePrice (p : Primitive) (argTypes : List Ty) (args : List String) :
    Ordinary (primitivePrice p argTypes args) := by
  have harg : ∀ i, Ordinary (argument p.name args i) := ordinary_argument p.name args
  unfold primitivePrice
  split
  all_goals try split
  all_goals
    first
    | exact .ok _
    | exact (harg _).bind fun _ ↦ .ok _
    | exact (harg _).bind fun _ ↦ (harg _).bind fun _ ↦ .ok _

theorem ordinary_price (op : String) (argTypes : List Ty) (args : List String) :
    Ordinary (price op argTypes args) := by
  unfold price
  split
  · exact ordinary_primitivePrice _ argTypes args
  · split
    · exact .ok _
    · exact .error rfl

theorem ordinary_evaluate {lookup : String → Except Cause Value}
    (hlookup : ∀ x, Ordinary (lookup x)) (c : Charge) : Ordinary (evaluate lookup c) := by
  induction c with
  | static n => exact .ok _
  | sizeOf x => exact (hlookup x).bind fun _ ↦ .ok _
  | valueOf x =>
    refine (hlookup x).bind fun v ↦ ?_
    split
    · exact .ok _
    · exact .error rfl
  | lengthOf x =>
    refine (hlookup x).bind fun v ↦ ?_
    split
    · exact .ok _
    · split
      · exact .ok _
      · exact .error rfl
  | mapSortCost x =>
    refine (hlookup x).bind fun v ↦ ?_
    split
    · exact .ok _
    · exact .error rfl
  | sum a b iha ihb => exact iha.bind fun _ ↦ ihb.bind fun _ ↦ .ok _
  | prod a b iha ihb => exact iha.bind fun _ ↦ ihb.bind fun _ ↦ .ok _
  | min a b iha ihb => exact iha.bind fun _ ↦ ihb.bind fun _ ↦ .ok _
  | divCeil a d ih =>
    unfold evaluate
    split
    · exact .error rfl
    · exact ih.bind fun _ ↦ .ok _
  | log a ih =>
    refine ih.bind fun r ↦ ?_
    split
    · exact .ok _
    · exact .error rfl

theorem ordinary_resolve {lookup : String → Except Cause Value}
    (hlookup : ∀ x, Ordinary (lookup x)) (c : Charge) : Ordinary (resolve lookup c) := by
  refine (ordinary_evaluate hlookup c).bind fun r ↦ ?_
  split
  · exact .ok _
  · exact .error rfl

end Gas

theorem Arena.ordinary_primitiveCall (a : Arena) (env : Env) (op : String) (args : List String) :
    Ordinary (a.primitiveCall env op args) :=
  (a.ordinary_lookupAll env args).bind fun vs ↦ (Value.ordinary_typesFor op vs).bind fun ts ↦
    (Primitive.ordinary_find op ts).bind fun _ ↦ (Gas.ordinary_price op ts args).bind fun _ ↦ .ok _

/-! ### Statements -/

/-- What a store reports is an ordinary cause. -/
theorem StoreFault.ordinary_cause {α : Type} (e : StoreFault) :
    Ordinary (.error e.cause : Except Cause α) := by
  cases e <;> exact .error rfl

theorem ordinary_positionalBindings (params : List Param) (args : List Value) :
    Ordinary (positionalBindings params args) := by
  unfold positionalBindings
  split
  · exact .error rfl
  · split
    · exact .error rfl
    · exact .ok _

namespace ExecM

theorem ordinary_elements (operation : String) (v : Value) : Ordinary (elements operation v) := by
  unfold elements
  split
  · exact .ok _
  · exact .error rfl

theorem ordinary_requireEntries (labels : List String) (v : Value) :
    Ordinary (requireEntries labels v) := by
  unfold requireEntries
  split
  · split
    · exact .error rfl
    · exact .ok _
  · exact .error rfl

theorem ordinary_requireAll (labels : List String) (vs : List Value) :
    Ordinary (requireAll labels vs) := by
  induction vs with
  | nil => exact .ok _
  | cons v vs ih => exact (ordinary_requireEntries labels v).bind fun _ ↦ ih

end ExecM

/-! ### Arguments and amounts -/

theorem ordinary_admitArguments (params : List Param) (args : List (String × Value))
    (trusted : List String) : Ordinary (admitArguments params args trusted) := by
  intro c hc
  rcases admitArguments_cases params args trusted with ⟨_, hok, -⟩ | ⟨_, herror, hrefused⟩
  · rw [hc] at hok
    cases hok
  · rw [hc] at herror
    cases herror
    cases hrefused <;> rfl

theorem ordinary_tokensOf (v : Value) : Ordinary (tokensOf v) := by
  unfold tokensOf
  split
  · split
    · exact .ok _
    · exact .error rfl
  · exact .error rfl

theorem ordinary_sentTokens (acc : Tokens) (msgs : List Value) :
    Ordinary (sentTokens acc msgs) := by
  induction msgs generalizing acc with
  | nil => exact .ok _
  | cons v rest ih =>
    cases v with
    | message es =>
      unfold sentTokens
      split
      · exact .error rfl
      · refine (ordinary_tokensOf _).bind fun amount ↦ ?_
        split
        · exact .error rfl
        · exact ih _
    | _ => exact .error rfl

/-- A message that fits no transition is refused without asking for gas. -/
theorem ordinary_select (m : Module) (message : List (String × Value)) :
    Ordinary (select m message) := by
  have htag : Ordinary (tagOf message) := by
    unfold tagOf
    split
    · exact .ok _
    · exact .error rfl
  refine htag.bind fun tag ↦ ?_
  split
  · exact .error rfl
  · refine (ordinary_admitArguments _ _ _).bind fun args ↦ ?_
    split
    · exact .ok _
    · exact (ordinary_tokensOf _).bind fun _ ↦ .ok _

end MeteredContract
