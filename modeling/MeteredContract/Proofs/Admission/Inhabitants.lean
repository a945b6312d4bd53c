import MeteredContract.Datatype
import MeteredContract.Proofs.Admission.Parts
import MeteredContract.Proofs.Value.Elements

/-!
What an accepted value of a built-in datatype is. The check goes by the name and the type arguments
of a constructor value. It does not look for the constructor among those of the datatype, nor does
it count arguments: what it cannot give types to is left out. If the nodes of a value carry
constructors of their datatype with as many arguments as these take (`Value.WellShaped`), then the
value is what the type that accepts it says, and its parts are accepted in turn
(`accepted_inhabits`). Of each datatype there are accepted values without that which are not
(`accepted_not_inhabits`).
-/

set_option autoImplicit false
set_option relaxedAutoImplicit false

namespace MeteredContract

namespace Value

/-- If the value is a node of a datatype that every program has, then it carries a constructor of
the datatype, with as many arguments as the constructor takes. -/
def HeadShaped : Value → Prop
  | .data tyName constructor _ args => ∀ d, Datatypes.standard.type? tyName = some d →
    ∃ c ∈ d.constructors, c.name = constructor ∧ c.argTypes.length = args.length
  | _ => True

/-- The nodes that make up the value are as its datatype has them: the value itself and, in a list,
the nodes after it. -/
def WellShaped : Value → Prop
  | .data "List" "Cons" _ [_, tail] => tail.WellShaped
  | v => v.HeadShaped

/-- What it takes to be a boolean, an option, a list, a pair or a map of a type, when the parts are
taken to have their types if they are accepted for them. The keys and values of a map are accepted
for the types in the type of the map and for those that the map declares. -/
def Inhabits (name : String) (v : Value) : Ty → Prop
  | .data "Bool" [] => ∃ b, v.toBool? = some b
  | .data "Option" [t] => (∃ targs, v = .data "Option" "None" targs []) ∨
      ∃ targs w, v = .data "Option" "Some" targs [w] ∧ w.Accepts name t
  | .data "List" [t] => ∃ items, v.toList? = some items ∧ ∀ w ∈ items, w.Accepts name t
  | .data "Pair" [t, t'] => ∃ targs w w', v = .data "Pair" "Pair" targs [w, w'] ∧
      w.Accepts name t ∧ w'.Accepts name t'
  | .map key val => ∃ m : MapValue, v = .map m ∧ ∀ e ∈ m.entries,
      (e.1.Accepts name key ∧ e.2.Accepts name val) ∧
        e.1.Accepts name m.keyTy ∧ e.2.Accepts name m.valTy
  | _ => True

variable {name constructor : String} {targs : List Ty} {args : List Value} {t t' : Ty} {v : Value}

theorem WellShaped.head (h : v.WellShaped) : v.HeadShaped := by
  unfold WellShaped at h
  split at h
  · rintro d ⟨⟩
    exact ⟨_, List.mem_cons_self, rfl, rfl⟩
  · exact h

theorem HeadShaped.bool (h : (data "Bool" constructor targs args).HeadShaped) :
    constructor = "True" ∨ constructor = "False" := by
  obtain ⟨c, hc, rfl, -⟩ := h ⟨"Bool", [], [⟨"True", []⟩, ⟨"False", []⟩]⟩ rfl
  exact (List.mem_pair.mp hc).imp (congrArg ConstructorDef.name) (congrArg ConstructorDef.name)

theorem HeadShaped.option (h : (data "Option" constructor targs args).HeadShaped) :
    (constructor = "None" ∧ args = []) ∨ ∃ v, constructor = "Some" ∧ args = [v] := by
  obtain ⟨c, hc, rfl, hlen⟩ := h ⟨"Option", ["'A"], [⟨"Some", [.var "'A"]⟩, ⟨"None", []⟩]⟩ rfl
  obtain rfl | rfl := List.mem_pair.mp hc
  · obtain ⟨v, rfl⟩ := List.length_eq_one_iff.mp hlen.symm
    exact .inr ⟨v, rfl, rfl⟩
  · exact .inl ⟨rfl, List.length_eq_zero_iff.mp hlen.symm⟩

theorem HeadShaped.list (h : (data "List" constructor targs args).HeadShaped) :
    (constructor = "Nil" ∧ args = []) ∨
      ∃ head tail, constructor = "Cons" ∧ args = [head, tail] := by
  obtain ⟨c, hc, rfl, hlen⟩ := h
    ⟨"List", ["'A"], [⟨"Cons", [.var "'A", .list (.var "'A")]⟩, ⟨"Nil", []⟩]⟩ rfl
  obtain rfl | rfl := List.mem_pair.mp hc
  · obtain ⟨head, tail, rfl⟩ := List.length_eq_two.mp hlen.symm
    exact .inr ⟨head, tail, rfl, rfl⟩
  · exact .inl ⟨rfl, List.length_eq_zero_iff.mp hlen.symm⟩

theorem HeadShaped.pair (h : (data "Pair" constructor targs args).HeadShaped) :
    ∃ v v', constructor = "Pair" ∧ args = [v, v'] := by
  obtain ⟨c, hc, rfl, hlen⟩ := h
    ⟨"Pair", ["'A", "'B"], [⟨"Pair", [.var "'A", .var "'B"]⟩]⟩ rfl
  obtain rfl := List.mem_singleton.mp hc
  obtain ⟨v, v', rfl⟩ := List.length_eq_two.mp hlen.symm
  exact ⟨v, v', rfl, rfl⟩

/-- A list that is accepted ends in `Nil`, and its elements are accepted. -/
theorem exists_toList?_of_accepts (h : v.Accepts name (.list t)) (hshape : v.WellShaped) :
    ∃ items, v.toList? = some items ∧ ∀ w ∈ items, w.Accepts name t := by
  induction v with
  | data tyName constructor targs args ih =>
    obtain ⟨hhead, hparts⟩ := accepts_iff.mp h
    obtain ⟨_, _, _, heq, -⟩ := hasHead_data.mp hhead
    cases heq
    obtain ⟨rfl, rfl⟩ | ⟨head, tail, rfl, rfl⟩ := hshape.head.list
    · exact ⟨[], rfl, List.forall_mem_nil _⟩
    · have hhead : head.Accepts name t := hparts (head, t) List.mem_cons_self
      have htail : tail.Accepts name (.list t) :=
        hparts (tail, .list t) (List.mem_cons_of_mem _ List.mem_cons_self)
      obtain ⟨items, hitems, haccepts⟩ :=
        ih tail (List.mem_cons_of_mem _ List.mem_cons_self) htail hshape
      refine ⟨head :: items, ?_, List.forall_mem_cons.mpr ⟨hhead, haccepts⟩⟩
      rw [toList?, hitems, Option.map_some]
  | _ =>
    obtain ⟨hhead, -⟩ := accepts_iff.mp h
    obtain ⟨_, _, _, heq, -⟩ := hasHead_data.mp hhead
    cases heq

/-- Whatever stands for a list is made up of well-shaped nodes. -/
theorem ListOf.wellShaped {items : List Value} (h : ListOf items v) : v.WellShaped := by
  induction h with
  | nil targs =>
    rintro d ⟨⟩
    exact ⟨_, List.mem_cons_of_mem _ List.mem_cons_self, rfl, rfl⟩
  | cons targs head htail ih => exact ih

/-- A type accepts what another type accepts that differs from it in address types only. -/
theorem Accepts.congr (h : v.Accepts name t) (heq : t.erase = t'.erase) : v.Accepts name t' := by
  rw [← accepts_erase, ← heq, accepts_erase]
  exact h

end Value

/-- A value that is accepted for a type of booleans, options, lists, pairs or maps is one, with parts
that are accepted for the types that they have in it. If it is a node of a datatype, the node and,
in a list, the nodes after it have to carry constructors of the datatype with as many arguments as
these take. -/
theorem accepted_inhabits (name : String) (v : Value) (t : Ty) (h : v.Accepts name t)
    (hshape : v.WellShaped) : v.Inhabits name t := by
  obtain ⟨hhead, hparts⟩ := Value.accepts_iff.mp h
  unfold Value.Inhabits
  split
  · obtain ⟨_, _, _, rfl, -⟩ := Value.hasHead_data.mp hhead
    obtain rfl | rfl := hshape.head.bool
    · exact ⟨true, rfl⟩
    · exact ⟨false, rfl⟩
  · obtain ⟨_, _, _, rfl, -⟩ := Value.hasHead_data.mp hhead
    obtain ⟨rfl, rfl⟩ | ⟨w, rfl, rfl⟩ := hshape.head.option
    · exact .inl ⟨_, rfl⟩
    · exact .inr ⟨_, w, rfl, hparts _ List.mem_cons_self⟩
  · exact Value.exists_toList?_of_accepts h hshape
  · obtain ⟨_, _, _, rfl, -⟩ := Value.hasHead_data.mp hhead
    obtain ⟨w, w', rfl, rfl⟩ := hshape.head.pair
    obtain ⟨hw, hw'⟩ := List.forall_mem_cons.mp hparts
    rw [List.forall_mem_singleton] at hw'
    exact ⟨_, w, w', rfl, hw, hw'⟩
  · next key val =>
    obtain ⟨m, rfl, hkey, hval⟩ := Value.hasHead_map.mp hhead
    refine ⟨m, rfl, fun e he ↦ ?_⟩
    have hentry : ∀ part ∈ [(e.1, key), (e.2, val)], part.1.Accepts name part.2 :=
      fun part hpart ↦ hparts part (List.mem_flatMap.mpr ⟨e, he, hpart⟩)
    obtain ⟨hk, hv⟩ := List.forall_mem_cons.mp hentry
    rw [List.forall_mem_singleton] at hv
    exact ⟨⟨hk, hv⟩, hk.congr hkey.symm, hv.congr hval.symm⟩
  · trivial

namespace Ballot

def vote (n : UInt32) : Value := .int (.ofUInt32 n)

def votes : Value := .list .uint32 [vote 3, vote 1]

end Ballot

theorem accepted_inhabits_ballot :
    Ballot.votes.Accepts "votes" (.list .uint32) ∧ Ballot.votes.WellShaped ∧
      Ballot.votes.Inhabits "votes" (.list .uint32) := by
  have haccepts : Ballot.votes.Accepts "votes" (.list .uint32) := ⟨[], rfl⟩
  have hlist : Value.ListOf [Ballot.vote 3, Ballot.vote 1] Ballot.votes :=
    .cons _ _ (.cons _ _ (.nil _))
  exact ⟨haccepts, hlist.wellShaped, accepted_inhabits _ _ _ haccepts hlist.wellShaped⟩

namespace Misshapen

def bool : Value := .data "Bool" "Maybe" [] []

def option : Value := .data "Option" "Some" [.uint32] []

def list : Value := .data "List" "Snoc" [.uint32] []

def pair : Value := .data "Pair" "Pair" [.uint32, .uint32] [Ballot.vote 3]

end Misshapen

/-- Values that are accepted for types of booleans, options, lists and pairs and are none. -/
theorem accepted_not_inhabits :
    (Misshapen.bool.Accepts "p" .bool ∧ ¬ Misshapen.bool.Inhabits "p" .bool) ∧
      (Misshapen.option.Accepts "p" (.option .uint32) ∧
        ¬ Misshapen.option.Inhabits "p" (.option .uint32)) ∧
      (Misshapen.list.Accepts "p" (.list .uint32) ∧
        ¬ Misshapen.list.Inhabits "p" (.list .uint32)) ∧
      Misshapen.pair.Accepts "p" (.pair .uint32 .uint32) ∧
        ¬ Misshapen.pair.Inhabits "p" (.pair .uint32 .uint32) := by
  refine ⟨⟨⟨[], rfl⟩, ?_⟩, ⟨⟨[], rfl⟩, ?_⟩, ⟨⟨[], rfl⟩, ?_⟩, ⟨[], rfl⟩, ?_⟩
  · rintro ⟨b, hb⟩
    cases hb
  · rintro (⟨targs, h⟩ | ⟨targs, w, h, -⟩)
    · exact absurd (Value.data.inj h).2.1 (by decide)
    · cases h
  · rintro ⟨items, hitems, -⟩
    cases hitems
  · rintro ⟨targs, w, w', h, -⟩
    cases h

end MeteredContract
