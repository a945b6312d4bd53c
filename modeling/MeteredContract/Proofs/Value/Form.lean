import MeteredContract.Gas.Size
import MeteredContract.Proofs.Value.Parts
import MeteredContract.Value.Text

/-!
The form of a value: what is left of it without the types that are noted in it and without the code
and scope of its closures (`Value.form`). Nothing that is asked of a value looks further: not its
text and kind, not its size, not whether it is pure or may be sent, and not matching, which takes a
value and its form apart in the same way (`DataHom.firstMatch`).
-/

set_option autoImplicit false
set_option relaxedAutoImplicit false

namespace MeteredContract

namespace Value

mutual

/-- The value without noted types and without the contents of closures, which are only told apart
by `name`. -/
def form (name : ClosureId → ClosureId) : Value → Value
  | .closure id .. => .closure (name id) "" .unit (.var "") .empty
  | .tyClosure id .. => .tyClosure (name id) "" (.var "") .empty
  | .data tyName constructor _ args => .data tyName constructor [] (formAll name args)
  | .map ⟨_, _, es⟩ => .map ⟨.unit, .unit, formEntries name es⟩
  | .message es => .message (formMessage name es)
  | .int i => .int i
  | .str s => .str s
  | .bnum n => .bnum n
  | .bystrx b => .bystrx b
  | .bystr b => .bystr b

def formAll (name : ClosureId → ClosureId) : List Value → List Value
  | [] => []
  | v :: vs => form name v :: formAll name vs

def formEntries (name : ClosureId → ClosureId) : List (Value × Value) → List (Value × Value)
  | [] => []
  | (k, v) :: es => (form name k, form name v) :: formEntries name es

def formMessage (name : ClosureId → ClosureId) : List (EntryOf Value) → List (EntryOf Value)
  | [] => []
  | ⟨n, _, v⟩ :: es => ⟨n, .unit, form name v⟩ :: formMessage name es

end

variable (name : ClosureId → ClosureId)

theorem formAll_eq (vs : List Value) : formAll name vs = vs.map (form name) := by
  induction vs with
  | nil => rfl
  | cons v vs ih => rw [formAll, ih, List.map_cons]

theorem formEntries_eq (es : List (Value × Value)) :
    formEntries name es = es.map fun e ↦ (e.1.form name, e.2.form name) := by
  induction es with
  | nil => rfl
  | cons e es ih => rw [formEntries, ih, List.map_cons]

theorem formMessage_eq (es : List MessageEntry) :
    formMessage name es = es.map fun e ↦ ⟨e.name, .unit, e.value.form name⟩ := by
  induction es with
  | nil => rfl
  | cons e es ih => rw [formMessage, ih, List.map_cons]

theorem form_data (tyName constructor : String) (targs : List Ty) (args : List Value) :
    (data tyName constructor targs args).form name =
      .data tyName constructor [] (args.map (form name)) :=
  congrArg (data tyName constructor []) (formAll_eq name args)

theorem form_map (m : MapValue) :
    (map m).form name =
      .map ⟨.unit, .unit, m.entries.map fun e ↦ (e.1.form name, e.2.form name)⟩ :=
  congrArg (fun es ↦ map ⟨.unit, .unit, es⟩) (formEntries_eq name m.entries)

theorem form_message (es : List MessageEntry) :
    (message es).form name = .message (es.map fun e ↦ ⟨e.name, .unit, e.value.form name⟩) :=
  congrArg message (formMessage_eq name es)

/-! ### What is asked of a value -/

@[simp] theorem kind_form (v : Value) : (v.form name).kind = v.kind := by
  cases v <;> rfl

@[simp] theorem magnitude?_form (v : Value) : (v.form name).magnitude? = v.magnitude? := by
  cases v <;> rfl

theorem toBool?_data (tyName constructor : String) (targs targs' : List Ty)
    (args args' : List Value) :
    (data tyName constructor targs args).toBool? =
      (data tyName constructor targs' args').toBool? := by
  by_cases hTrue : tyName = "Bool" ∧ constructor = "True"
  · obtain ⟨rfl, rfl⟩ := hTrue
    rfl
  · by_cases hFalse : tyName = "Bool" ∧ constructor = "False"
    · obtain ⟨rfl, rfl⟩ := hFalse
      rfl
    · have hnone : ∀ targs args, (data tyName constructor targs args).toBool? = none := by
        intro targs args
        unfold toBool?
        split
        · next h => exact absurd ⟨(data.inj h).1, (data.inj h).2.1⟩ hTrue
        · next h => exact absurd ⟨(data.inj h).1, (data.inj h).2.1⟩ hFalse
        · rfl
      rw [hnone, hnone]

@[simp] theorem toBool?_form (v : Value) : (v.form name).toBool? = v.toBool? := by
  cases v with
  | data tyName constructor targs args =>
    rw [form_data]
    exact toBool?_data ..
  | _ => rfl

@[simp] theorem isPure_form (v : Value) : (v.form name).isPure = v.isPure := by
  induction v with
  | data tyName constructor targs args ih =>
    rw [Bool.eq_iff_iff, form_data, isPure, isPure, allPure_iff, allPure_iff, List.forall_mem_map]
    exact forall₂_congr fun v hv ↦ by rw [ih v hv]
  | map m ih =>
    rw [Bool.eq_iff_iff, form_map, isPure, isPure, entriesPure_iff, entriesPure_iff,
      List.forall_mem_map]
    exact forall₂_congr fun e he ↦ by rw [(ih e he).1, (ih e he).2]
  | message es ih =>
    rw [Bool.eq_iff_iff, form_message, isPure, isPure, messagePure_iff, messagePure_iff,
      List.forall_mem_map]
    exact forall₂_congr fun e he ↦ by rw [ih e he]
  | _ => rfl

@[simp] theorem isSendable_form (v : Value) : (v.form name).isSendable = v.isSendable := by
  induction v with
  | data tyName constructor targs args ih =>
    rw [form_data, isSendable, isSendable]
    induction args with
    | nil => rfl
    | cons v vs ihvs =>
      obtain ⟨hv, hvs⟩ := List.forall_mem_cons.mp ih
      rw [List.map_cons, allSendable, allSendable, hv, ihvs hvs]
  | _ => rfl

@[simp] theorem size_form (v : Value) : (v.form name).size = v.size := by
  induction v with
  | data tyName constructor targs args ih =>
    rw [form_data, size, size]
    induction args with
    | nil => rfl
    | cons v vs ihvs =>
      obtain ⟨hv, hvs⟩ := List.forall_mem_cons.mp ih
      rw [List.map_cons, sizeAll, sizeAll, hv, ihvs hvs]
  | map m ih =>
    obtain ⟨keyTy, valTy, es⟩ := m
    rw [form_map, size, size]
    induction es with
    | nil => rfl
    | cons e es ihes =>
      obtain ⟨⟨hkey, hval⟩, hes⟩ := List.forall_mem_cons.mp ih
      rw [List.map_cons, sizeEntries, sizeEntries, hkey, hval, ihes hes]
  | message es ih =>
    rw [form_message, size, size]
    induction es with
    | nil => rfl
    | cons e es ihes =>
      obtain ⟨hval, hes⟩ := List.forall_mem_cons.mp ih
      rw [List.map_cons, sizeMessage, sizeMessage, hval, ihes hes]
  | _ => rfl

theorem text_data (tyName constructor : String) (targs : List Ty) (args : List Value) :
    (data tyName constructor targs args).text =
      if args.isEmpty then constructor else "(" ++ constructor ++ textArgs args ++ ")" := by
  cases args <;> rfl

@[simp] theorem text_form (v : Value) : (v.form name).text = v.text := by
  induction v with
  | data tyName constructor targs args ih =>
    have hargs : textArgs (args.map (form name)) = textArgs args := by
      induction args with
      | nil => rfl
      | cons v vs ihvs =>
        obtain ⟨hv, hvs⟩ := List.forall_mem_cons.mp ih
        rw [List.map_cons, textArgs, textArgs, hv, ihvs hvs]
    rw [form_data, text_data, text_data, hargs, List.isEmpty_map]
  | map m ih =>
    obtain ⟨keyTy, valTy, es⟩ := m
    rw [form_map, text, text]
    congr 3
    induction es with
    | nil => rfl
    | cons e es ihes =>
      obtain ⟨⟨hkey, hval⟩, hes⟩ := List.forall_mem_cons.mp ih
      rw [List.map_cons, textEntries, textEntries, hkey, hval, ihes hes]
  | message es ih =>
    rw [form_message, text, text]
    congr 3
    induction es with
    | nil => rfl
    | cons e es ihes =>
      obtain ⟨hval, hes⟩ := List.forall_mem_cons.mp ih
      rw [List.map_cons, textMessage, textMessage, hval, ihes hes]
  | _ => rfl

end Value

/-! ### Taking values apart -/

theorem Value.toList?_of_kind_ne {v : Value} (h : v.kind ≠ .data) : v.toList? = none := by
  cases v <;> first | rfl | exact absurd rfl h

theorem Pattern.matchOnto_of_kind_ne (c : String) (ps : List Pattern) {v : Value}
    (h : v.kind ≠ .data) (binds : List (String × Value)) :
    (Pattern.constructor c ps).matchOnto v binds = (false, binds) := by
  cases v <;> first | rfl | exact absurd rfl h

/-- The map goes through constructor values to their arguments, and makes no others. -/
structure DataHom (f : Value → Value) : Prop where
  data : ∀ tyName constructor targs args, ∃ targs',
    f (.data tyName constructor targs args) = .data tyName constructor targs' (args.map f)
  kind : ∀ v, (f v).kind = v.kind

theorem Value.dataHom_form (name : ClosureId → ClosureId) : DataHom (form name) where
  data _ _ _ _ := ⟨_, form_data name _ _ _ _⟩
  kind := kind_form name

namespace DataHom

variable {f : Value → Value}

theorem toList?_map (hf : DataHom f) (v : Value) :
    (f v).toList? = v.toList?.map (List.map f) := by
  fun_induction Value.toList? v with
  | case1 targs =>
    obtain ⟨targs', h⟩ := hf.data "List" "Nil" targs []
    rw [h]
    rfl
  | case2 targs head tail ih =>
    obtain ⟨targs', h⟩ := hf.data "List" "Cons" targs [head, tail]
    rw [h]
    simp only [List.map_cons, List.map_nil, Value.toList?, ih, Option.map_map]
    rfl
  | case3 v hnil hcons =>
    rw [Option.map_none]
    by_cases hkind : v.kind = .data
    · cases v with
      | data tyName constructor targs args =>
        obtain ⟨targs', hdata⟩ := hf.data tyName constructor targs args
        rw [hdata]
        unfold Value.toList?
        split
        · next h =>
          obtain ⟨rfl, rfl, -, hargs⟩ := Value.data.inj h
          obtain rfl := List.map_eq_nil_iff.mp hargs
          exact (hnil targs rfl).elim
        · next head tail h =>
          obtain ⟨rfl, rfl, -, hargs⟩ := Value.data.inj h
          obtain ⟨v, rest, rfl, -, hrest⟩ := List.map_eq_cons_iff.mp hargs
          obtain ⟨w, rest, rfl, -, hrest⟩ := List.map_eq_cons_iff.mp hrest
          obtain rfl := List.map_eq_nil_iff.mp hrest
          exact (hcons targs v w rfl).elim
        · rfl
      | _ => cases hkind
    · exact Value.toList?_of_kind_ne (hf.kind v ▸ hkind)

/-- Bindings of the images of values. -/
def mapBinds (f : Value → Value) (binds : List (String × Value)) : List (String × Value) :=
  binds.map fun b ↦ (b.1, f b.2)

mutual

theorem matchOnto_map (hf : DataHom f) : ∀ (p : Pattern) (v : Value) (binds : List (String × Value)),
    p.matchOnto (f v) (mapBinds f binds) = Prod.map id (mapBinds f) (p.matchOnto v binds)
  | .wildcard, _, _ => rfl
  | .binder _, _, _ => by simp [Pattern.matchOnto, mapBinds]
  | .constructor c ps, v, binds => by
    by_cases hkind : v.kind = .data
    · cases v with
      | data tyName c' targs args =>
        obtain ⟨targs', hdata⟩ := hf.data tyName c' targs args
        rw [hdata, Pattern.matchOnto, Pattern.matchOnto, List.length_map]
        split
        · exact matchAllOnto_map hf ps args binds
        · rfl
      | _ => cases hkind
    · rw [Pattern.matchOnto_of_kind_ne c ps hkind,
        Pattern.matchOnto_of_kind_ne c ps (hf.kind v ▸ hkind : (f v).kind ≠ .data)]
      rfl

theorem matchAllOnto_map (hf : DataHom f) : ∀ (ps : List Pattern) (vs : List Value)
    (binds : List (String × Value)),
    Pattern.matchAllOnto ps (vs.map f) (mapBinds f binds) =
      Prod.map id (mapBinds f) (Pattern.matchAllOnto ps vs binds)
  | [], _, _ => by simp [Pattern.matchAllOnto]
  | _ :: _, [], _ => rfl
  | p :: ps, v :: vs, binds => by
    rw [List.map_cons, Pattern.matchAllOnto, Pattern.matchAllOnto, matchOnto_map hf p v binds]
    cases p.matchOnto v binds with
    | mk fits binds =>
      cases fits with
      | false => rfl
      | true => exact matchAllOnto_map hf ps vs binds

end

/-- The value and its image match the same pattern, and bind the same names to a value and its
image. -/
theorem firstMatch_map (hf : DataHom f) (ps : List Pattern) (v : Value) :
    Pattern.firstMatch ps (f v) =
      (Pattern.firstMatch ps v).map fun r ↦ (r.1, r.2.map fun b ↦ (b.1, f b.2)) := by
  induction ps with
  | nil => rfl
  | cons p ps ih =>
    have hmatch : p.matchOnto (f v) [] = Prod.map id (mapBinds f) (p.matchOnto v []) :=
      hf.matchOnto_map p v []
    rw [Pattern.firstMatch, Pattern.firstMatch, hmatch]
    cases p.matchOnto v [] with
    | mk fits binds =>
      cases fits with
      | true => rfl
      | false =>
        show (Pattern.firstMatch ps (f v)).map _ = ((Pattern.firstMatch ps v).map _).map _
        rw [ih, Option.map_map, Option.map_map]
        rfl

end DataHom

end MeteredContract
