import MeteredContract.Proofs.Value.Form
import MeteredContract.Proofs.Value.Order
import Mathlib.Data.List.Forall2
import Mathlib.Data.Option.Basic

/-!
Equality in the order of values. Two values are equal in it exactly if they have the same form
(`Value.cmp_eq_iff_form`), so equality leaves out of account the types that a value notes, and what
is blind to these types cannot tell equal values apart (`Value.Alike`). The order with both halves
is `value_order`.
-/

set_option autoImplicit false
set_option relaxedAutoImplicit false

namespace MeteredContract

/-- Lists are equal in an order if their members are, one by one. -/
theorem compareLex_eq_iff_map {α β : Type} {cmp : α → α → Ordering} {f : α → β} {as : List α}
    (h : ∀ a ∈ as, ∀ b, cmp a b = .eq ↔ f a = f b) (bs : List α) :
    List.compareLex cmp as bs = .eq ↔ as.map f = bs.map f := by
  induction as generalizing bs with
  | nil => cases bs <;> exact ⟨fun heq ↦ by cases heq <;> rfl, fun heq ↦ by cases heq <;> rfl⟩
  | cons a as ih =>
    obtain ⟨hfirst, hrest⟩ := List.forall_mem_cons.mp h
    cases bs with
    | nil => exact ⟨fun heq ↦ (by cases heq), fun heq ↦ (by cases heq)⟩
    | cons b bs =>
      rw [List.compareLex_cons_cons, Ordering.then_eq_eq, hfirst b, ih hrest bs, List.map_cons,
        List.map_cons, List.cons.injEq]

theorem forall₂_of_map_eq {α β : Type} {r : α → α → Prop} {f : α → β}
    (h : ∀ a b, f a = f b → r a b) {as bs : List α} (hmap : as.map f = bs.map f) :
    List.Forall₂ r as bs := by
  rw [← List.forall₂_eq_eq_eq, List.forall₂_map_left_iff, List.forall₂_map_right_iff] at hmap
  exact hmap.imp h

theorem rel_of_map_eq {α β : Type} {r : α → α → Prop} {f : α → β} (h : ∀ a b, f a = f b → r a b)
    {o p : Option α} (hmap : o.map f = p.map f) : Option.Rel r o p := by
  cases o with
  | none =>
    obtain rfl := Option.map_eq_none_iff.mp hmap.symm
    exact .none
  | some a =>
    obtain ⟨b, rfl, hb⟩ := Option.map_eq_some_iff.mp hmap.symm
    exact .some (h a b hb.symm)

theorem cmpBytes_eq_iff {bs cs : List UInt8} : cmpBytes bs cs = .eq ↔ bs = cs := by
  rw [cmpBytes_eq]
  exact Std.LawfulEqCmp.compare_eq_iff_eq

theorem FixedInt.cmp_eq_iff {i j : FixedInt} : i.cmp j = .eq ↔ i = j :=
  ⟨eq_of_cmp, fun h ↦ h ▸ Std.ReflCmp.compare_self⟩

theorem ClosureId.cmp_eq_iff {id id' : ClosureId} : id.cmp id' = .eq ↔ id = id' := by
  refine ⟨fun h ↦ ?_, fun h ↦ h ▸ Std.ReflCmp.compare_self⟩
  cases id <;> cases id' <;> first
    | exact congrArg _ (Nat.compare_eq_eq.mp h)
    | cases h

namespace Value

theorem form_kind {v w : Value} {name : ClosureId → ClosureId} (h : v.form name = w.form name) :
    v.kind = w.kind := by
  rw [← kind_form name v, h, kind_form]

/-- Of values of different kinds there is nothing to show. -/
theorem cmp_eq_iff_form_of_kind {v w : Value}
    (h : v.kind = w.kind → (v.cmp w = .eq ↔ v.form id = w.form id)) :
    v.cmp w = .eq ↔ v.form id = w.form id := by
  by_cases hkind : v.kind = w.kind
  · exact h hkind
  · exact ⟨fun heq ↦ absurd (kind_eq_of_cmp heq) hkind, fun heq ↦ absurd (form_kind heq) hkind⟩

/-- Values are equal in the order exactly if they have the same form. -/
theorem cmp_eq_iff_form (v w : Value) : v.cmp w = .eq ↔ v.form id = w.form id := by
  refine cmp_eq_iff_form_of_kind fun hkind ↦ ?_
  induction v generalizing w with
  | int i =>
    cases w with
    | int j => rw [cmp, form, form, FixedInt.cmp_eq_iff, int.injEq]
    | _ => cases hkind
  | str s =>
    cases w with
    | str t => rw [cmp, form, form, Std.LawfulEqCmp.compare_eq_iff_eq, str.injEq]
    | _ => cases hkind
  | bnum n =>
    cases w with
    | bnum m => rw [cmp, form, form, Std.LawfulEqCmp.compare_eq_iff_eq, bnum.injEq]
    | _ => cases hkind
  | bystrx b =>
    cases w with
    | bystrx c => rw [cmp, form, form, cmpBytes_eq_iff, bystrx.injEq]
    | _ => cases hkind
  | bystr b =>
    cases w with
    | bystr c => rw [cmp, form, form, cmpBytes_eq_iff, bystr.injEq]
    | _ => cases hkind
  | closure key param ty body env =>
    cases w with
    | closure => simp [cmp, form, ClosureId.cmp_eq_iff]
    | _ => cases hkind
  | tyClosure key tvar body env =>
    cases w with
    | tyClosure => simp [cmp, form, ClosureId.cmp_eq_iff]
    | _ => cases hkind
  | data tyName constructor targs args ih =>
    cases w with
    | data tyName' constructor' targs' args' =>
      have hargs : ∀ v ∈ args, ∀ w, v.cmp w = .eq ↔ v.form id = w.form id := fun v hv w ↦
        cmp_eq_iff_form_of_kind (ih v hv w)
      rw [cmp, Ordering.then_eq_eq, Ordering.then_eq_eq, Std.LawfulEqCmp.compare_eq_iff_eq,
        Std.LawfulEqCmp.compare_eq_iff_eq, cmpAll_eq, compareLex_eq_iff_map hargs, form_data,
        form_data]
      simp only [data.injEq, true_and]
    | _ => cases hkind
  | map m ih =>
    cases w with
    | map m' =>
      have hentries : ∀ e ∈ m.entries, ∀ f, cmpEntry e f = .eq ↔
          (e.1.form id, e.2.form id) = (f.1.form id, f.2.form id) := fun e he f ↦ by
        rw [cmpEntry, compareLex_eq_eq, cmp_eq_iff_form_of_kind ((ih e he).1 f.1),
          cmp_eq_iff_form_of_kind ((ih e he).2 f.2), Prod.mk.injEq]
      rw [cmp, cmpEntries_eq, compareLex_eq_iff_map hentries, form_map, form_map]
      simp only [map.injEq, TypedMap.mk.injEq, true_and]
    | _ => cases hkind
  | message es ih =>
    cases w with
    | message es' =>
      have hentries : ∀ e ∈ es, ∀ f, cmpMessageEntry e f = .eq ↔
          (⟨e.name, .unit, e.value.form id⟩ : MessageEntry) = ⟨f.name, .unit, f.value.form id⟩ :=
        fun e he f ↦ by
          rw [cmpMessageEntry, compareLex_eq_eq, compareOn, Std.LawfulEqCmp.compare_eq_iff_eq,
            cmp_eq_iff_form_of_kind (ih e he f.value)]
          simp only [EntryOf.mk.injEq, true_and]
      rw [cmp, cmpMessage_eq, compareLex_eq_iff_map hentries, form_message, form_message,
        message.injEq]
    | _ => cases hkind

/-! ### What equality shows -/

/-- Nothing that is asked of values tells the two apart: where the answer holds values, the answers
hold equal values in the same places. -/
structure Alike (v w : Value) : Prop where
  cmp : ∀ u : Value, v.cmp u = w.cmp u
  text : v.text = w.text
  kind : v.kind = w.kind
  size : v.size = w.size
  isPure : v.isPure = w.isPure
  isSendable : v.isSendable = w.isSendable
  magnitude? : v.magnitude? = w.magnitude?
  toBool? : v.toBool? = w.toBool?
  length? : v.toList?.map List.length = w.toList?.map List.length
  toList? : Option.Rel (List.Forall₂ fun x y ↦ x.cmp y = .eq) v.toList? w.toList?
  firstMatch : ∀ ps : List Pattern,
    Option.Rel (fun r s ↦ r.1 = s.1 ∧
        List.Forall₂ (fun b c ↦ b.1 = c.1 ∧ b.2.cmp c.2 = .eq) r.2 s.2)
      (Pattern.firstMatch ps v) (Pattern.firstMatch ps w)

/-- A question whose answer does not change with the form has one answer for equal values. -/
theorem eq_of_cmp {α : Type} {f : Value → α} (hf : ∀ v : Value, f (v.form id) = f v)
    {v w : Value} (h : v.cmp w = .eq) : f v = f w := by
  rw [← hf v, (cmp_eq_iff_form v w).mp h, hf]

theorem toList?_of_cmp {v w : Value} (h : v.cmp w = .eq) :
    Option.Rel (List.Forall₂ fun x y ↦ x.cmp y = .eq) v.toList? w.toList? := by
  have hforms : v.toList?.map (List.map (form id)) = w.toList?.map (List.map (form id)) := by
    rw [← (dataHom_form id).toList?_map, ← (dataHom_form id).toList?_map,
      (cmp_eq_iff_form v w).mp h]
  refine rel_of_map_eq (fun xs ys hitems ↦ ?_) hforms
  exact forall₂_of_map_eq (fun x y hform ↦ (cmp_eq_iff_form x y).mpr hform) hitems

theorem firstMatch_of_cmp {v w : Value} (h : v.cmp w = .eq) (ps : List Pattern) :
    Option.Rel (fun r s ↦ r.1 = s.1 ∧
        List.Forall₂ (fun b c ↦ b.1 = c.1 ∧ b.2.cmp c.2 = .eq) r.2 s.2)
      (Pattern.firstMatch ps v) (Pattern.firstMatch ps w) := by
  have hforms := congrArg (Pattern.firstMatch ps) ((cmp_eq_iff_form v w).mp h)
  rw [(dataHom_form id).firstMatch_map, (dataHom_form id).firstMatch_map] at hforms
  refine rel_of_map_eq (fun r s hmatch ↦ ?_) hforms
  obtain ⟨hclause, hbindings⟩ := Prod.mk.inj hmatch
  refine ⟨hclause, forall₂_of_map_eq (fun b c hbinding ↦ ?_) hbindings⟩
  obtain ⟨hname, hform⟩ := Prod.mk.inj hbinding
  exact ⟨hname, (cmp_eq_iff_form b.2 c.2).mpr hform⟩

theorem alike_of_cmp {v w : Value} (h : v.cmp w = .eq) : Alike v w where
  cmp _ := Std.TransCmp.congr_left h
  text := eq_of_cmp (text_form id) h
  kind := kind_eq_of_cmp h
  size := eq_of_cmp (size_form id) h
  isPure := eq_of_cmp (isPure_form id) h
  isSendable := eq_of_cmp (isSendable_form id) h
  magnitude? := eq_of_cmp (magnitude?_form id) h
  toBool? := eq_of_cmp (toBool?_form id) h
  length? := eq_of_cmp (f := fun v ↦ v.toList?.map List.length) (fun v ↦ by
    rw [(dataHom_form id).toList?_map, Option.map_map]
    exact congrArg (Option.map · v.toList?) (funext fun _ ↦ List.length_map _)) h
  toList? := toList?_of_cmp h
  firstMatch := firstMatch_of_cmp h

end Value

/-- The order of values is a total preorder. What is equal in it differs in noted types at most, and
nothing that is asked of values tells it apart. -/
theorem value_order (a b c : Value) :
    a.cmp a = .eq ∧
    b.cmp a = (a.cmp b).swap ∧
    ((a.cmp b).isLE = true → (b.cmp c).isLE = true → (a.cmp c).isLE = true) ∧
    (∀ o : Ordering, a.cmp b = o → b.cmp c = o → a.cmp c = o) ∧
    (a.cmp b = .eq ↔ a.form id = b.form id) ∧
    (a.cmp b = .eq → a.cmp c = b.cmp c ∧ a.Alike b) := by
  refine ⟨Std.ReflCmp.compare_self, Std.OrientedCmp.eq_swap, Std.TransCmp.isLE_trans, ?_,
    Value.cmp_eq_iff_form a b, fun h ↦ ⟨Std.TransCmp.congr_left h, Value.alike_of_cmp h⟩⟩
  rintro o hab hbc
  cases o with
  | lt => exact Std.TransCmp.lt_trans hab hbc
  | eq => exact Std.TransCmp.eq_trans hab hbc
  | gt => exact Std.TransCmp.gt_trans hab hbc

/-- Two empty options of different types are one value to the order. -/
theorem value_order_none :
    let number : Value := .data "Option" "None" [.uint32] []
    let text : Value := .data "Option" "None" [.string] []
    number ≠ text ∧ number.cmp text = .eq ∧ number.Alike text := by
  intro number text
  have heq : number.cmp text = .eq := by decide
  have hne : number ≠ text := fun h ↦ nomatch List.head_eq_of_cons_eq (Value.data.inj h).2.2.1
  exact ⟨hne, heq, ((value_order number text number).2.2.2.2.2 heq).2⟩

end MeteredContract
