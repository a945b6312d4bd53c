import MeteredContract.Proofs.Induction
import MeteredContract.Value.Order

/-!
The order of values is a total preorder. It compares numbers and strings, and goes through the parts
of a value one after the other. `OrderedAt cmp a` says that `a` has its place in the order that
`cmp` decides; it is passed on to pairs (`OrderedAt.lex`), to lists (`OrderedAt.list`) and to the
values that a constructor makes (`OrderedAt.value`), so by induction every value has its place
(`Value.orderedAt`). Values of different kinds are told apart by their kinds alone.
-/

set_option autoImplicit false
set_option relaxedAutoImplicit false

namespace MeteredContract

/-- The element is one of a total preorder, as far as `cmp` compares it with others. Of transitivity
this is the part that lists hand on: it needs nothing of the elements that come after `a`. -/
structure OrderedAt {α : Type} (cmp : α → α → Ordering) (a : α) : Prop where
  refl : cmp a a = .eq
  swap : ∀ b, cmp b a = (cmp a b).swap
  congr : ∀ {b}, cmp a b = .eq → ∀ c, cmp a c = cmp b c
  trans : ∀ {b c}, cmp a b = .lt → (cmp b c).isLE = true → cmp a c = .lt

/-- If every element has its place, then the comparison is that of a total preorder. -/
theorem transCmp_of_orderedAt {α : Type} {cmp : α → α → Ordering} (h : ∀ a, OrderedAt cmp a) :
    Std.TransCmp cmp where
  eq_swap {a b} := (h b).swap a
  isLE_trans {a b c} hab hbc := by
    cases hcmp : cmp a b with
    | lt =>
      rw [(h a).trans hcmp hbc]
      rfl
    | eq =>
      rw [(h a).congr hcmp]
      exact hbc
    | gt =>
      rw [hcmp] at hab
      cases hab

namespace OrderedAt

variable {α β : Type} {cmp cmp' : α → α → Ordering} {a : α}

theorem of_transCmp [Std.TransCmp cmp] (a : α) : OrderedAt cmp a where
  refl := Std.ReflCmp.compare_self
  swap _ := Std.OrientedCmp.eq_swap
  congr h _ := Std.TransCmp.congr_left h
  trans := Std.TransCmp.lt_of_lt_of_isLE

theorem comap {f : β → α} {b : β} (h : OrderedAt cmp (f b)) :
    OrderedAt (fun x y ↦ cmp (f x) (f y)) b where
  refl := h.refl
  swap y := h.swap (f y)
  congr heq y := h.congr heq (f y)
  trans := h.trans

/-- Two comparisons, the second where the first sees no difference. -/
theorem lex (h : OrderedAt cmp a) (h' : OrderedAt cmp' a) : OrderedAt (compareLex cmp cmp') a where
  refl := compareLex_eq_eq.mpr ⟨h.refl, h'.refl⟩
  swap b := by
    rw [compareLex, compareLex, h.swap, h'.swap, Ordering.swap_then]
  congr {b} heq c := by
    obtain ⟨hfirst, hsecond⟩ := compareLex_eq_eq.mp heq
    rw [compareLex, compareLex, h.congr hfirst, h'.congr hsecond]
  trans {b c} hlt hle := by
    rw [compareLex, Ordering.isLE_then_iff_or] at hle
    rw [compareLex, Ordering.then_eq_lt] at hlt ⊢
    rcases hlt with hlt | ⟨heq, hlt⟩
    · refine .inl (h.trans hlt ?_)
      rcases hle with hle | ⟨hle, -⟩
      · exact Ordering.isLE_of_eq_lt hle
      · exact Ordering.isLE_of_eq_eq hle
    · rw [h.congr heq]
      rcases hle with hle | ⟨hle, hle'⟩
      · exact .inl hle
      · exact .inr ⟨hle, h'.trans hlt hle'⟩

/-- Lists are compared by their elements. -/
theorem list {as : List α} (h : ∀ a ∈ as, OrderedAt cmp a) :
    OrderedAt (List.compareLex cmp) as := by
  induction as with
  | nil =>
    refine ⟨rfl, ?_, ?_, ?_⟩
    · rintro (_ | ⟨b, bs⟩) <;> rfl
    · rintro (_ | ⟨b, bs⟩) heq c
      · rfl
      · cases heq
    · rintro (_ | ⟨b, bs⟩) (_ | ⟨c, cs⟩) hlt hle
      · cases hlt
      · rfl
      · cases hle
      · rfl
  | cons a as ih =>
    obtain ⟨hfirst, hrest⟩ := List.forall_mem_cons.mp h
    have hpair : OrderedAt (compareLex (fun x y : α × List α ↦ cmp x.1 y.1)
        fun x y ↦ List.compareLex cmp x.2 y.2) (a, as) := hfirst.comap.lex (ih hrest).comap
    have hcons : ∀ x y : α × List α, List.compareLex cmp (x.1 :: x.2) (y.1 :: y.2) =
        compareLex (fun x y ↦ cmp x.1 y.1) (fun x y ↦ List.compareLex cmp x.2 y.2) x y :=
      fun _ _ ↦ List.compareLex_cons_cons
    refine ⟨?_, ?_, ?_, ?_⟩
    · exact (hcons (a, as) (a, as)).trans hpair.refl
    · rintro (_ | ⟨b, bs⟩)
      · rfl
      · rw [hcons (b, bs) (a, as), hcons (a, as) (b, bs)]
        exact hpair.swap (b, bs)
    · rintro (_ | ⟨b, bs⟩) heq
      · cases heq
      · rw [hcons (a, as) (b, bs)] at heq
        rintro (_ | ⟨c, cs⟩)
        · rfl
        · rw [hcons (a, as) (c, cs), hcons (b, bs) (c, cs)]
          exact hpair.congr heq (c, cs)
    · rintro (_ | ⟨b, bs⟩) (_ | ⟨c, cs⟩) hlt hle
      · cases hlt
      · cases hlt
      · cases hle
      · rw [hcons (a, as) (b, bs)] at hlt
        rw [hcons (b, bs) (c, cs)] at hle
        rw [hcons (a, as) (c, cs)]
        exact hpair.trans hlt hle

end OrderedAt

/-! ### Numbers, identities and bytes -/

theorem IntTy.rank_injective {t t' : IntTy} (h : t.rank = t'.rank) : t = t' := by
  obtain ⟨s, w⟩ := t
  obtain ⟨s', w'⟩ := t'
  cases s <;> cases w <;> cases s' <;> cases w' <;> first | rfl | cases h

theorem FixedInt.eq_of_cmp {i j : FixedInt} (h : i.cmp j = .eq) : i = j := by
  obtain ⟨hrank, hval⟩ := Ordering.then_eq_eq.mp h
  obtain ⟨ty, val, fits⟩ := i
  obtain ⟨ty', val', fits'⟩ := j
  obtain rfl := IntTy.rank_injective (Nat.compare_eq_eq.mp hrank)
  obtain rfl := Std.LawfulEqOrd.eq_of_compare hval
  rfl

instance : Std.TransCmp FixedInt.cmp :=
  inferInstanceAs (Std.TransCmp (compareLex (compareOn fun i : FixedInt ↦ i.ty.rank)
    (compareOn fun i : FixedInt ↦ i.val)))

/-- Given closures before made ones, and each by number. -/
def ClosureId.key : ClosureId → Nat × Nat
  | .given n => (0, n)
  | .made n => (1, n)

theorem ClosureId.cmp_eq (id id' : ClosureId) :
    id.cmp id' = compareLex (compareOn fun i : ClosureId ↦ i.key.1)
      (compareOn fun i : ClosureId ↦ i.key.2) id id' := by
  cases id <;> cases id' <;> rfl

instance : Std.TransCmp ClosureId.cmp := by
  have heq : ClosureId.cmp = compareLex (compareOn fun i : ClosureId ↦ i.key.1)
      (compareOn fun i : ClosureId ↦ i.key.2) := funext fun id ↦ funext fun id' ↦ id.cmp_eq id'
  rw [heq]
  infer_instance

theorem cmpBytes_eq (bs cs : List UInt8) : cmpBytes bs cs = compare bs cs := by
  induction bs generalizing cs with
  | nil => cases cs <;> rfl
  | cons b bs ih =>
    cases cs with
    | nil => rfl
    | cons c cs => rw [cmpBytes, ih, List.compare_cons_cons]

/-! ### Values -/

namespace Value

/-- How maps compare their entries. -/
def cmpEntry : Value × Value → Value × Value → Ordering :=
  compareLex (fun e f ↦ e.1.cmp f.1) fun e f ↦ e.2.cmp f.2

/-- How messages compare their entries. -/
def cmpMessageEntry : MessageEntry → MessageEntry → Ordering :=
  compareLex (compareOn (·.name)) fun e f ↦ e.value.cmp f.value

theorem cmpAll_eq (vs ws : List Value) : cmpAll vs ws = List.compareLex cmp vs ws := by
  induction vs generalizing ws with
  | nil => cases ws <;> rfl
  | cons v vs ih =>
    cases ws with
    | nil => rfl
    | cons w ws => rw [cmpAll, ih, List.compareLex_cons_cons]

theorem cmpEntries_eq (es fs : List (Value × Value)) :
    cmpEntries es fs = List.compareLex cmpEntry es fs := by
  induction es generalizing fs with
  | nil => cases fs <;> rfl
  | cons e es ih =>
    cases fs with
    | nil => rfl
    | cons f fs =>
      rw [cmpEntries, ih, List.compareLex_cons_cons]
      rfl

theorem cmpMessage_eq (es fs : List MessageEntry) :
    cmpMessage es fs = List.compareLex cmpMessageEntry es fs := by
  induction es generalizing fs with
  | nil => cases fs <;> rfl
  | cons e es ih =>
    cases fs with
    | nil => rfl
    | cons f fs =>
      rw [cmpMessage, ih, List.compareLex_cons_cons]
      rfl

theorem rank_injective {k k' : ValueKind} (h : k.rank = k'.rank) : k = k' := by
  cases k <;> cases k' <;> first | rfl | cases h

theorem cmp_of_kind_ne {v w : Value} (h : v.kind ≠ w.kind) :
    v.cmp w = compare v.kind.rank w.kind.rank := by
  cases v <;> cases w <;> first | rfl | exact absurd rfl h

theorem cmp_of_rank_lt {v w : Value} (h : v.kind.rank < w.kind.rank) : v.cmp w = .lt := by
  have hne : v.kind ≠ w.kind := fun heq ↦ Nat.ne_of_lt h (congrArg ValueKind.rank heq)
  rw [cmp_of_kind_ne hne]
  exact Nat.compare_eq_lt.mpr h

theorem rank_le_of_isLE {v w : Value} (h : (v.cmp w).isLE = true) :
    v.kind.rank ≤ w.kind.rank := by
  by_cases hkind : v.kind = w.kind
  · exact Nat.le_of_eq (congrArg ValueKind.rank hkind)
  · rw [cmp_of_kind_ne hkind] at h
    exact Nat.isLE_compare.mp h

theorem kind_eq_of_cmp {v w : Value} (h : v.cmp w = .eq) : v.kind = w.kind := by
  by_cases hkind : v.kind = w.kind
  · exact hkind
  · rw [cmp_of_kind_ne hkind] at h
    exact rank_injective (Nat.compare_eq_eq.mp h)

end Value

open Value

/-- A constructor that makes all values of a kind, and whose values are compared by what they are
made of, hands on the order. -/
theorem OrderedAt.value {κ : Type} (make : κ → Value) {kind : ValueKind}
    (content : κ → κ → Ordering) (hmake : ∀ x, (make x).kind = kind)
    (hall : ∀ w : Value, w.kind = kind → ∃ y, w = make y)
    (hcmp : ∀ x y, (make x).cmp (make y) = content x y) {x : κ} (h : OrderedAt content x) :
    OrderedAt Value.cmp (make x) where
  refl := (hcmp x x).trans h.refl
  swap w := by
    by_cases hw : w.kind = kind
    · obtain ⟨y, rfl⟩ := hall w hw
      rw [hcmp, hcmp]
      exact h.swap y
    · have hne : (make x).kind ≠ w.kind := fun heq ↦ hw (heq ▸ hmake x)
      rw [cmp_of_kind_ne hne, cmp_of_kind_ne hne.symm]
      exact Std.OrientedOrd.eq_swap
  congr {w} heq u := by
    obtain ⟨y, rfl⟩ := hall w ((kind_eq_of_cmp heq).symm.trans (hmake x))
    rw [hcmp] at heq
    by_cases hu : u.kind = kind
    · obtain ⟨z, rfl⟩ := hall u hu
      rw [hcmp, hcmp]
      exact h.congr heq z
    · have hx : (make x).kind ≠ u.kind := fun heq ↦ hu (heq ▸ hmake x)
      have hy : (make y).kind ≠ u.kind := fun heq ↦ hu (heq ▸ hmake y)
      rw [cmp_of_kind_ne hx, cmp_of_kind_ne hy, hmake, hmake]
  trans {w u} hlt hle := by
    have hxw := rank_le_of_isLE (Ordering.isLE_of_eq_lt hlt)
    have hwu := rank_le_of_isLE hle
    rw [hmake] at hxw
    by_cases hu : u.kind = kind
    · rw [hu] at hwu
      obtain ⟨y, rfl⟩ := hall w (rank_injective (Nat.le_antisymm hwu hxw))
      obtain ⟨z, rfl⟩ := hall u hu
      rw [hcmp] at hlt hle ⊢
      exact h.trans hlt hle
    · have hne : kind.rank ≠ u.kind.rank := fun heq ↦ hu (rank_injective heq).symm
      refine cmp_of_rank_lt ?_
      rw [hmake]
      omega

namespace Value

/-- Every value has its place in the order of values. -/
theorem orderedAt (v : Value) : OrderedAt cmp v := by
  induction v with
  | int i =>
    refine .value int FixedInt.cmp (fun _ ↦ rfl) (fun w hw ↦ ?_) (fun _ _ ↦ rfl) (.of_transCmp i)
    cases w <;> first | exact ⟨_, rfl⟩ | cases hw
  | str s =>
    refine .value str compare (fun _ ↦ rfl) (fun w hw ↦ ?_) (fun _ _ ↦ rfl) (.of_transCmp s)
    cases w <;> first | exact ⟨_, rfl⟩ | cases hw
  | bnum n =>
    refine .value bnum compare (fun _ ↦ rfl) (fun w hw ↦ ?_) (fun _ _ ↦ rfl) (.of_transCmp n)
    cases w <;> first | exact ⟨_, rfl⟩ | cases hw
  | bystrx b =>
    refine .value bystrx compare (fun _ ↦ rfl) (fun w hw ↦ ?_) cmpBytes_eq
      (.list fun c _ ↦ .of_transCmp c)
    cases w <;> first | exact ⟨_, rfl⟩ | cases hw
  | bystr b =>
    refine .value bystr compare (fun _ ↦ rfl) (fun w hw ↦ ?_) cmpBytes_eq
      (.list fun c _ ↦ .of_transCmp c)
    cases w <;> first | exact ⟨_, rfl⟩ | cases hw
  | closure id param ty body env =>
    refine .value (fun x : ClosureId × String × Ty × Expr × Env ↦
      closure x.1 x.2.1 x.2.2.1 x.2.2.2.1 x.2.2.2.2) (fun x y ↦ x.1.cmp y.1) (fun _ ↦ rfl)
      (fun w hw ↦ ?_) (fun _ _ ↦ rfl) (x := (id, param, ty, body, env)) (.comap (.of_transCmp id))
    cases w <;> first | exact ⟨(_, _, _, _, _), rfl⟩ | cases hw
  | tyClosure id tvar body env =>
    refine .value (fun x : ClosureId × String × Expr × Env ↦
      tyClosure x.1 x.2.1 x.2.2.1 x.2.2.2) (fun x y ↦ x.1.cmp y.1) (fun _ ↦ rfl)
      (fun w hw ↦ ?_) (fun _ _ ↦ rfl) (x := (id, tvar, body, env)) (.comap (.of_transCmp id))
    cases w <;> first | exact ⟨(_, _, _, _), rfl⟩ | cases hw
  | data tyName constructor targs args ih =>
    refine .value (fun x : String × String × List Ty × List Value ↦ data x.1 x.2.1 x.2.2.1 x.2.2.2)
      (compareLex (compareOn (·.1)) (compareLex (compareOn (·.2.1))
        fun x y ↦ List.compareLex cmp x.2.2.2 y.2.2.2)) (fun _ ↦ rfl) (fun w hw ↦ ?_)
      (fun x y ↦ ?_) (x := (tyName, constructor, targs, args))
      (.lex (.of_transCmp _) (.lex (.of_transCmp _) (.comap (.list ih))))
    · cases w <;> first | exact ⟨(_, _, _, _), rfl⟩ | cases hw
    · rw [cmp, cmpAll_eq]
      rfl
  | map m ih =>
    have hentries : ∀ e ∈ m.entries, OrderedAt cmpEntry e := fun e he ↦
      .lex (ih e he).1.comap (ih e he).2.comap
    refine .value map (fun x y ↦ List.compareLex cmpEntry x.entries y.entries) (fun _ ↦ rfl)
      (fun w hw ↦ ?_) (fun x y ↦ cmpEntries_eq x.entries y.entries) (.comap (.list hentries))
    cases w <;> first | exact ⟨_, rfl⟩ | cases hw
  | message es ih =>
    have hentries : ∀ e ∈ es, OrderedAt cmpMessageEntry e := fun e he ↦
      .lex (.of_transCmp e) (ih e he).comap
    refine .value message (List.compareLex cmpMessageEntry) (fun _ ↦ rfl)
      (fun w hw ↦ ?_) cmpMessage_eq (.list hentries)
    cases w <;> first | exact ⟨_, rfl⟩ | cases hw

instance : Std.TransCmp cmp := transCmp_of_orderedAt orderedAt

end Value

end MeteredContract
