import MeteredContract.Text.Slice

/-!
Slices of a text against its UTF-8 form. There is a slice between two offsets if both fall between
characters and are in order within the text (`Text.Cuts`, `Text.exists_slice?_iff`), and it is what
stands between a text of as many bytes as the first offset and the rest (`Text.slice?_eq_some_iff`).
That determines it, so slices next to each other make up one slice (`Text.slice?_append`).
-/

set_option autoImplicit false
set_option relaxedAutoImplicit false

namespace MeteredContract.Text

theorem utf8ByteSize_ofList_cons (c : Char) (cs : List Char) :
    (String.ofList (c :: cs)).utf8ByteSize = c.utf8Size + (String.ofList cs).utf8ByteSize := by
  rw [String.ofList_cons, String.utf8ByteSize_append, String.utf8ByteSize_singleton]

/-! ### Splitting -/

variable {cs taken rest : List Char} {n : Nat}

theorem of_splitBytes? (h : splitBytes? cs n = some (taken, rest)) :
    cs = taken ++ rest ∧ (String.ofList taken).utf8ByteSize = n := by
  induction cs generalizing n taken with
  | nil =>
    cases n with
    | zero =>
      cases h
      exact ⟨rfl, rfl⟩
    | succ n => cases h
  | cons c cs ih =>
    cases n with
    | zero =>
      cases h
      exact ⟨rfl, rfl⟩
    | succ n =>
      rw [splitBytes?] at h
      split at h
      · next hle =>
        obtain ⟨⟨front, back⟩, hsplit, heq⟩ := Option.map_eq_some_iff.mp h
        cases heq
        obtain ⟨rfl, hsize⟩ := ih hsplit
        refine ⟨rfl, ?_⟩
        rw [utf8ByteSize_ofList_cons, hsize]
        omega
      · cases h

theorem splitBytes?_append (taken rest : List Char) :
    splitBytes? (taken ++ rest) (String.ofList taken).utf8ByteSize = some (taken, rest) := by
  induction taken with
  | nil => cases rest <;> rfl
  | cons c taken ih =>
    have hpos : 0 < c.utf8Size := c.utf8Size_pos
    obtain ⟨n, hn⟩ : ∃ n, c.utf8Size + (String.ofList taken).utf8ByteSize = n + 1 :=
      Nat.exists_eq_succ_of_ne_zero (by omega)
    have hrest : n + 1 - c.utf8Size = (String.ofList taken).utf8ByteSize := by omega
    rw [utf8ByteSize_ofList_cons, hn, List.cons_append, splitBytes?, if_pos (by omega), hrest, ih]
    rfl

theorem splitBytes?_string_append (s t : String) :
    splitBytes? (s ++ t).toList s.utf8ByteSize = some (s.toList, t.toList) := by
  have hsplit := splitBytes?_append s.toList t.toList
  rwa [String.ofList_toList, ← String.toList_append] at hsplit

/-- A number of bytes at the start of a text can be split off in one way only. -/
theorem append_inj_of_size {s s' t t' : String} (h : s ++ t = s' ++ t')
    (hsize : s.utf8ByteSize = s'.utf8ByteSize) : s = s' ∧ t = t' := by
  have hsplit := splitBytes?_string_append s t
  rw [h, hsize, splitBytes?_string_append] at hsplit
  obtain ⟨hs, ht⟩ := Prod.mk.inj (Option.some.inj hsplit)
  exact ⟨(String.toList_inj.mp hs).symm, (String.toList_inj.mp ht).symm⟩

/-! ### Slices -/

variable {s t u : String} {start len more : Nat}

theorem slice?_eq_some_iff :
    slice? s start len = some t ↔
      ∃ before after, s = before ++ t ++ after ∧ before.utf8ByteSize = start ∧
        t.utf8ByteSize = len := by
  unfold slice?
  constructor
  · intro h
    obtain ⟨⟨before, tail⟩, hbefore, h⟩ := Option.bind_eq_some_iff.mp h
    obtain ⟨⟨taken, after⟩, htaken, h⟩ := Option.bind_eq_some_iff.mp h
    cases h
    obtain ⟨htext, hstart⟩ := of_splitBytes? hbefore
    obtain ⟨rfl, hlen⟩ := of_splitBytes? htaken
    refine ⟨.ofList before, .ofList after, ?_, hstart, hlen⟩
    rw [← String.ofList_append, ← String.ofList_append, List.append_assoc, ← htext,
      String.ofList_toList]
  · rintro ⟨before, after, rfl, rfl, rfl⟩
    rw [String.append_assoc]
    refine Option.bind_eq_some_iff.mpr ⟨_, splitBytes?_string_append before (t ++ after), ?_⟩
    refine Option.bind_eq_some_iff.mpr ⟨_, splitBytes?_string_append t after, ?_⟩
    exact congrArg some String.ofList_toList

/-- The offset falls between characters, or at one of the ends. -/
abbrev IsBoundary (s : String) (offset : Nat) : Prop := (⟨offset⟩ : String.Pos.Raw).IsValid s

/-- A slice of that many bytes can be cut out of the text at the offset. -/
structure Cuts (s : String) (start len : Nat) : Prop where
  stop_le : start + len ≤ s.utf8ByteSize
  isBoundary_start : IsBoundary s start
  isBoundary_stop : IsBoundary s (start + len)

theorem isBoundary_iff {offset : Nat} :
    IsBoundary s offset ↔ ∃ before after, s = before ++ after ∧ before.utf8ByteSize = offset := by
  rw [IsBoundary, String.Pos.Raw.isValid_iff_exists_append]
  simp only [String.Pos.Raw.ext_iff, String.byteIdx_rawEndPos, eq_comm]

/-- Of two offsets between characters the smaller one falls between characters before the other. -/
theorem isBoundary_of_le {before after : String} {offset : Nat}
    (h : IsBoundary (before ++ after) offset) (hle : offset ≤ before.utf8ByteSize) :
    IsBoundary before offset := by
  obtain h | ⟨hge, -⟩ := String.Pos.Raw.isValid_append.mp h
  · exact h
  · have heq : before.rawEndPos = ⟨offset⟩ :=
      String.Pos.Raw.ext (Nat.le_antisymm (String.Pos.Raw.le_iff.mp hge) hle)
    exact String.Pos.Raw.isValid_of_eq_rawEndPos heq.symm

theorem exists_slice?_iff : (∃ t, slice? s start len = some t) ↔ Cuts s start len := by
  constructor
  · rintro ⟨t, h⟩
    obtain ⟨before, after, rfl, rfl, rfl⟩ := slice?_eq_some_iff.mp h
    refine ⟨?_, ?_, ?_⟩
    · simp only [String.utf8ByteSize_append]
      omega
    · exact isBoundary_iff.mpr ⟨before, t ++ after, String.append_assoc, rfl⟩
    · exact isBoundary_iff.mpr ⟨before ++ t, after, rfl, String.utf8ByteSize_append⟩
  · rintro ⟨-, hstart, hstop⟩
    obtain ⟨front, after, rfl, hfront⟩ := isBoundary_iff.mp hstop
    obtain ⟨before, t, rfl, rfl⟩ := isBoundary_iff.mp (isBoundary_of_le hstart (by omega))
    rw [String.utf8ByteSize_append] at hfront
    exact ⟨t, slice?_eq_some_iff.mpr ⟨before, after, rfl, rfl, by omega⟩⟩

theorem slice?_append_left (s t : String) : slice? (s ++ t) 0 s.utf8ByteSize = some s :=
  slice?_eq_some_iff.mpr ⟨"", t, by simp, rfl, rfl⟩

theorem slice?_append_right (s t : String) :
    slice? (s ++ t) s.utf8ByteSize t.utf8ByteSize = some t :=
  slice?_eq_some_iff.mpr ⟨s, "", by simp, rfl, rfl⟩

/-- A slice and the one that starts where it ends make up one slice. -/
theorem slice?_append (ht : slice? s start len = some t)
    (hu : slice? s (start + len) more = some u) : slice? s start (len + more) = some (t ++ u) := by
  obtain ⟨before, after, hs, rfl, rfl⟩ := slice?_eq_some_iff.mp ht
  obtain ⟨front, after', hs', hfront, rfl⟩ := slice?_eq_some_iff.mp hu
  -- both texts end where the first slice ends
  have hsize : (before ++ t).utf8ByteSize = front.utf8ByteSize :=
    String.utf8ByteSize_append.trans hfront.symm
  have hsame : before ++ t ++ after = front ++ (u ++ after') :=
    hs.symm.trans (hs'.trans String.append_assoc)
  obtain ⟨rfl, rfl⟩ := append_inj_of_size hsame hsize
  refine slice?_eq_some_iff.mpr ⟨before, after', ?_, rfl, String.utf8ByteSize_append⟩
  simp only [hs, String.append_assoc]

end MeteredContract.Text
