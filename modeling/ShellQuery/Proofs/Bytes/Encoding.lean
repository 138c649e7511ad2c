/-
  ShellQuery.Proofs.Bytes.Encoding

  The bytes of a text and the slices of it between bytes. A text has a slice between two places in
  order on boundaries of its characters and no other (`isSome_slice?_iff`), so that a program with
  slices shows by its result that it has cut on boundaries only.

  What the scanners look for are ASCII characters. Each of these is one byte, and all bytes of another
  character are wide: 128 or more, and so no byte of an ASCII character.
-/
import Mathlib.Data.Char
import ShellQuery.Bytes.Slicing

namespace ShellQuery.Bytes

variable {front back cs middle : List Char} {c : Char} {b : UInt8} {bytes tail : List UInt8}
  {i j n : ℕ}

/-! ## Bytes -/

/-- Whether a character is none of ASCII. -/
def IsWide (c : Char) : Prop :=
  128 ≤ c.toNat

instance (c : Char) : Decidable (IsWide c) :=
  inferInstanceAs (Decidable (_ ≤ _))

theorem utf8_cons (c : Char) (cs : List Char) : utf8 (c :: cs) = String.utf8EncodeChar c ++ utf8 cs :=
  List.flatMap_cons

theorem utf8_append (as bs : List Char) : utf8 (as ++ bs) = utf8 as ++ utf8 bs :=
  List.flatMap_append

theorem length_utf8 (cs : List Char) : (utf8 cs).length = byteLength cs := by
  induction cs with
  | nil => rfl
  | cons c cs ih =>
    rw [utf8_cons, List.length_append, String.length_utf8EncodeChar, ih]
    rfl

/-- A text that is not empty takes at least a byte. -/
theorem byteLength_cons_pos (c : Char) (cs : List Char) : 0 < byteLength (c :: cs) :=
  Nat.add_pos_left c.utf8Size_pos _

theorem drop_utf8 (front cs : List Char) : (utf8 (front ++ cs)).drop (byteLength front) = utf8 cs := by
  rw [utf8_append, ← length_utf8, List.drop_left]

theorem toNat_toChar (b : UInt8) : (toChar b).toNat = b.toNat := by
  have hb : b.toNat < 256 := b.toNat_lt
  have hvalid : b.toNat.isValidChar := .inl (by omega)
  rw [toChar, Char.ofNat, dif_pos hvalid]
  rfl

/-- A character of ASCII is one byte, which is that character. -/
theorem exists_utf8_of_ascii (hc : ¬IsWide c) (cs : List Char) :
    ∃ b, toChar b = c ∧ utf8 (c :: cs) = b :: utf8 cs ∧ c.utf8Size = 1 := by
  have hc' : c.val.toNat ≤ 127 := by
    rw [IsWide, Char.toNat] at hc
    omega
  refine ⟨.ofNat c.val.toNat, ?_, ?_, Char.utf8Size_eq_one_iff.2 hc'⟩
  · rw [← Char.toNat_inj, toNat_toChar, UInt8.toNat_ofNat_of_lt' (show _ < 256 by omega)]
    rfl
  · rw [utf8_cons, String.utf8EncodeChar, if_pos hc']
    rfl

/-- The bytes of another character are wide. -/
theorem exists_utf8_of_wide (hc : IsWide c) (cs : List Char) :
    ∃ bs, bs ≠ [] ∧ (∀ b ∈ bs, IsWide (toChar b)) ∧ utf8 (c :: cs) = bs ++ utf8 cs ∧
      bs.length = c.utf8Size := by
  refine ⟨String.utf8EncodeChar c, String.utf8EncodeChar_ne_nil, fun b hb => ?_, utf8_cons c cs,
    String.length_utf8EncodeChar c⟩
  have hc' : ¬c.val.toNat ≤ 127 := Nat.not_le_of_lt hc
  rw [IsWide, toNat_toChar]
  rw [String.utf8EncodeChar, if_neg hc'] at hb
  split_ifs at hb
  all_goals
    simp only [List.mem_cons, List.not_mem_nil, or_false] at hb
    rcases hb with rfl | rfl | rfl | rfl
    all_goals
      rw [UInt8.toNat_ofNat']
      omega

/-! ## Boundaries -/

/-- Whether a byte offset is a place between two characters of a text, or one of its ends. -/
def Boundary (text : List Char) (offset : ℕ) : Prop :=
  ∃ front back, text = front ++ back ∧ offset = byteLength front

/-- A character of ASCII has boundaries at both of its sides. -/
theorem boundary_of_ascii {text : List Char} (hi : i < (utf8 text).length)
    (h : ¬IsWide (toChar (utf8 text)[i])) : Boundary text i ∧ Boundary text (i + 1) := by
  induction text generalizing i with
  | nil => cases hi
  | cons c cs ih =>
    -- behind the first character, where the rest of the text has its boundaries
    have hlater : ∀ bs : List UInt8, utf8 (c :: cs) = bs ++ utf8 cs → bs.length = c.utf8Size →
        bs.length ≤ i → Boundary (c :: cs) i ∧ Boundary (c :: cs) (i + 1) := by
      intro bs hbytes hsize hle
      obtain ⟨k, rfl⟩ := Nat.exists_eq_add_of_le hle
      simp only [hbytes, List.length_append, Nat.add_lt_add_iff_left] at hi
      simp only [hbytes, List.getElem_append_right (Nat.le_add_right _ _),
        Nat.add_sub_cancel_left] at h
      obtain ⟨⟨front, back, rfl, rfl⟩, front', back', hcs, hlength⟩ := ih hi h
      refine ⟨⟨c :: front, back, rfl, ?_⟩, c :: front', back', by rw [hcs, List.cons_append], ?_⟩
      · rw [hsize]
        rfl
      · rw [Nat.add_assoc, hlength, hsize]
        rfl
    by_cases hc : IsWide c
    · obtain ⟨bs, -, hwide, hbytes, hsize⟩ := exists_utf8_of_wide hc cs
      -- all bytes of a wide character are wide, so the byte lies behind it
      refine hlater bs hbytes hsize (Nat.le_of_not_lt fun hlt => h ?_)
      simp only [hbytes, List.getElem_append_left hlt]
      exact hwide _ (List.getElem_mem hlt)
    · obtain ⟨b, hb, hbytes, hsize⟩ := exists_utf8_of_ascii hc cs
      rcases Nat.eq_zero_or_pos i with rfl | hpos
      · exact ⟨⟨[], c :: cs, rfl, rfl⟩, [c], cs, rfl, by simp [byteLength, hsize]⟩
      · exact hlater [b] hbytes hsize.symm hpos

/-! ## Slices -/

theorem cut?_eq_some_iff : cut? n cs = some (front, back) ↔
    cs = front ++ back ∧ n = byteLength front := by
  fun_induction cut? n cs generalizing front with
  | case1 cs =>
    constructor
    · intro h
      cases h
      exact ⟨rfl, rfl⟩
    · rintro ⟨rfl, hlength⟩
      cases front with
      | nil => rfl
      | cons c front =>
        exact absurd hlength.symm (Nat.ne_of_gt (byteLength_cons_pos c front))
  -- the text is over before the cut
  | case2 n =>
    refine iff_of_false (by simp) ?_
    rintro ⟨hnil, hlength⟩
    obtain ⟨rfl, -⟩ := List.append_eq_nil_iff.1 hnil.symm
    cases hlength
  | case3 n c cs hle ih =>
    cases front with
    | nil => simp [byteLength]
    | cons d front =>
      have hsize : byteLength (d :: front) = d.utf8Size + byteLength front := rfl
      rw [Option.map_eq_some_iff, hsize]
      constructor
      · rintro ⟨⟨front', back'⟩, hcut, heq⟩
        cases heq
        obtain ⟨rfl, hlength⟩ := ih.1 hcut
        exact ⟨rfl, by omega⟩
      · rintro ⟨hcs, hlength⟩
        obtain ⟨rfl, rfl⟩ := List.cons.inj hcs
        exact ⟨(front, back), ih.2 ⟨rfl, by omega⟩, rfl⟩
  -- the cut would part the first character
  | case4 n c cs hle =>
    refine iff_of_false (by simp) ?_
    rintro ⟨hcs, hlength⟩
    cases front with
    | nil => cases hlength
    | cons d front =>
      obtain ⟨rfl, rfl⟩ := List.cons.inj hcs
      simp only [byteLength, List.foldr_cons] at hlength
      omega

theorem suffix?_append (front back : List Char) :
    suffix? (front ++ back) (byteLength front) = some back := by
  rw [suffix?, cut?_eq_some_iff.2 ⟨rfl, rfl⟩]
  rfl

theorem slice?_append (front middle back : List Char) :
    slice? (front ++ (middle ++ back)) (byteLength front) (byteLength (front ++ middle)) =
      some middle := by
  rw [slice?, cut?_eq_some_iff.2 ⟨(List.append_assoc front middle back).symm, rfl⟩]
  exact suffix?_append front middle

/-- A text has a suffix from its boundaries on. -/
theorem isSome_suffix?_iff {text : List Char} : (suffix? text i).isSome ↔ Boundary text i := by
  rw [suffix?, Option.isSome_map, Option.isSome_iff_exists]
  constructor
  · rintro ⟨⟨front, back⟩, hcut⟩
    exact ⟨front, back, cut?_eq_some_iff.1 hcut⟩
  · rintro ⟨front, back, h⟩
    exact ⟨(front, back), cut?_eq_some_iff.2 h⟩

/-- A text has a slice between two boundaries in order. -/
theorem isSome_slice?_iff {text : List Char} :
    (slice? text i j).isSome ↔ Boundary text i ∧ Boundary text j ∧ i ≤ j := by
  constructor
  · intro h
    obtain ⟨middle, hslice⟩ := Option.isSome_iff_exists.1 h
    obtain ⟨⟨taken, back⟩, hcut, hsuffix⟩ := Option.bind_eq_some_iff.1 hslice
    obtain ⟨rfl, rfl⟩ := cut?_eq_some_iff.1 hcut
    obtain ⟨front, rest, rfl, rfl⟩ := isSome_suffix?_iff.1 (Option.isSome_of_mem hsuffix)
    exact ⟨⟨front, rest ++ back, List.append_assoc .., rfl⟩, ⟨_, _, rfl, rfl⟩, by
      rw [byteLength_append]; exact Nat.le_add_right _ _⟩
  · rintro ⟨⟨front, rest, hfront, rfl⟩, ⟨taken, back, rfl, rfl⟩, hle⟩
    rcases List.append_eq_append_iff.1 hfront with ⟨middle, rfl, rfl⟩ | ⟨middle, rfl, rfl⟩
    · -- the second boundary lies before the first only if both are the same
      obtain rfl : middle = [] := by
        cases middle with
        | nil => rfl
        | cons c middle =>
          rw [byteLength_append] at hle
          exact absurd (byteLength_cons_pos c middle) (by omega)
      have hslice := slice?_append taken [] rest
      rw [List.append_nil] at hslice ⊢
      rw [hslice]
      rfl
    · rw [List.append_assoc, slice?_append]
      rfl

end ShellQuery.Bytes
