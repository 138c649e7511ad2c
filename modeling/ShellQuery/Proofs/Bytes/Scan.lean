/-
  ShellQuery.Proofs.Bytes.Scan

  On the bytes of a text the loops find what the scans of its characters find, at the offsets of
  boundaries: a wide byte is no character that a scan looks for, so that the bytes of a wide character
  are passed one by one, from wherever the loop comes to stand among them.
-/
import ShellQuery.Proofs.Bytes.Encoding
import ShellQuery.Proofs.Span

namespace ShellQuery.Bytes

open Text

variable {bytes bs tail : List UInt8} {front cs rest : List Char} {b : UInt8} {c d : Char}
  {prev last : Option Char} {inClass : Bool} {i j depth : ℕ}

/-! ## One byte at a time -/

theorem exists_getElem_of_drop (h : bytes.drop i = b :: tail) :
    ∃ hi : i < bytes.length, bytes[i] = b ∧ bytes.drop (i + 1) = tail := by
  have hi : i < bytes.length := by
    by_contra hge
    rw [List.drop_of_length_le (Nat.le_of_not_lt hge)] at h
    cases h
  rw [List.drop_eq_getElem_cons hi] at h
  obtain ⟨hb, htail⟩ := List.cons.inj h
  exact ⟨hi, hb, htail⟩

theorem drop_add_length (h : bytes.drop i = bs ++ tail) : bytes.drop (i + bs.length) = tail := by
  rw [← List.drop_drop, h, List.drop_left]

theorem length_of_drop (h : bytes.drop i = utf8 cs) (hi : i ≤ bytes.length) :
    bytes.length = i + byteLength cs := by
  rw [← length_utf8, ← h, List.length_drop]
  omega

theorem skipWhile_of_drop (p : Char → Bool) (h : bytes.drop i = b :: tail) :
    skipWhile p bytes i = if p (toChar b) then skipWhile p bytes (i + 1) else i := by
  obtain ⟨hi, rfl, -⟩ := exists_getElem_of_drop h
  rw [skipWhile, dif_pos hi]

theorem skipFrom_of_drop (h : bytes.drop i = b :: tail) : skipFrom bytes d inClass i =
    if toChar b = '\\' then skipFrom bytes d inClass (i + 2)
    else if d = '/' ∧ toChar b = '[' then skipFrom bytes d true (i + 1)
    else if d = '/' ∧ toChar b = ']' then skipFrom bytes d false (i + 1)
    else if toChar b = d ∧ inClass = false then some (i + 1)
    else skipFrom bytes d inClass (i + 1) := by
  obtain ⟨hi, rfl, -⟩ := exists_getElem_of_drop h
  rw [skipFrom, dif_pos hi]

theorem spansAt_of_drop (h : bytes.drop i = b :: tail) : spansAt bytes prev i =
    if Zone.opensLiteral prev (toChar b) then
      match skipFrom bytes (toChar b) false (i + 1) with
      | none => [⟨i, bytes.length⟩]
      | some stop => ⟨i, stop⟩ :: spansAt bytes (some (toChar b)) stop
    else spansAt bytes (Zone.lastAfter prev (toChar b)) (i + 1) := by
  obtain ⟨hi, rfl, -⟩ := exists_getElem_of_drop h
  rw [spansAt, dif_pos hi]
  congr 1
  split <;> simp_all [skipLiteral]

theorem closingAt_of_drop (h : bytes.drop i = b :: tail) : closingAt bytes prev depth i =
    if Zone.opensLiteral prev (toChar b) then
      (skipFrom bytes (toChar b) false (i + 1)).bind (closingAt bytes (some (toChar b)) depth)
    else if isOpener (toChar b) then closingAt bytes (some (toChar b)) (depth + 1) (i + 1)
    else if isCloser (toChar b) then
      if depth ≤ 1 then some i else closingAt bytes (some (toChar b)) (depth - 1) (i + 1)
    else closingAt bytes (Zone.lastAfter prev (toChar b)) depth (i + 1) := by
  obtain ⟨hi, rfl, -⟩ := exists_getElem_of_drop h
  rw [closingAt, dif_pos hi]
  congr 1
  split <;> simp_all [skipLiteral]

theorem skipFrom_end (h : bytes.length ≤ i) : skipFrom bytes d inClass i = none := by
  rw [skipFrom, dif_neg (Nat.not_lt_of_le h)]

/-! ## Wide bytes -/

/-- Whether all characters of a class are of ASCII. -/
def Ascii (p : Char → Bool) : Prop :=
  ∀ c, p c = true → ¬IsWide c

theorem Ascii.eq_false {p : Char → Bool} (h : Ascii p) (hc : IsWide c) : p c = false :=
  Bool.eq_false_iff.2 fun hp => h c hp hc

theorem Ascii.of_mem {p : Char → Bool} (chars : List Char) (hchars : ∀ c ∈ chars, c.toNat < 128)
    (h : ∀ c, p c = true → c ∈ chars) : Ascii p :=
  fun c hc => Nat.not_le_of_lt (hchars c (h c hc))

theorem ascii_isOpener : Ascii isOpener :=
  .of_mem ['(', '[', '{'] (by decide) fun c hc => by simpa [isOpener, or_assoc] using hc

theorem ascii_isCloser : Ascii isCloser :=
  .of_mem [')', ']', '}'] (by decide) fun c hc => by simpa [isCloser, or_assoc] using hc

theorem ascii_isAsciiBlank : Ascii isAsciiBlank :=
  .of_mem [' ', '\t', '\n', '\x0c', '\r'] (by decide) fun c hc => by
    simpa [isAsciiBlank, or_assoc] using hc

theorem ascii_opensLiteral (prev : Option Char) : Ascii (Zone.opensLiteral prev) :=
  .of_mem ['"', '\'', '/'] (by decide) fun c hc => by
    simp only [Zone.opensLiteral, Bool.or_eq_true, Bool.and_eq_true, decide_eq_true_eq] at hc
    rcases hc with (rfl | rfl) | ⟨rfl, -⟩ <;> simp

theorem ascii_valueMayStart : Ascii fun c => Zone.valueMayStart (some c) :=
  .of_mem ['(', ',', ':', '['] (by decide) fun c hc => by
    simpa [Zone.valueMayStart, or_assoc] using hc

theorem ascii_isAsciiDigit : Ascii isAsciiDigit := fun c hc => by
  simp only [isAsciiDigit, Bool.and_eq_true, decide_eq_true_eq] at hc
  have hle : c.toNat ≤ '9'.toNat := hc.2
  exact Nat.not_le_of_lt (hle.trans_lt (by decide))

theorem ascii_isStepChar : Ascii isStepChar := fun c hc => by
  simp only [isStepChar, isAsciiAlphanumeric, isAsciiLetter, Bool.or_eq_true, Bool.and_eq_true,
    decide_eq_true_eq] at hc
  rcases hc with (((hc | hc) | hc) | hc) | hc
  · have hle : c.toNat ≤ 'z'.toNat := hc.2
    exact Nat.not_le_of_lt (hle.trans_lt (by decide))
  · have hle : c.toNat ≤ 'Z'.toNat := hc.2
    exact Nat.not_le_of_lt (hle.trans_lt (by decide))
  · exact ascii_isAsciiDigit c hc
  · exact hc ▸ by decide
  · exact hc ▸ by decide

theorem lastAfter_of_isWide (hc : IsWide c) : Zone.lastAfter prev c = some c := by
  rw [Zone.lastAfter, if_neg (by simp [ascii_isAsciiBlank.eq_false hc])]

/-- A wide byte in a literal is passed. -/
theorem skipFrom_wide (hd : ¬IsWide d) (hb : IsWide (toChar b)) (h : bytes.drop i = b :: tail) :
    skipFrom bytes d inClass i = skipFrom bytes d inClass (i + 1) := by
  have hne : ∀ c, ¬IsWide c → toChar b ≠ c := by
    rintro c hc rfl
    exact hc hb
  rw [skipFrom_of_drop h, if_neg (hne '\\' (by decide)), if_neg fun hc => hne '[' (by decide) hc.2,
    if_neg fun hc => hne ']' (by decide) hc.2, if_neg fun hc => hne d hd hc.1]

/-- A wide byte outside of literals is passed, and is the last character of code then. -/
theorem spansAt_wide (hb : IsWide (toChar b)) (h : bytes.drop i = b :: tail) :
    spansAt bytes prev i = spansAt bytes (some (toChar b)) (i + 1) := by
  rw [spansAt_of_drop h, if_neg (by simp [(ascii_opensLiteral prev).eq_false hb]),
    lastAfter_of_isWide hb]

theorem closingAt_wide (hb : IsWide (toChar b)) (h : bytes.drop i = b :: tail) :
    closingAt bytes prev depth i = closingAt bytes (some (toChar b)) depth (i + 1) := by
  rw [closingAt_of_drop h, if_neg (by simp [(ascii_opensLiteral prev).eq_false hb]),
    if_neg (by simp [ascii_isOpener.eq_false hb]), if_neg (by simp [ascii_isCloser.eq_false hb]),
    lastAfter_of_isWide hb]

/-- A loop that passes wide bytes one by one comes past the bytes of a wide character, and no value
    may start after them. -/
theorem exists_past_wide {α : Type} (loop : Option Char → ℕ → α)
    (hstep : ∀ {prev i b tail}, IsWide (toChar b) → bytes.drop i = b :: tail →
      loop prev i = loop (some (toChar b)) (i + 1))
    (prev : Option Char) (hne : bs ≠ []) (hwide : ∀ b ∈ bs, IsWide (toChar b))
    (h : bytes.drop i = bs ++ tail) :
    ∃ prev', Zone.valueMayStart prev' = false ∧ loop prev i = loop prev' (i + bs.length) := by
  induction bs generalizing i prev with
  | nil => exact absurd rfl hne
  | cons b bs ih =>
    obtain ⟨-, -, htail⟩ := exists_getElem_of_drop h
    have hb := hwide _ (.head _)
    rw [hstep hb h]
    rcases eq_or_ne bs [] with rfl | hbs
    · exact ⟨_, ascii_valueMayStart.eq_false hb, rfl⟩
    · rw [List.length_cons, Nat.add_comm bs.length, ← Nat.add_assoc]
      exact ih _ hbs (fun b hb => hwide b (.tail _ hb)) htail

theorem skipFrom_past_wide (hd : ¬IsWide d) (hwide : ∀ b ∈ bs, IsWide (toChar b))
    (h : bytes.drop i = bs ++ tail) :
    skipFrom bytes d inClass i = skipFrom bytes d inClass (i + bs.length) := by
  rcases eq_or_ne bs [] with rfl | hne
  · rfl
  · obtain ⟨-, -, hpast⟩ := exists_past_wide (fun _ => skipFrom bytes d inClass) (skipFrom_wide hd)
      none hne hwide h
    exact hpast

/-! ## Bytes and characters -/

/-- The bytes of a class that a loop steps over are those of its characters. -/
theorem skipWhile_eq {p : Char → Bool} (hp : Ascii p) (h : bytes.drop i = utf8 cs) :
    skipWhile p bytes i = i + byteLength (cs.takeWhile p) := by
  induction cs generalizing i with
  | nil =>
    rw [skipWhile, dif_neg (Nat.not_lt_of_le (List.drop_eq_nil_iff.1 h))]
    rfl
  | cons c cs ih =>
    by_cases hc : IsWide c
    · obtain ⟨bs, hne, hwide, hbytes, -⟩ := exists_utf8_of_wide hc cs
      obtain ⟨b, bs, rfl⟩ := List.exists_cons_of_ne_nil hne
      rw [hbytes] at h
      rw [skipWhile_of_drop p h, if_neg (by simp [hp.eq_false (hwide b (.head _))]),
        List.takeWhile_cons_of_neg (by simp [hp.eq_false hc])]
      rfl
    · obtain ⟨b, rfl, hbytes, hsize⟩ := exists_utf8_of_ascii hc cs
      rw [hbytes] at h
      obtain ⟨-, -, htail⟩ := exists_getElem_of_drop h
      rw [skipWhile_of_drop p h, List.takeWhile_cons]
      split
      · rw [ih htail, byteLength_cons, hsize, Nat.add_assoc]
      · rfl

/-- The offset behind what was cut off at another one. -/
def past (i : ℕ) (cut : List Char × List Char) : ℕ :=
  i + byteLength cut.1

theorem map_past_cons (c : Char) (cut? : Option (List Char × List Char)) :
    (cut?.map fun (taken, rest) => (c :: taken, rest)).map (past i) =
      cut?.map (past (i + c.utf8Size)) := by
  rw [Option.map_map]
  congr 1
  funext cut
  exact (Nat.add_assoc ..).symm

/-- The loop through a literal stops behind the character that ends it. It stands on a boundary, or,
    after a backslash, one byte further. -/
theorem skipFrom_eq (hd : ¬IsWide d) (h : bytes.drop i = utf8 cs) :
    skipFrom bytes d inClass i = (endLiteral? (.literal d inClass) cs).map (past i) ∧
      skipFrom bytes d inClass (i + 1) = (endLiteral? (.escaped d inClass) cs).map (past i) := by
  -- on the characters: both places are needed, as a backslash leads from the first to the second
  induction cs generalizing i inClass with
  | nil =>
    have hend : bytes.length ≤ i := List.drop_eq_nil_iff.1 h
    exact ⟨skipFrom_end hend, skipFrom_end (Nat.le_succ_of_le hend)⟩
  | cons c cs ih =>
    have hescaped : (endLiteral? (.escaped d inClass) (c :: cs)).map (past i) =
        (endLiteral? (.literal d inClass) cs).map (past (i + c.utf8Size)) :=
      map_past_cons c _
    rw [hescaped]
    by_cases hc : IsWide c
    · obtain ⟨bs, hne, hwide, hbytes, hsize⟩ := exists_utf8_of_wide hc cs
      rw [hbytes] at h
      have hrest : skipFrom bytes d inClass (i + bs.length) =
          (endLiteral? (.literal d inClass) cs).map (past (i + bs.length)) :=
        (ih (drop_add_length h)).1
      -- a wide character is no mark that changes the zone
      have hnext : (Zone.literal d inClass).next c = .literal d inClass := by
        have hmark : ∀ e, ¬IsWide e → c ≠ e := by
          rintro e he rfl
          exact he hc
        simp [Zone.next, hmark '\\' (by decide), hmark '[' (by decide), hmark ']' (by decide),
          hmark d hd]
      constructor
      · rw [endLiteral?, hnext, if_neg (by simp [Zone.isCode]), map_past_cons,
          skipFrom_past_wide hd hwide h, hrest, hsize]
      · -- the second byte of the character, or where the next one begins
        obtain ⟨b, bs, rfl⟩ := List.exists_cons_of_ne_nil hne
        obtain ⟨-, -, htail⟩ := exists_getElem_of_drop h
        rw [skipFrom_past_wide hd (fun b hb => hwide b (.tail _ hb)) htail, Nat.add_right_comm,
          Nat.add_assoc, ← List.length_cons, hrest, hsize]
    · obtain ⟨b, rfl, hbytes, hsize⟩ := exists_utf8_of_ascii hc cs
      rw [hbytes] at h
      obtain ⟨-, -, htail⟩ := exists_getElem_of_drop h
      rw [hsize]
      refine ⟨?_, (ih htail).1⟩
      -- one byte: a backslash, a bracket of a class, the mark that ends the literal, or another
      rw [skipFrom_of_drop h, endLiteral?, Zone.next]
      simp only [Bool.and_eq_true, decide_eq_true_eq, Bool.not_eq_true']
      split
      · rw [if_neg (by simp [Zone.isCode]), map_past_cons, hsize]
        exact (ih htail).2
      split
      · rw [if_neg (by simp [Zone.isCode]), map_past_cons, hsize]
        exact (ih htail).1
      split
      · rw [if_neg (by simp [Zone.isCode]), map_past_cons, hsize]
        exact (ih htail).1
      split
      · simp [Zone.isCode, past, byteLength, hsize]
      · rw [if_neg (by simp [Zone.isCode]), map_past_cons, hsize]
        exact (ih htail).1

/-- What is left behind a literal, and that it opens with a character of ASCII. -/
theorem skipFrom_of_opens (hopens : Zone.opensLiteral prev c = true)
    (h : bytes.drop i = utf8 (c :: cs)) :
    ∃ b tail, bytes.drop i = b :: tail ∧ toChar b = c ∧ c.utf8Size = 1 ∧
      skipFrom bytes c false (i + 1) = (endLiteral? (.literal c false) cs).map (past (i + 1)) := by
  have hc := ascii_opensLiteral prev c hopens
  obtain ⟨b, hb, hbytes, hsize⟩ := exists_utf8_of_ascii hc cs
  rw [hbytes] at h
  obtain ⟨-, -, htail⟩ := exists_getElem_of_drop h
  exact ⟨b, _, h, hb, hsize, (skipFrom_eq hc htail).1⟩

theorem drop_past (front : List Char) (h : bytes.drop i = utf8 cs) (hcs : cs = front ++ rest) :
    bytes.drop (i + byteLength front) = utf8 rest := by
  rw [hcs, utf8_append] at h
  rw [← length_utf8]
  exact drop_add_length h

/-- What stands in front of a character counts only as to whether a value may start after it. -/
theorem opensLiteral_congr (c : Char) (h : Zone.valueMayStart prev = Zone.valueMayStart last) :
    Zone.opensLiteral prev c = Zone.opensLiteral last c := by
  simp only [Zone.opensLiteral, h]

theorem valueMayStart_lastAfter (c : Char)
    (h : Zone.valueMayStart prev = Zone.valueMayStart last) :
    Zone.valueMayStart (Zone.lastAfter prev c) = Zone.valueMayStart (Zone.lastAfter last c) := by
  unfold Zone.lastAfter
  split
  · exact h
  · rfl

theorem spansAt_eq (h : bytes.drop i = utf8 cs) (hi : i ≤ bytes.length)
    (hprev : Zone.valueMayStart prev = Zone.valueMayStart last) :
    spansAt bytes prev i = spansFrom last i cs := by
  fun_induction spansFrom last i cs generalizing prev with
  | case1 last i => rw [spansAt, dif_neg (Nat.not_lt_of_le (List.drop_eq_nil_iff.1 h))]
  -- a literal that nothing ends: its span reaches to the end of the text
  | case2 last i c cs hopens hend =>
    obtain ⟨b, tail, hdrop, rfl, hsize, hskip⟩ := skipFrom_of_opens hopens h
    rw [spansAt_of_drop hdrop, if_pos ((opensLiteral_congr _ hprev).trans hopens), hskip, hend,
      ← length_of_drop h hi]
    rfl
  -- a literal that is closed: the loop goes on behind it, where it stands after a closing mark
  | case3 last i c cs hopens taken rest hend ih =>
    obtain ⟨b, tail, hdrop, rfl, hsize, hskip⟩ := skipFrom_of_opens hopens h
    obtain ⟨hcs, -⟩ := inside_of_endLiteral? within_of_opens hend
    have hrest := drop_past (toChar b :: taken) h (by rw [hcs, List.cons_append])
    have hle : i + byteLength (toChar b :: taken) ≤ bytes.length := by
      rw [length_of_drop h hi, hcs, ← List.cons_append, byteLength_append]
      omega
    have hpast : past (i + 1) (taken, rest) = i + byteLength (toChar b :: taken) := by
      rw [past, byteLength_cons, hsize, Nat.add_assoc]
    rw [spansAt_of_drop hdrop, if_pos ((opensLiteral_congr _ hprev).trans hopens), hskip, hend,
      Option.map_some, hpast]
    exact congrArg (_ :: ·) (ih hrest hle rfl)
  -- code
  | case4 last i c cs hopens ih =>
    rw [Bool.not_eq_true] at hopens
    have hrest := drop_past [c] h rfl
    have hle : i + byteLength [c] ≤ bytes.length := by
      rw [length_of_drop h hi, byteLength_cons, byteLength_cons]
      exact Nat.add_le_add_left (Nat.add_le_add_left (Nat.zero_le _) _) i
    by_cases hc : IsWide c
    · -- the last byte in front is another one, but no value may start after it either
      obtain ⟨bs, hne, hwide, hbytes, hsize⟩ := exists_utf8_of_wide hc cs
      rw [hbytes] at h
      obtain ⟨prev', hprev', hspans⟩ := exists_past_wide (spansAt bytes) spansAt_wide prev hne hwide h
      rw [hspans, hsize]
      refine ih hrest hle ?_
      rw [hprev', lastAfter_of_isWide hc, ascii_valueMayStart.eq_false hc]
    · obtain ⟨b, rfl, hbytes, hsize⟩ := exists_utf8_of_ascii hc cs
      rw [hbytes] at h
      rw [spansAt_of_drop h, if_neg (by rw [opensLiteral_congr _ hprev, hopens]; decide), ← hsize]
      exact ih hrest hle (valueMayStart_lastAfter _ hprev)

/-- The literals that the loop finds are those of the text. -/
theorem literalSpans_eq (text : List Char) : literalSpans (utf8 text) = spans text :=
  spansAt_eq List.drop_zero (Nat.zero_le _) rfl

/-- A literal is a part of its text that is not empty. -/
theorem boundary_of_mem_spansFrom {text : List Char} {s : Span} (htext : text = front ++ cs)
    (hi : i = byteLength front) (h : s ∈ spansFrom last i cs) :
    s.start < s.stop ∧ Boundary text s.start ∧ Boundary text s.stop := by
  fun_induction spansFrom last i cs generalizing front with
  | case1 => cases h
  | case2 last i c cs hopens hend =>
    obtain rfl := List.mem_singleton.1 h
    refine ⟨Nat.lt_add_of_pos_right (byteLength_cons_pos c cs), ⟨front, c :: cs, htext, hi⟩, text, [],
      (List.append_nil text).symm, ?_⟩
    rw [htext, byteLength_append, hi]
  -- the span of this literal, or one behind it
  | case3 last i c cs hopens taken rest hend ih =>
    obtain ⟨hcs, -⟩ := inside_of_endLiteral? within_of_opens hend
    have hbehind : text = front ++ c :: taken ++ rest := by
      rw [htext, hcs, List.append_assoc, List.cons_append]
    have hstop : i + byteLength (c :: taken) = byteLength (front ++ c :: taken) := by
      rw [byteLength_append, hi]
    rcases List.mem_cons.1 h with rfl | h
    · exact ⟨Nat.lt_add_of_pos_right (byteLength_cons_pos c taken), ⟨front, c :: cs, htext, hi⟩,
        front ++ c :: taken, rest, hbehind, hstop⟩
    · exact ih hbehind hstop h
  | case4 last i c cs hopens ih =>
    have hbehind : text = front ++ [c] ++ cs := by rw [htext, List.append_cons]
    have hnext : i + c.utf8Size = byteLength (front ++ [c]) := by
      rw [byteLength_append, hi]
      rfl
    exact ih hbehind hnext h

/-- A literal ends where the next one begins, or before. -/
theorem pairwise_spansFrom (last : Option Char) (offset : ℕ) (cs : List Char) :
    (spansFrom last offset cs).Pairwise fun s s' => s.stop ≤ s'.start := by
  fun_induction spansFrom last offset cs with
  | case1 => exact .nil
  | case2 => exact List.pairwise_singleton ..
  | case3 last offset c cs hopens taken rest hend ih =>
    exact List.pairwise_cons.2 ⟨fun s => le_start_of_mem_spansFrom, ih⟩
  | case4 last offset c cs hopens ih => exact ih

theorem closingAt_eq (h : bytes.drop i = utf8 cs)
    (hprev : Zone.valueMayStart prev = Zone.valueMayStart last) :
    closingAt bytes prev depth i = (closingFrom? last i depth cs).map Prod.fst := by
  fun_induction closingFrom? last i depth cs generalizing prev with
  | case1 last i depth =>
    rw [closingAt, dif_neg (Nat.not_lt_of_le (List.drop_eq_nil_iff.1 h)), Option.map_none]
  -- a literal that nothing ends hides all delimiters behind it
  | case2 last i depth c cs hopens hend =>
    obtain ⟨b, tail, hdrop, rfl, hsize, hskip⟩ := skipFrom_of_opens hopens h
    rw [closingAt_of_drop hdrop, if_pos ((opensLiteral_congr _ hprev).trans hopens), hskip, hend]
    rfl
  | case3 last i depth c cs hopens taken rest hend ih =>
    obtain ⟨b, tail, hdrop, rfl, hsize, hskip⟩ := skipFrom_of_opens hopens h
    obtain ⟨hcs, -⟩ := inside_of_endLiteral? within_of_opens hend
    have hrest := drop_past (toChar b :: taken) h (by rw [hcs, List.cons_append])
    have hpast : past (i + 1) (taken, rest) = i + byteLength (toChar b :: taken) := by
      rw [past, byteLength_cons, hsize, Nat.add_assoc]
    rw [closingAt_of_drop hdrop, if_pos ((opensLiteral_congr _ hprev).trans hopens), hskip, hend,
      Option.map_some, hpast, Option.bind_some, ih hrest rfl, Option.map_map]
    rfl
  -- one deeper
  | case4 last i depth c cs hopens hopener ih =>
    obtain ⟨b, rfl, hbytes, hsize⟩ := exists_utf8_of_ascii (ascii_isOpener c hopener) cs
    rw [closingAt_of_drop (hbytes ▸ h), if_neg (by rw [opensLiteral_congr _ hprev]; exact hopens),
      if_pos hopener]
    have hmore := ih (drop_past [toChar b] h rfl) rfl
    rwa [hsize] at hmore ⊢
  -- the delimiter that is looked for
  | case5 last i depth c cs hopens hopener hcloser hdepth =>
    obtain ⟨b, rfl, hbytes, hsize⟩ := exists_utf8_of_ascii (ascii_isCloser c hcloser) cs
    rw [closingAt_of_drop (hbytes ▸ h), if_neg (by rw [opensLiteral_congr _ hprev]; exact hopens),
      if_neg hopener, if_pos hcloser, if_pos hdepth]
    rfl
  -- one less deep
  | case6 last i depth c cs hopens hopener hcloser hdepth ih =>
    obtain ⟨b, rfl, hbytes, hsize⟩ := exists_utf8_of_ascii (ascii_isCloser c hcloser) cs
    rw [closingAt_of_drop (hbytes ▸ h), if_neg (by rw [opensLiteral_congr _ hprev]; exact hopens),
      if_neg hopener, if_pos hcloser, if_neg hdepth]
    have hmore := ih (drop_past [toChar b] h rfl) rfl
    rwa [hsize] at hmore ⊢
  | case7 last i depth c cs hopens hopener hcloser ih =>
    have hrest := drop_past [c] h rfl
    by_cases hc : IsWide c
    · -- no byte of a wide character is a delimiter
      obtain ⟨bs, hne, hwide, hbytes, hsize⟩ := exists_utf8_of_wide hc cs
      rw [hbytes] at h
      obtain ⟨prev', hprev', hclosing⟩ :=
        exists_past_wide (closingAt bytes · depth) closingAt_wide prev hne hwide h
      rw [hclosing, hsize]
      refine ih hrest ?_
      rw [hprev', lastAfter_of_isWide hc, ascii_valueMayStart.eq_false hc]
    · obtain ⟨b, rfl, hbytes, hsize⟩ := exists_utf8_of_ascii hc cs
      rw [closingAt_of_drop (hbytes ▸ h), if_neg (by rw [opensLiteral_congr _ hprev]; exact hopens),
        if_neg hopener, if_neg hcloser, ← hsize]
      exact ih hrest (valueMayStart_lastAfter _ hprev)

/-- Behind a parenthesis the search ends where the text is cut. -/
theorem findClosing_eq (front rest : List Char) :
    findClosing (utf8 (front ++ '(' :: rest)) (byteLength front) =
      (close? rest).map fun cut => byteLength (front ++ '(' :: cut.inside) := by
  have hsearch : findClosing (utf8 (front ++ '(' :: rest)) (byteLength front) =
      (closing? (byteLength front) rest).map Prod.fst :=
    closingAt_eq (drop_utf8 front ('(' :: rest)) rfl
  rw [hsearch, closing?_eq, Option.map_map]
  congr 1
  funext cut
  rw [byteLength_append, byteLength_cons]
  exact Nat.add_assoc ..

/-- Behind an opening delimiter the search ends at a later byte, which is a character by itself. -/
theorem lt_of_findClosing {text : List Char} (hi : i < (utf8 text).length)
    (hopener : isOpener (toChar (utf8 text)[i]) = true) (h : findClosing (utf8 text) i = some j) :
    i < j ∧ Boundary text j ∧ Boundary text (j + 1) := by
  have hopens : Zone.opensLiteral none (toChar (utf8 text)[i]) = false := by
    generalize toChar (utf8 text)[i] = c at hopener
    simp only [isOpener, Bool.or_eq_true, decide_eq_true_eq] at hopener
    rcases hopener with (rfl | rfl) | rfl <;> rfl
  rw [findClosing, closingAt, dif_pos hi, if_neg (by simp [hopens]), if_pos hopener] at h
  obtain ⟨hle, hj, hcloser⟩ := isCloser_of_closingAt h
  exact ⟨hle, boundary_of_ascii hj (ascii_isCloser _ hcloser)⟩

end ShellQuery.Bytes
