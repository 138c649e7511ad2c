/-
  ShellQuery.Proofs.Dotted

  Calls on a collection that is given by its dotted name, such as `db.a.b.insertOne(`. The name of
  the method is the last one before the parenthesis, and all names before it make up the name of the
  collection; so such a call is read as it is written, with any blanks around its dots and whatever
  follows the parenthesis (`collection?_iff`).
-/
import ShellQuery.Call.Shape
import ShellQuery.Proofs.Locality
import ShellQuery.Proofs.Shell.Matching

namespace ShellQuery.Call

open Text Wrapper

variable {c mark : Char} {cs gap rest tail name method text found : List Char}

/-! ## Names -/

/-- A part of a collection name, or parts with dots between them. -/
inductive DottedName : List Char → Prop where
  | part {c : Char} {cs : List Char} (hc : isNameStart c = true)
    (hcs : ∀ d ∈ cs, isCollectionRest d = true) : DottedName (c :: cs)
  | dot {c : Char} {cs rest : List Char} (hc : isNameStart c = true)
    (hcs : ∀ d ∈ cs, isCollectionRest d = true) (h : DottedName rest) :
    DottedName (c :: (cs ++ '.' :: rest))

/-- The name of a method. -/
inductive MethodName : List Char → Prop where
  | name {c : Char} {cs : List Char} (hc : isNameStart c = true)
    (hcs : ∀ d ∈ cs, isNameRest d = true) : MethodName (c :: cs)

theorem isCollectionRest_of_isNameRest (h : isNameRest c = true) : isCollectionRest c = true := by
  rw [isCollectionRest, h]
  rfl

theorem isCollectionRest_of_isNameStart (h : isNameStart c = true) : isCollectionRest c = true := by
  simp only [isNameStart, Bool.or_eq_true, decide_eq_true_eq] at h
  rcases h with (h | rfl) | rfl
  · simp [isCollectionRest, isNameRest, isWord_of_isAsciiLetter h]
  · decide +kernel
  · decide +kernel

theorem isBlank_of_isCollectionRest (h : isCollectionRest c = true) : isBlank c = false := by
  cases hc : isBlank c with
  | false => rfl
  | true =>
    have hdollar : c ≠ '$' := ne_of_isBlank hc rfl
    have hdash : c ≠ '-' := ne_of_isBlank hc rfl
    simp [isCollectionRest, isNameRest, isWord_of_isBlank hc, hdollar, hdash] at h

/-- The marks around names are no part of them. -/
theorem isCollectionRest_mark : isCollectionRest '.' = false ∧ isCollectionRest '(' = false ∧
    isNameRest '(' = false := by
  decide +kernel

theorem isNameRest_of_isBlank (h : isBlank c = true) : isNameRest c = false := by
  cases hc : isNameRest c with
  | false => rfl
  | true => simp [isBlank_of_isCollectionRest (isCollectionRest_of_isNameRest hc)] at h

theorem isCollectionRest_of_isBlank (h : isBlank c = true) : isCollectionRest c = false := by
  cases hc : isCollectionRest c with
  | false => rfl
  | true => simp [isBlank_of_isCollectionRest hc] at h

theorem isNameStart_of_isBlank (h : isBlank c = true) : isNameStart c = false := by
  cases hc : isNameStart c with
  | false => rfl
  | true => simp [isBlank_of_isCollectionRest (isCollectionRest_of_isNameStart hc)] at h

/-- What comes after a name ends it: blanks or a mark. -/
theorem ends_name {p : Char → Bool} (hp : ∀ c, isBlank c = true → p c = false) (hgap : Blanks gap)
    (hmark : p mark = false) : ∀ c ∈ (gap ++ mark :: rest).head?, p c = false := by
  cases gap with
  | nil => simpa using hmark
  | cons b gap => simpa using hp b (hgap b (.head _))

theorem name?_append {first p : Char → Bool} (hc : first c = true) (hcs : ∀ d ∈ cs, p d = true)
    (hrest : ∀ d ∈ rest.head?, p d = false) :
    name? first p (c :: (cs ++ rest)) = some (c :: cs, rest) := by
  obtain ⟨htake, hdrop⟩ := takeWhile_append cs hrest
  rw [name?, if_pos hc, htake, hdrop, List.takeWhile_eq_self_iff.2 hcs,
    List.dropWhile_eq_nil_iff.2 hcs, List.nil_append]

theorem part?_append (hc : isNameStart c = true) (hcs : ∀ d ∈ cs, isCollectionRest d = true)
    (rest : List Char) : part? (c :: (cs ++ '.' :: rest)) = some (c :: cs, '.' :: rest) :=
  name?_append hc hcs (by simpa using isCollectionRest_mark.1)

theorem name?_eq_some {first p : Char → Bool} (h : name? first p cs = some (name, rest)) :
    cs = name ++ rest ∧ ∃ c ds, name = c :: ds ∧ first c = true ∧ ∀ d ∈ ds, p d = true := by
  cases cs with
  | nil => cases h
  | cons c cs =>
    simp only [name?] at h
    split at h
    · rename_i hc
      cases h
      refine ⟨?_, c, _, rfl, hc, fun d hd => List.mem_takeWhile_imp hd⟩
      rw [List.cons_append, List.takeWhile_append_dropWhile]
    · cases h

theorem MethodName.trimStart (hmethod : MethodName method) (tail : List Char) :
    trimStart (method ++ tail) = method ++ tail := by
  obtain ⟨hc, -⟩ := hmethod
  exact trimStart_cons (isBlank_of_isCollectionRest (isCollectionRest_of_isNameStart hc)) _

/-- The name of a method reads as a part of a dotted name. -/
theorem MethodName.part? (hmethod : MethodName method) (hgap : Blanks gap) (rest : List Char) :
    part? (method ++ (gap ++ '(' :: rest)) = some (method, gap ++ '(' :: rest) := by
  obtain ⟨hc, hcs⟩ := hmethod
  have hends : ∀ d ∈ (gap ++ '(' :: rest).head?, isCollectionRest d = false :=
    ends_name (fun _ => isCollectionRest_of_isBlank) hgap isCollectionRest_mark.2.1
  exact name?_append hc (fun d hd => isCollectionRest_of_isNameRest (hcs d hd)) hends

theorem DottedName.char_cases (hname : DottedName name) (hmem : c ∈ name) :
    isCollectionRest c = true ∨ c = '.' := by
  induction hname with
  | part hc hcs =>
    rcases List.mem_cons.1 hmem with rfl | hmem
    · exact .inl (isCollectionRest_of_isNameStart hc)
    · exact .inl (hcs c hmem)
  | dot hc hcs h ih =>
    rcases List.mem_cons.1 hmem with rfl | hmem
    · exact .inl (isCollectionRest_of_isNameStart hc)
    rcases List.mem_append.1 hmem with hmem | hmem
    · exact .inl (hcs c hmem)
    · exact (List.mem_cons.1 hmem).elim .inr ih

/-- A name is on one line. -/
theorem DottedName.break_not_mem (hname : DottedName name) : '\n' ∉ name := fun hmem => by
  rcases hname.char_cases hmem with hc | hc
  · exact absurd (isBlank_of_isCollectionRest hc) (by decide)
  · cases hc

theorem MethodName.dottedName (hmethod : MethodName method) : DottedName method := by
  obtain ⟨hc, hcs⟩ := hmethod
  exact .part hc fun d hd => isCollectionRest_of_isNameRest (hcs d hd)

theorem DottedName.trimStart (hname : DottedName name) (tail : List Char) :
    Text.trimStart (name ++ tail) = name ++ tail := by
  have hblank {c : Char} (hc : isNameStart c = true) : isBlank c = false :=
    isBlank_of_isCollectionRest (isCollectionRest_of_isNameStart hc)
  cases hname with
  | part hc => exact trimStart_cons (hblank hc) _
  | dot hc => exact trimStart_cons (hblank hc) _

/-! ## The method -/

/-- A dot with blanks around it. -/
inductive Dot : List Char → Prop where
  | blanks {before after : List Char} (hbefore : Blanks before) (hafter : Blanks after) :
    Dot (before ++ '.' :: after)

/-- A dot, the name of a method, and what may stand before the parenthesis. -/
inductive DotMethod : List Char → List Char → Prop where
  | called {dot method gap : List Char} (hdot : Dot dot) (hmethod : MethodName method)
    (hgap : Blanks gap) : DotMethod (dot ++ (method ++ gap)) method

theorem method?_iff : method? cs = some (method, rest) ↔
    ∃ gap, MethodName method ∧ Blanks gap ∧ cs = method ++ (gap ++ '(' :: rest) := by
  constructor
  · intro h
    simp only [method?, Option.bind_eq_bind, Option.bind_eq_some_iff] at h
    obtain ⟨⟨name, tail⟩, hname, rest', hmark, hok⟩ := h
    cases hok
    obtain ⟨rfl, c, ds, rfl, hc, hds⟩ := name?_eq_some hname
    obtain ⟨gap, hgap, rfl⟩ := dropMark?_eq_some hmark
    exact ⟨gap, .name hc hds, hgap, rfl⟩
  · rintro ⟨gap, hmethod, hgap, rfl⟩
    obtain ⟨hc, hcs⟩ := hmethod
    have hends : ∀ d ∈ (gap ++ '(' :: rest).head?, isNameRest d = false :=
      ends_name (fun _ => isNameRest_of_isBlank) hgap isCollectionRest_mark.2.2
    rw [method?, List.cons_append, name?_append hc hcs hends]
    simp [dropMark?_blanks_append hgap (show isBlank '(' = false from rfl)]

/-- A dot and a method are read as they are written. -/
theorem dotMethod?_iff : dotMethod? cs = some (method, rest) ↔
    ∃ text, DotMethod text method ∧ cs = text ++ '(' :: rest := by
  constructor
  · intro h
    simp only [dotMethod?, Option.bind_eq_bind, Option.bind_eq_some_iff] at h
    obtain ⟨tail, hdot, hmethod⟩ := h
    obtain ⟨before, hbefore, rfl⟩ := dropMark?_eq_some hdot
    obtain ⟨after, hafter, htail⟩ := eq_blanks_append_trimStart tail
    obtain ⟨gap, hname, hgap, htrim⟩ := method?_iff.1 hmethod
    refine ⟨_, .called (.blanks hbefore hafter) hname hgap, ?_⟩
    rw [htail, htrim]
    simp
  · rintro ⟨text, ⟨⟨hbefore, hafter⟩, hmethod, hgap⟩, rfl⟩
    rename_i gap before after
    have htext : before ++ '.' :: after ++ (method ++ gap) ++ '(' :: rest =
        before ++ '.' :: (after ++ (method ++ (gap ++ '(' :: rest))) := by simp
    rw [dotMethod?, htext, dropMark?_blanks_append hbefore rfl]
    simp only [Option.bind_eq_bind, Option.bind_some, trimStart_blanks_append hafter,
      hmethod.trimStart]
    exact method?_iff.2 ⟨gap, hmethod, hgap, rfl⟩

/-! ## The collection -/

theorem afterDatabase?_eq_some (h : afterDatabase? cs = some tail) :
    ∃ dot, Dot dot ∧ cs = 'd' :: 'b' :: (dot ++ tail) := by
  simp only [afterDatabase?, Option.bind_eq_bind, Option.bind_eq_some_iff, Option.some.injEq] at h
  obtain ⟨cs₁, hdatabase, cs₂, hdot, rfl⟩ := h
  obtain ⟨before, hbefore, rfl⟩ := dropMark?_eq_some hdot
  obtain ⟨after, hafter, hcs₂⟩ := eq_blanks_append_trimStart cs₂
  refine ⟨_, .blanks hbefore hafter, ?_⟩
  rw [List.append_assoc, List.cons_append, ← hcs₂, dropText?_eq_some hdatabase]
  rfl

theorem afterDatabase?_dot {dot : List Char} (hdot : Dot dot) (htail : trimStart tail = tail) :
    afterDatabase? ('d' :: 'b' :: (dot ++ tail)) = some tail := by
  obtain ⟨hbefore, hafter⟩ := hdot
  rename_i before after
  have hmark : dropMark? '.' (before ++ '.' :: (after ++ tail)) = some (after ++ tail) :=
    dropMark?_blanks_append hbefore rfl
  simp [afterDatabase?, dropText?, hmark, trimStart_blanks_append hafter, htail]

/-- A part that leads to a call belongs to the name. -/
theorem dotted?_longer {part : List Char} {fuel : Nat}
    {result : List Char × List Char × List Char} (hpart : part? cs = some (part, tail))
    (htail : dotted? fuel (name ++ '.' :: part) tail = some result) :
    dotted? (fuel + 1) name ('.' :: cs) = some result := by
  simp only [dotted?, dropText?, if_true, Option.bind_eq_bind, Option.bind_some, hpart, htail]
  rfl

theorem dotted?_eq_some {fuel : Nat} (h : dotted? fuel name cs = some (found, method, rest)) :
    ∃ more text, (more = [] ∨ ∃ tail, DottedName tail ∧ more = '.' :: tail) ∧
      DotMethod text method ∧ found = name ++ more ∧ cs = more ++ (text ++ '(' :: rest) := by
  induction fuel generalizing name cs with
  | zero => cases h
  | succ fuel ih =>
    simp only [dotted?, Option.orElse_eq_orElse, Option.orElse_eq_or] at h
    rcases Option.or_eq_some_iff.1 h with hlonger | ⟨-, hhere⟩
    · simp only [Option.bind_eq_bind, Option.bind_eq_some_iff] at hlonger
      obtain ⟨cs₁, hdot, ⟨part, cs₂⟩, hpart, hlonger⟩ := hlonger
      obtain ⟨more, text, hmore, htext, rfl, rfl⟩ := ih hlonger
      obtain ⟨rfl, c, ds, rfl, hc, hds⟩ := name?_eq_some hpart
      refine ⟨'.' :: (c :: ds ++ more), text, .inr ⟨_, ?_, rfl⟩, htext, by simp, ?_⟩
      · rcases hmore with rfl | ⟨tail, htail, rfl⟩
        · rw [List.append_nil]
          exact .part hc hds
        · exact .dot hc hds htail
      · rw [dropText?_eq_some hdot]
        simp
    · simp only [Option.bind_eq_bind, Option.bind_eq_some_iff] at hhere
      obtain ⟨⟨method', rest'⟩, hmethod, hok⟩ := hhere
      cases hok
      obtain ⟨text, htext, rfl⟩ := dotMethod?_iff.1 hmethod
      exact ⟨[], text, .inl rfl, htext, by simp, rfl⟩

/-- The last name before the parenthesis is the method, and no part of the collection name. -/
theorem dotted?_text (htext : DotMethod text method) (fuel : Nat) (name rest : List Char) :
    dotted? (fuel + 1) name (text ++ '(' :: rest) = some (name, method, rest) := by
  have hhere : dotMethod? (text ++ '(' :: rest) = some (method, rest) :=
    dotMethod?_iff.2 ⟨text, htext, rfl⟩
  obtain ⟨⟨hbefore, hafter⟩, hmethod, hgap⟩ := htext
  rename_i gap before after
  -- the method is tried as a part of the name first, and no dot comes after it
  have hlonger : ((dropText? ['.'] (before ++ '.' :: after ++ (method ++ gap) ++ '(' :: rest)).bind
      fun cs => (part? cs).bind fun read =>
        dotted? fuel (name ++ '.' :: read.1) read.2) = none := by
    cases before with
    | cons b before =>
      have hb : '.' ≠ b := (ne_of_isBlank (hbefore b (.head _)) rfl).symm
      simp [dropText?, hb]
    | nil =>
      cases after with
      | cons b after =>
        have hb := isNameStart_of_isBlank (hafter b (.head _))
        simp [dropText?, part?, name?, hb]
      | nil =>
        have hpart := hmethod.part? hgap rest
        have hnone : dotted? fuel (name ++ '.' :: method) (gap ++ '(' :: rest) = none := by
          cases fuel with
          | zero => rfl
          | succ fuel =>
            have hdot : dropText? ['.'] (gap ++ '(' :: rest) = none := by
              cases gap with
              | nil => rfl
              | cons b gap =>
                have hb : '.' ≠ b := (ne_of_isBlank (hgap b (.head _)) rfl).symm
                simp [dropText?, hb]
            have hmark : dropMark? '.' (gap ++ '(' :: rest) = none :=
              dropMark?_blanks_append_of_ne hgap rfl (by decide)
            simp [dotted?, dotMethod?, hdot, hmark]
        simp [dropText?, hpart, hnone]
  simp only [dotted?, Option.bind_eq_bind, hlonger, hhere]
  rfl

theorem DotMethod.ends_part (htext : DotMethod text method) (tail : List Char) :
    ∀ d ∈ (text ++ tail).head?, isCollectionRest d = false := by
  obtain ⟨⟨hbefore, -⟩, -, -⟩ := htext
  rw [List.append_assoc, List.append_assoc, List.cons_append]
  exact ends_name (fun _ => isCollectionRest_of_isBlank) hbefore isCollectionRest_mark.1

/-- The parts of a collection name after the first, and the method. -/
theorem dotted?_append (hname : DottedName name) {fuel : Nat} (hfuel : name.length < fuel)
    (front : List Char) (htext : DotMethod text method) (rest : List Char) :
    dotted? (fuel + 1) front ('.' :: (name ++ (text ++ '(' :: rest))) =
      some (front ++ '.' :: name, method, rest) := by
  induction hname generalizing fuel front with
  | @part c cs hc hcs =>
    obtain ⟨fuel, rfl⟩ := Nat.exists_eq_add_of_le' (show 1 ≤ fuel by omega)
    exact dotted?_longer (name?_append hc hcs (htext.ends_part _)) (dotted?_text htext fuel _ rest)
  | @dot c cs name hc hcs h ih =>
    obtain ⟨fuel, rfl⟩ := Nat.exists_eq_add_of_le' (show 1 ≤ fuel by omega)
    simp only [List.length_cons, List.length_append] at hfuel
    have htail := ih (show name.length < fuel by omega) (front ++ '.' :: c :: cs)
    rw [List.cons_append, List.append_assoc, List.cons_append]
    refine (dotted?_longer (part?_append hc hcs _) htail).trans ?_
    simp

/-- A call on a collection that is given by its dotted name is read as it is written. -/
theorem collection?_iff : collection? cs = some head ↔
    ∃ dot name text, Dot dot ∧ DottedName name ∧ DotMethod text head.method ∧
      cs = 'd' :: 'b' :: (dot ++ (name ++ (text ++ '(' :: head.rest))) ∧
      head.shape = .collection ∧ head.collection = some name := by
  constructor
  · intro h
    simp only [collection?, Option.bind_eq_bind, Option.bind_eq_some_iff] at h
    obtain ⟨tail, hdatabase, ⟨part, after⟩, hpart, ⟨found, method, rest⟩, hdotted, hok⟩ := h
    cases hok
    obtain ⟨dot, hdot, rfl⟩ := afterDatabase?_eq_some hdatabase
    obtain ⟨rfl, c, ds, rfl, hc, hds⟩ := name?_eq_some hpart
    obtain ⟨more, text, hmore, htext, rfl, rfl⟩ := dotted?_eq_some hdotted
    refine ⟨dot, _, text, hdot, ?_, htext, by simp, rfl, rfl⟩
    -- the name is the first part, with the others behind it if there are any
    rcases hmore with rfl | ⟨tail, htail, rfl⟩
    · rw [List.append_nil]
      exact .part hc hds
    · exact .dot hc hds htail
  · rintro ⟨dot, name, text, hdot, hname, htext, rfl, hshape, hcollection⟩
    obtain ⟨shape, collection, method, rest⟩ := head
    cases hshape
    cases hcollection
    rw [collection?, afterDatabase?_dot hdot (hname.trimStart _)]
    cases hname with
    | @part c cs hc hcs =>
      have hpart := name?_append hc hcs (htext.ends_part ('(' :: rest))
      simp [part?, hpart, dotted?_text htext]
    | @dot c cs name hc hcs h =>
      have hpart := part?_append hc hcs (name ++ (text ++ '(' :: rest))
      -- each part uses a dot of the text, so its length is enough fuel
      have hfuel : name.length < ('.' :: (name ++ (text ++ '(' :: rest))).length := by
        simp only [List.length_cons, List.length_append]
        omega
      have hdotted := dotted?_append h hfuel (c :: cs) htext rest
      simp only [Option.bind_eq_bind, Option.bind_some, List.cons_append, List.append_assoc, hpart]
      simp only [List.length_cons, List.cons_append] at hdotted ⊢
      rw [hdotted]
      rfl

end ShellQuery.Call
