/-
  ShellQuery.Proofs.Opening

  What a primary call begins with, up to its opening parenthesis. `Opening` writes the three shapes
  down as texts. Each reader of a shape reads its texts and no others, whatever follows the
  parenthesis (`head?_eq_some_iff`). A text that one of them reads is not read by another
  (`pairwise_readers`), so a text has one opening (`Opening.unique`), and it does not matter in which
  order the shapes are tried (`findSome?_readers`).
-/
import Mathlib.Data.List.Pairwise
import ShellQuery.Proofs.Dotted

namespace ShellQuery.Call

open Text Wrapper

variable {c : Char} {cs gap rest tail name method text front : List Char} {head : Head}

/-! ## Texts -/

/-- The calls on the database itself. -/
def adminMethods : List (CallShape × List Char) :=
  [(.currentOp, "currentOp".toList), (.runCommand, "runCommand".toList),
    (.adminCommand, "adminCommand".toList)]

/-- The text of a call before its opening parenthesis, with its shape, its collection and its
    method. -/
inductive Opening : List Char → CallShape → Option (List Char) → List Char → Prop where
  | admin {dot method gap : List Char} {shape : CallShape} (hdot : Dot dot)
    (hmethod : (shape, method) ∈ adminMethods) (hgap : Blanks gap) :
    Opening ('d' :: 'b' :: (dot ++ (method ++ gap))) shape none method
  | getCollection {dot gap gap' gap'' name text method : List Char} {q : Char} (hdot : Dot dot)
    (hgap : Blanks gap) (hgap' : Blanks gap') (hgap'' : Blanks gap'') (hq : isQuote q = true)
    (hname : q ∉ name) (htext : DotMethod text method) :
    Opening ('d' :: 'b' :: (dot ++ ("getCollection".toList ++ (gap ++ '(' :: (gap' ++
      q :: (name ++ q :: (gap'' ++ ')' :: text)))))) ) .getCollection (some name) method
  | collection {dot name text method : List Char} (hdot : Dot dot) (hname : DottedName name)
    (htext : DotMethod text method) :
    Opening ('d' :: 'b' :: (dot ++ (name ++ text))) .collection (some name) method

/-! ## Reading the shapes -/

theorem methodName_of_mem_adminMethods {shape : CallShape} (h : (shape, method) ∈ adminMethods) :
    MethodName method := by
  have hletters : ∀ m ∈ adminMethods.map Prod.snd, ∀ d ∈ m, isAsciiLetter d = true := by decide
  have hnonempty : ∀ m ∈ adminMethods.map Prod.snd, m ≠ [] := by decide
  have hmem : method ∈ adminMethods.map Prod.snd := List.mem_map_of_mem h
  cases method with
  | nil => exact absurd rfl (hnonempty _ hmem)
  | cons c cs =>
    have hletter : ∀ d ∈ c :: cs, isAsciiLetter d = true := hletters _ hmem
    refine .name ?_ fun d hd => ?_
    · simp [isNameStart, hletter c (.head _)]
    · simp [isNameRest, isWord_of_isAsciiLetter (hletter d (.tail _ hd))]

/-- A word and the parenthesis after it. -/
theorem dropText?_bind_iff {word : List Char} {shape : CallShape} :
    ((dropText? word cs).bind fun cs => (dropMark? '(' cs).bind fun rest =>
      some (⟨shape, none, word, rest⟩ : Head)) = some head ↔
    ∃ gap, Blanks gap ∧ cs = word ++ (gap ++ '(' :: head.rest) ∧ head.shape = shape ∧
      head.collection = none ∧ head.method = word := by
  constructor
  · intro h
    obtain ⟨tail, hword, h⟩ := Option.bind_eq_some_iff.1 h
    obtain ⟨rest, hmark, hok⟩ := Option.bind_eq_some_iff.1 h
    cases hok
    obtain ⟨gap, hgap, rfl⟩ := dropMark?_eq_some hmark
    exact ⟨gap, hgap, dropText?_eq_some hword, rfl, rfl, rfl⟩
  · rintro ⟨gap, hgap, rfl, rfl, hcollection, rfl⟩
    rw [dropText?_append, Option.bind_some, dropMark?_blanks_append hgap rfl, ← hcollection]
    rfl

/-- A call on the database itself is read as it is written. -/
theorem admin?_iff : admin? cs = some head ↔
    ∃ dot gap, Dot dot ∧ Blanks gap ∧ (head.shape, head.method) ∈ adminMethods ∧
      cs = 'd' :: 'b' :: (dot ++ (head.method ++ (gap ++ '(' :: head.rest))) ∧
      head.collection = none := by
  constructor
  · intro h
    simp only [admin?, Option.bind_eq_bind, Option.bind_eq_some_iff, Option.orElse_eq_orElse,
      Option.orElse_eq_or] at h
    obtain ⟨tail, hdatabase, h⟩ := h
    obtain ⟨dot, hdot, rfl⟩ := afterDatabase?_eq_some hdatabase
    -- the words are tried one after another, each in the same way
    have hcases : ∃ shape word, (shape, word) ∈ adminMethods ∧
        ((dropText? word tail).bind fun cs => (dropMark? '(' cs).bind fun rest =>
          some (⟨shape, none, word, rest⟩ : Head)) = some head := by
      rcases Option.or_eq_some_iff.1 h with h | ⟨-, h⟩
      · exact ⟨_, _, by simp [adminMethods], h⟩
      rcases Option.or_eq_some_iff.1 h with h | ⟨-, h⟩
      · exact ⟨_, _, by simp [adminMethods], h⟩
      · exact ⟨_, _, by simp [adminMethods], h⟩
    obtain ⟨shape, word, hmem, hread⟩ := hcases
    obtain ⟨gap, hgap, rfl, rfl, hcollection, rfl⟩ := dropText?_bind_iff.1 hread
    exact ⟨dot, gap, hdot, hgap, hmem, rfl, hcollection⟩
  · rintro ⟨dot, gap, hdot, hgap, hmem, rfl, hcollection⟩
    have hread := dropText?_bind_iff.2 ⟨gap, hgap, rfl, rfl, hcollection, rfl⟩
    rw [admin?, afterDatabase?_dot hdot ((methodName_of_mem_adminMethods hmem).trimStart _)]
    obtain ⟨shape, collection, method, rest⟩ := head
    simp only [adminMethods, List.mem_cons, List.not_mem_nil, or_false, Prod.mk.injEq] at hmem
    simp only [Option.bind_eq_bind, Option.bind_some, Option.orElse_eq_orElse,
      Option.orElse_eq_or, Option.or_eq_some_iff]
    -- a word that comes later is read only where the earlier ones are not
    rcases hmem with ⟨rfl, rfl⟩ | ⟨rfl, rfl⟩ | ⟨rfl, rfl⟩
    · exact .inl hread
    · exact .inr ⟨rfl, .inl hread⟩
    · exact .inr ⟨rfl, .inr ⟨rfl, hread⟩⟩

theorem plainString?_iff : plainString? cs = some (name, rest) ↔
    ∃ q, isQuote q = true ∧ q ∉ name ∧ cs = q :: (name ++ q :: rest) := by
  cases cs with
  | nil => simp [plainString?]
  | cons q cs =>
    simp only [plainString?]
    constructor
    · intro h
      split at h
      · rename_i hq
        split at h
        · cases h
        · rename_i c after hdrop
          cases h
          have hc : c = q := by
            have hhead := List.head?_dropWhile_not (· ≠ q) cs
            rw [hdrop] at hhead
            simpa using hhead
          refine ⟨q, hq, fun hmem => ?_, ?_⟩
          · simpa using List.mem_takeWhile_imp hmem
          · rw [← hc, ← hdrop, hc, List.takeWhile_append_dropWhile]
      · cases h
    · rintro ⟨q', hq, hname, heq⟩
      obtain ⟨rfl, rfl⟩ := List.cons.inj heq
      have hall : ∀ d ∈ name, decide (d ≠ q) = true := by
        intro d hd
        simpa using fun hdq : d = q => hname (hdq ▸ hd)
      rw [if_pos hq, List.dropWhile_append_of_pos hall, List.takeWhile_append_of_pos hall]
      simp

/-- A call on a collection that is given by a string is read as it is written. -/
theorem getCollection?_iff : getCollection? cs = some head ↔
    ∃ dot gap gap' gap'' q name text, Dot dot ∧ Blanks gap ∧ Blanks gap' ∧ Blanks gap'' ∧
      isQuote q = true ∧ q ∉ name ∧ DotMethod text head.method ∧
      cs = 'd' :: 'b' :: (dot ++ ("getCollection".toList ++ (gap ++ '(' :: (gap' ++
        q :: (name ++ q :: (gap'' ++ ')' :: (text ++ '(' :: head.rest))))))) ∧
      head.shape = .getCollection ∧ head.collection = some name := by
  constructor
  · intro h
    simp only [getCollection?, Option.bind_eq_bind, Option.bind_eq_some_iff] at h
    obtain ⟨tail, hdatabase, tail₁, hword, tail₂, hopen, ⟨name, tail₃⟩, hstring, tail₄, hclose,
      ⟨method, rest⟩, hmethod, hok⟩ := h
    cases hok
    -- each piece that was read gives back the text it was read from
    obtain ⟨dot, hdot, rfl⟩ := afterDatabase?_eq_some hdatabase
    obtain rfl := dropText?_eq_some hword
    obtain ⟨gap, hgap, rfl⟩ := dropMark?_eq_some hopen
    obtain ⟨gap', hgap', htail₂⟩ := eq_blanks_append_trimStart tail₂
    obtain ⟨q, hq, hname, htrim⟩ := plainString?_iff.1 hstring
    obtain ⟨gap'', hgap'', rfl⟩ := dropMark?_eq_some hclose
    obtain ⟨text, htext, rfl⟩ := dotMethod?_iff.1 hmethod
    refine ⟨dot, gap, gap', gap'', q, name, text, hdot, hgap, hgap', hgap'', hq, hname, htext, ?_,
      rfl, rfl⟩
    rw [htail₂, htrim]
  · rintro ⟨dot, gap, gap', gap'', q, name, text, hdot, hgap, hgap', hgap'', hq, hname, htext, rfl,
      hshape, hcollection⟩
    obtain ⟨shape, collection, method, rest⟩ := head
    cases hshape
    cases hcollection
    have hstring : plainString? (q :: (name ++ q :: (gap'' ++ ')' :: (text ++ '(' :: rest)))) =
        some (name, gap'' ++ ')' :: (text ++ '(' :: rest)) :=
      plainString?_iff.2 ⟨q, hq, hname, rfl⟩
    rw [getCollection?, afterDatabase?_dot hdot rfl]
    simp only [Option.bind_eq_bind, Option.bind_some, dropText?_append,
      dropMark?_blanks_append hgap (show isBlank '(' = false from rfl),
      trimStart_blanks_append hgap', trimStart_cons (isBlank_of_isQuote hq), hstring,
      dropMark?_blanks_append hgap'' (show isBlank ')' = false from rfl),
      dotMethod?_iff.2 ⟨text, htext, rfl⟩]

/-! ## Any shape -/

/-- The readers of the three shapes, in the order in which they are tried. -/
def readers : List (List Char → Option Head) :=
  [admin?, getCollection?, collection?]

theorem findSome?_readers_eq_head? (cs : List Char) : readers.findSome? (· cs) = head? cs := by
  simp only [readers, head?, List.findSome?_cons, List.findSome?_nil, Option.orElse_eq_orElse,
    Option.orElse_eq_or]
  cases admin? cs <;> cases getCollection? cs <;> cases collection? cs <;> rfl

/-- What the readers read are the openings. -/
theorem exists_reader_iff : (∃ read ∈ readers, read cs = some head) ↔
    ∃ front, Opening front head.shape head.collection head.method ∧
      cs = front ++ '(' :: head.rest := by
  obtain ⟨shape, collection, method, rest⟩ := head
  constructor
  · rintro ⟨read, hmem, hread⟩
    simp only [readers, List.mem_cons, List.not_mem_nil, or_false] at hmem
    -- one reader for each kind of opening
    rcases hmem with rfl | rfl | rfl
    · obtain ⟨dot, gap, hdot, hgap, hmethod, rfl, rfl⟩ := admin?_iff.1 hread
      refine ⟨_, .admin hdot hmethod hgap, ?_⟩
      simp only [List.cons_append, List.append_assoc]
    · obtain ⟨dot, gap, gap', gap'', q, name, text, hdot, hgap, hgap', hgap'', hq, hname, htext, rfl,
        rfl, rfl⟩ := getCollection?_iff.1 hread
      refine ⟨_, .getCollection hdot hgap hgap' hgap'' hq hname htext, ?_⟩
      simp only [List.cons_append, List.append_assoc]
    · obtain ⟨dot, name, text, hdot, hname, htext, rfl, rfl, rfl⟩ := collection?_iff.1 hread
      refine ⟨_, .collection hdot hname htext, ?_⟩
      simp only [List.cons_append, List.append_assoc]
  · rintro ⟨front, hopening, rfl⟩
    cases hopening with
    | admin hdot hmethod hgap =>
      refine ⟨admin?, by simp [readers], admin?_iff.2 ⟨_, _, hdot, hgap, hmethod, ?_, rfl⟩⟩
      simp
    | getCollection hdot hgap hgap' hgap'' hq hname htext =>
      refine ⟨getCollection?, by simp [readers], getCollection?_iff.2
        ⟨_, _, _, _, _, _, _, hdot, hgap, hgap', hgap'', hq, hname, htext, ?_, rfl, rfl⟩⟩
      simp
    | collection hdot hname htext =>
      refine ⟨collection?, by simp [readers], collection?_iff.2
        ⟨_, _, _, hdot, hname, htext, ?_, rfl, rfl⟩⟩
      simp

/-! ## No text has two openings -/

/-- A dotted name goes on with a dot after its first part, and not with a parenthesis. -/
theorem DottedName.exists_part? (hname : DottedName name) (htext : DotMethod text method)
    (tail : List Char) :
    ∃ part rest, part? (name ++ (text ++ tail)) = some (part, rest) ∧ dropMark? '(' rest = none := by
  cases hname with
  | part hc hcs =>
    refine ⟨_, _, name?_append hc hcs (htext.ends_part tail), ?_⟩
    obtain ⟨⟨hbefore, -⟩, -, -⟩ := htext
    rw [List.append_assoc, List.append_assoc, List.cons_append]
    exact dropMark?_blanks_append_of_ne hbefore rfl (by decide)
  | dot hc hcs =>
    rw [List.cons_append, List.append_assoc, List.cons_append]
    exact ⟨_, _, part?_append hc hcs _, dropMark?_blanks_append_of_ne Blanks.nil rfl (by decide)⟩

/-- What comes after `db` and its dot: the first name there, and whether a parenthesis follows. -/
theorem admin?_part {head : Head} (h : admin? cs = some head) :
    ∃ tail rest, afterDatabase? cs = some tail ∧ part? tail = some (head.method, rest) ∧
      head.method ∈ adminMethods.map Prod.snd ∧ (dropMark? '(' rest).isSome := by
  obtain ⟨dot, gap, hdot, hgap, hmem, rfl, -⟩ := admin?_iff.1 h
  have hname := methodName_of_mem_adminMethods hmem
  refine ⟨_, _, afterDatabase?_dot hdot (hname.trimStart _), hname.part? hgap _,
    List.mem_map_of_mem hmem, ?_⟩
  rw [dropMark?_blanks_append hgap rfl, Option.isSome_some]

theorem getCollection?_part (h : getCollection? cs = some head) :
    ∃ tail rest, afterDatabase? cs = some tail ∧
      part? tail = some ("getCollection".toList, rest) ∧ (dropMark? '(' rest).isSome := by
  obtain ⟨dot, gap, gap', gap'', q, name, text, hdot, hgap, -, -, -, -, -, rfl, -, -⟩ :=
    getCollection?_iff.1 h
  have hname : MethodName "getCollection".toList :=
    show MethodName ('g' :: "etCollection".toList) from
      .name (by decide +kernel) (by decide +kernel)
  refine ⟨_, _, afterDatabase?_dot hdot (hname.trimStart _), hname.part? hgap _, ?_⟩
  rw [dropMark?_blanks_append hgap rfl, Option.isSome_some]

theorem collection?_part (h : collection? cs = some head) :
    ∃ tail part rest, afterDatabase? cs = some tail ∧ part? tail = some (part, rest) ∧
      dropMark? '(' rest = none := by
  obtain ⟨dot, name, text, hdot, hname, htext, rfl, -, -⟩ := collection?_iff.1 h
  obtain ⟨part, rest, hpart, hmark⟩ := hname.exists_part? htext ('(' :: head.rest)
  exact ⟨_, part, rest, afterDatabase?_dot hdot (hname.trimStart _), hpart, hmark⟩

/-- There is no text that both read. -/
def Apart (read read' : List Char → Option Head) : Prop :=
  ∀ cs, ¬ ((read cs).isSome ∧ (read' cs).isSome)

instance : Std.Symm Apart :=
  ⟨fun _ _ h cs hboth => h cs hboth.symm⟩

/-- No text matches two of the three shapes. -/
theorem pairwise_readers : readers.Pairwise Apart := by
  simp only [readers, Apart, List.pairwise_cons, List.mem_cons, List.not_mem_nil, or_false, forall_eq_or_imp,
    forall_eq, Option.isSome_iff_exists, IsEmpty.forall_iff, implies_true, List.Pairwise.nil, and_true]
  refine ⟨⟨?_, ?_⟩, ?_⟩
  · -- the first name is one of three words in the one case, and another word in the other
    rintro cs ⟨⟨head, hadmin⟩, head', hget⟩
    obtain ⟨tail, rest, htail, hpart, hmem, -⟩ := admin?_part hadmin
    obtain ⟨tail', rest', htail', hpart', -⟩ := getCollection?_part hget
    obtain rfl := Option.some.inj (htail.symm.trans htail')
    obtain ⟨hmethod, -⟩ := Prod.mk.inj (Option.some.inj (hpart.symm.trans hpart'))
    rw [hmethod] at hmem
    exact absurd hmem (by decide)
  · rintro cs ⟨⟨head, hadmin⟩, head', hcollection⟩
    obtain ⟨tail, rest, htail, hpart, -, hmark⟩ := admin?_part hadmin
    obtain ⟨tail', part, rest', htail', hpart', hmark'⟩ := collection?_part hcollection
    obtain rfl := Option.some.inj (htail.symm.trans htail')
    obtain ⟨-, rfl⟩ := Prod.mk.inj (Option.some.inj (hpart.symm.trans hpart'))
    simp [hmark'] at hmark
  · rintro cs ⟨⟨head, hget⟩, head', hcollection⟩
    obtain ⟨tail, rest, htail, hpart, hmark⟩ := getCollection?_part hget
    obtain ⟨tail', part, rest', htail', hpart', hmark'⟩ := collection?_part hcollection
    obtain rfl := Option.some.inj (htail.symm.trans htail')
    obtain ⟨-, rfl⟩ := Prod.mk.inj (Option.some.inj (hpart.symm.trans hpart'))
    simp [hmark'] at hmark

/-- The readers may be tried in any order: the one that reads a text is found. -/
theorem findSome?_eq_some_iff {order : List (List Char → Option Head)} (horder : order.Perm readers) :
    order.findSome? (· cs) = some head ↔ ∃ read ∈ readers, read cs = some head := by
  constructor
  · intro h
    obtain ⟨read, hmem, hread⟩ := List.exists_of_findSome?_eq_some h
    exact ⟨read, horder.mem_iff.1 hmem, hread⟩
  · rintro ⟨read, hmem, hread⟩
    have hfound : (order.findSome? (· cs)).isSome :=
      List.findSome?_isSome_iff.2 ⟨read, horder.mem_iff.2 hmem, by simp [hread]⟩
    obtain ⟨found, hfound⟩ := Option.isSome_iff_exists.1 hfound
    obtain ⟨read', hmem', hread'⟩ := List.exists_of_findSome?_eq_some hfound
    by_cases heq : read' = read
    · rw [hfound, ← hread', heq, hread]
    · have hapart : Apart read' read :=
        pairwise_readers.forall (horder.mem_iff.1 hmem') hmem heq
      exact absurd ⟨by rw [hread']; rfl, by rw [hread]; rfl⟩ (hapart cs)

theorem findSome?_readers {order : List (List Char → Option Head)} (horder : order.Perm readers)
    (cs : List Char) : order.findSome? (· cs) = head? cs := by
  refine Option.ext fun head => ?_
  rw [findSome?_eq_some_iff horder, ← findSome?_readers_eq_head?,
    findSome?_eq_some_iff (List.Perm.refl _)]

/-- A call is read as it is written. -/
theorem head?_eq_some_iff : head? cs = some head ↔
    ∃ front, Opening front head.shape head.collection head.method ∧
      cs = front ++ '(' :: head.rest := by
  rw [← findSome?_readers (List.Perm.refl _), findSome?_eq_some_iff (List.Perm.refl _),
    exists_reader_iff]

theorem head?_append (hname : DottedName name) (hmethod : MethodName method) (rest : List Char) :
    head? ('d' :: 'b' :: '.' :: (name ++ '.' :: (method ++ '(' :: rest))) =
      some ⟨.collection, some name, method, rest⟩ := by
  have hdot : Dot ['.'] := .blanks Blanks.nil Blanks.nil
  refine head?_eq_some_iff.2 ⟨_, .collection hdot hname (.called hdot hmethod Blanks.nil), ?_⟩
  simp

/-- A text has at most one opening, and so one shape, one collection and one method. -/
theorem Opening.unique {front' rest' : List Char} {shape shape' : CallShape}
    {collection collection' : Option (List Char)} {method' : List Char}
    (h : Opening front shape collection method) (h' : Opening front' shape' collection' method')
    (htext : front ++ '(' :: rest = front' ++ '(' :: rest') :
    front = front' ∧ shape = shape' ∧ collection = collection' ∧ method = method' := by
  have hhead : head? (front ++ '(' :: rest) = some ⟨shape, collection, method, rest⟩ :=
    head?_eq_some_iff.2 ⟨front, h, rfl⟩
  have hhead' : head? (front ++ '(' :: rest) = some ⟨shape', collection', method', rest'⟩ :=
    head?_eq_some_iff.2 ⟨front', h', htext⟩
  obtain ⟨rfl, rfl, rfl, rfl⟩ := Head.mk.inj (Option.some.inj (hhead.symm.trans hhead'))
  exact ⟨List.append_cancel_right htext, rfl, rfl, rfl⟩

end ShellQuery.Call
