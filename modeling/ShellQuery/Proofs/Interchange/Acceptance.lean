/-
  ShellQuery.Proofs.Interchange.Acceptance

  JSON texts as arguments. A text without escaped surrogate pairs derives from the grammar of
  arguments too and denotes the same there, so it is read as what it denotes. A surrogate pair is
  refused at its first half: the reader of strings takes each escape on its own, and half a pair is
  no character.
-/
import ShellQuery.Proofs.Grammar.Acceptance
import ShellQuery.Proofs.Interchange.Syntax
import ShellQuery.Proofs.Nearest

namespace ShellQuery.Interchange

open Text Argument

variable {now : Int64} {paired : Bool} {depth : Nat} {cs k front left right body rest : List Char}

/-! ## JSON is written as arguments are -/

theorem Spaces.blanks (h : Spaces cs) : Blanks cs := fun c hc =>
  (by decide : ∀ d ∈ [' ', '\t', '\n', '\r'], isBlank d = true) c (h c hc)

/-- The escapes of JSON stand for the same characters in arguments. -/
theorem escape_of_mem {e c : Char} (h : (e, c) ∈ escapes) : Grammar.Escape e c := by
  simp only [escapes, List.mem_cons, Prod.mk.injEq, List.not_mem_nil, or_false] at h
  rcases h with ⟨rfl, rfl⟩ | ⟨rfl, rfl⟩ | ⟨rfl, rfl⟩ | ⟨rfl, rfl⟩ | ⟨rfl, rfl⟩ | ⟨rfl, rfl⟩ |
    ⟨rfl, rfl⟩ | ⟨rfl, rfl⟩
  · exact .itself (by decide)
  · exact .itself (by decide)
  · exact .itself (by decide)
  · exact .backspace
  · exact .formFeed
  · exact .newline
  · exact .carriageReturn
  · exact .tab

/-- The characters of a string without a surrogate pair are those of a string in arguments. -/
theorem Characters.stringBody {text : List Char} (h : Characters paired cs text)
    (hpaired : paired = false) : Grammar.StringBody '"' cs text := by
  induction h with
  | nil => exact .nil
  | plain hcontrol hquote hbackslash h ih => exact .plain hquote hbackslash (ih hpaired)
  | escape he h ih => exact .escape (escape_of_mem he) (ih hpaired)
  | unicode hn hsurrogate h ih => exact .unicode hn hsurrogate (ih hpaired)
  | pair => cases hpaired

/-- A string without a surrogate pair is one of arguments. -/
theorem Quoted.stringLiteral {s : String} (h : Quoted paired cs s) (hpaired : paired = false) :
    Grammar.StringLiteral cs s := by
  cases h with
  | quoted h => exact .quoted (.inl rfl) (h.stringBody hpaired)

theorem Minus.sign {s : List Char} {negative : Bool} (h : Minus s negative) :
    Grammar.Sign s negative := by
  cases h with
  | absent => exact .absent
  | minus => exact .minus

/-- A number of JSON is one of arguments, with the same value. -/
theorem Number.numberLiteral {v : Value} (h : Number cs v) : Grammar.NumberLiteral cs v := by
  cases h with
  | integer hsign hwhole => exact .integer hsign.sign hwhole.digits hwhole.ne_nil
  | double hsign hwhole hfraction hdigit hexponent hwritten =>
    exact .double hsign.sign hwhole.digits hfraction hexponent (by simp [hwhole.ne_nil]) hwritten

theorem mem_keywords_of_mem {word : String} {v : Value} (h : (word, v) ∈ words) :
    (word, v) ∈ Grammar.keywords := by
  simp only [words, List.mem_cons, Prod.mk.injEq, List.not_mem_nil, or_false] at h
  rcases h with ⟨rfl, rfl⟩ | ⟨rfl, rfl⟩ | ⟨rfl, rfl⟩ <;> simp [Grammar.keywords]

mutual

/-- A value without a surrogate pair is one of arguments. The induction is on its derivation, with
    lists of items and of members. -/
theorem Datum.literal {paired : Bool} {cs : List Char} {v : Value} (h : Datum paired cs v)
    (hpaired : paired = false) : Grammar.Literal now cs v := by
  match h with
  | .string h => exact .scalar (.string (h.stringLiteral hpaired))
  | .number h => exact .scalar (.number h.numberLiteral)
  | .word h => exact .scalar (.keyword (mem_keywords_of_mem h))
  | .emptyArray hgap => exact .array (.empty hgap.blanks)
  | .array h => simpa using Grammar.Literal.array (.items (h.items hpaired) .absent)
  | .emptyObject hgap => exact .object (.empty hgap.blanks) (.merge [])
  | .object h hsettles =>
    simpa using Grammar.Literal.object (.members (h.members hpaired) .absent) hsettles

theorem Items.items {paired : Bool} {cs : List Char} {vs : List Value} (h : Items paired cs vs)
    (hpaired : paired = false) : Grammar.Items now cs vs := by
  match h with
  | .one hfront h hback => exact .one hfront.blanks (h.literal hpaired) hback.blanks
  | .more hfront h hback hrest =>
    obtain ⟨hfirst, hothers⟩ := Bool.or_eq_false_iff.1 hpaired
    exact .more hfront.blanks (h.literal hfirst) hback.blanks (hrest.items hothers)

theorem Members.members {paired : Bool} {cs : List Char} {written : Document}
    (h : Members paired cs written) (hpaired : paired = false) :
    Grammar.Members now cs written := by
  match h with
  | .one hfront hkey hleft hright h hback =>
    obtain ⟨hk, hv⟩ := Bool.or_eq_false_iff.1 hpaired
    exact .one hfront.blanks (.string (hkey.stringLiteral hk)) hleft.blanks hright.blanks
      (h.literal hv) hback.blanks
  | .more hfront hkey hleft hright h hback hrest =>
    obtain ⟨hfirst, hothers⟩ := Bool.or_eq_false_iff.1 hpaired
    obtain ⟨hk, hv⟩ := Bool.or_eq_false_iff.1 hfirst
    exact .more hfront.blanks (.string (hkey.stringLiteral hk)) hleft.blanks hright.blanks
      (h.literal hv) hback.blanks (hrest.members hothers)

end

/-! ## Surrogate pairs are refused -/

/-- A reader has found a code point that is no character. -/
def Refused {α : Type} (x : Except QueryError α) : Prop :=
  ∃ shown, x = .error (.argument shown .badCodePoint)

/-- A refusal is passed on. -/
theorem Refused.bind {α β : Type} {x : Except QueryError α} (h : Refused x)
    (f : α → Except QueryError β) : Refused (x >>= f) := by
  obtain ⟨shown, rfl⟩ := h
  exact ⟨shown, rfl⟩

theorem Refused.push {x : Except QueryError (List Char × List Char)} (h : Refused x) (c : Char) :
    Refused (push c x) := by
  obtain ⟨shown, rfl⟩ := h
  exact ⟨shown, rfl⟩

/-- The reader stops at the first half of a surrogate pair, whatever was read before it. -/
theorem refused_of_characters {text : List Char} (h : Characters paired cs text)
    (hpaired : paired = true) (opening rest : List Char) :
    Refused (stringBody opening '"' (cs ++ rest)) := by
  induction h with
  | nil => cases hpaired
  | plain hcontrol hquote hbackslash h ih =>
    rw [List.cons_append, stringBody.eq_def]
    simpa [hquote, hbackslash] using (ih hpaired).push _
  | escape he h ih =>
    obtain ⟨hu, -⟩ := (escape_of_mem he).unescape
    rw [List.cons_append, List.cons_append, stringBody.eq_def]
    simpa [hu] using (ih hpaired).push _
  | unicode hn hsurrogate h ih =>
    obtain ⟨a, b, c, d, rfl, hquad⟩ := Grammar.codeUnit_iff.1 hn
    simpa [stringBody, hquad, Grammar.isScalar_iff.2 hsurrogate] using (ih hpaired).push _
  | pair hhigh hlow hh hl hrest ih =>
    obtain ⟨a, b, c, d, rfl, hquad⟩ := Grammar.codeUnit_iff.1 hhigh
    have hscalar : isScalar _ = false := Bool.eq_false_iff.2 fun h =>
      Grammar.isScalar_iff.1 h ⟨hh.1, by omega⟩
    exact ⟨_, by simp [stringBody, hquad, hscalar, faultAt]; rfl⟩

theorem refused_of_quoted {s : String} (h : Quoted true cs s) (rest : List Char) :
    (∃ tail, cs = '"' :: tail) ∧ Refused (string (cs ++ rest)) := by
  cases h with
  | quoted h =>
    refine ⟨⟨_, rfl⟩, ?_⟩
    rw [List.cons_append, List.append_assoc]
    exact (refused_of_characters h rfl _ _).bind _

theorem refused_of_key {s : String} (h : Quoted true cs s) (rest : List Char) :
    (∃ tail, cs = '"' :: tail) ∧ Refused (key (cs ++ rest)) := by
  obtain ⟨⟨tail, rfl⟩, hrefused⟩ := refused_of_quoted h rest
  exact ⟨⟨tail, rfl⟩, by simpa [key] using hrefused⟩

/-- An array is refused where its next item is. -/
theorem refused_of_value (read : List Value) (hfront : Blanks front)
    (hfirst : ∃ c tail, body = c :: tail ∧ isFirst c = true)
    (h : Refused (value now depth body)) :
    Refused (items now (depth + 1) read (front ++ body)) := by
  obtain ⟨c, tail, rfl, hc⟩ := hfirst
  obtain ⟨htrim, hne, -⟩ := trimStart_first hfront hc tail
  simp only [items, htrim, List.head?_cons, Option.some.injEq, hne, if_false]
  exact h.bind _

/-- An object is refused where its next key is. -/
theorem refused_of_key_of_fields (read : Document) (hfront : Blanks front)
    (hfirst : ∃ tail, k = '"' :: tail) (h : Refused (key k)) :
    Refused (fields now (depth + 1) read (front ++ k)) := by
  obtain ⟨tail, rfl⟩ := hfirst
  have htrim : trimStart (front ++ '"' :: tail) = '"' :: tail := trimStart_mark hfront rfl tail
  simp only [fields, htrim, List.head?_cons, Option.some.injEq]
  exact h.bind _

/-- An object is refused where the value of its next member is. -/
theorem refused_of_value_of_fields (read : Document) {name : String} (hfront : Blanks front)
    (hkey : key k = .ok (name, left ++ ':' :: (right ++ body))) (hleft : Blanks left)
    (hright : Blanks right) (hfirst : ∃ c tail, body = c :: tail ∧ isFirst c = true)
    (h : Refused (value now depth body)) :
    Refused (fields now (depth + 1) read (front ++ k)) := by
  obtain ⟨d, tail, rfl, hd⟩ := isFirst_of_key hkey
  obtain ⟨htrim, -, hne⟩ := trimStart_first hfront hd tail
  obtain ⟨c, tail', rfl, hc⟩ := hfirst
  have hcolon : trimStart (left ++ ':' :: (right ++ c :: tail')) = ':' :: (right ++ c :: tail') :=
    trimStart_mark hleft rfl _
  have hbody := (trimStart_first hright hc tail').1
  simp only [fields, htrim, List.head?_cons, Option.some.injEq, hne, if_false, hkey]
  obtain ⟨shown, h⟩ := h
  exact ⟨shown, by simp only [bind, Except.bind, hcolon, expect, if_true, hbody, h]⟩

/-- A member is refused for its key or, where its key is read, for its value. -/
theorem refused_of_member {inKey first : Bool} {after : List Char} {name : String} (read : Document)
    (hfront : Spaces front) (hkey : Quoted inKey k name) (hleft : Spaces left) (hright : Spaces right)
    (hpaired : (inKey || first) = true)
    (h : first = true → (∃ c tail, cs = c :: tail ∧ isFirst c = true) ∧
      Refused (value now depth (cs ++ after))) :
    Refused (fields now (depth + 1) read
      (front ++ (k ++ (left ++ ':' :: (right ++ (cs ++ after)))))) := by
  cases inKey with
  | true =>
    obtain ⟨⟨tail, rfl⟩, hrefused⟩ := refused_of_key hkey (left ++ ':' :: (right ++ (cs ++ after)))
    exact refused_of_key_of_fields read hfront.blanks ⟨_, rfl⟩ hrefused
  | false =>
    obtain ⟨⟨c, tail, rfl, hc⟩, hrefused⟩ := h (by simpa using hpaired)
    have hname := (Grammar.Key.string (hkey.stringLiteral rfl)).read_before hleft.blanks
      (right ++ (c :: tail ++ after))
    exact refused_of_value_of_fields read hfront.blanks hname hleft.blanks hright.blanks
      ⟨c, _, rfl, hc⟩ hrefused

mutual

/-- A value with a surrogate pair somewhere in it is refused at every depth that suffices to come
    there. -/
theorem Datum.refused {paired : Bool} {cs : List Char} {v : Value} (h : Datum paired cs v)
    (hpaired : paired = true) (depth : Nat) (rest : List Char) (hdepth : 2 * cs.length ≤ depth) :
    (∃ c tail, cs = c :: tail ∧ isFirst c = true) ∧ Refused (value now depth (cs ++ rest)) := by
  match h with
  | .string h =>
    subst hpaired
    obtain ⟨⟨tail, rfl⟩, hrefused⟩ := refused_of_quoted h rest
    rw [List.length_cons] at hdepth
    obtain ⟨depth, rfl⟩ := Nat.exists_eq_add_of_le' (show 1 ≤ depth by omega)
    exact ⟨⟨'"', tail, rfl, by decide⟩, by simpa [value] using hrefused.bind _⟩
  | .array h =>
    rw [List.length_cons, List.length_append] at hdepth
    obtain ⟨depth, rfl⟩ := Nat.exists_eq_add_of_le' (show 1 ≤ depth by omega)
    have hrefused := h.refused hpaired depth [] (']' :: rest) (by omega)
    exact ⟨⟨'[', _, rfl, by decide⟩, by simpa [value] using hrefused⟩
  | .object h hsettles =>
    rw [List.length_cons, List.length_append] at hdepth
    obtain ⟨depth, rfl⟩ := Nat.exists_eq_add_of_le' (show 1 ≤ depth by omega)
    have hrefused := h.refused hpaired depth [] ('}' :: rest) (by omega)
    exact ⟨⟨'{', _, rfl, by decide⟩, by simpa [value] using hrefused⟩
  | .number _ | .word _ | .emptyArray _ | .emptyObject _ => cases hpaired

theorem Items.refused {paired : Bool} {cs : List Char} {vs : List Value} (h : Items paired cs vs)
    (hpaired : paired = true) (depth : Nat) (read : List Value) (rest : List Char)
    (hdepth : 2 * cs.length + 1 ≤ depth) : Refused (items now depth read (cs ++ rest)) := by
  obtain ⟨depth, rfl⟩ := Nat.exists_eq_add_of_le' (show 1 ≤ depth by omega)
  match h with
  | @Items.one _ front cs back v hfront h hback =>
    simp only [List.length_append] at hdepth
    obtain ⟨⟨c, tail, rfl, hc⟩, hrefused⟩ := h.refused hpaired depth (back ++ rest) (by omega)
    simpa using refused_of_value read hfront.blanks ⟨c, _, rfl, hc⟩ hrefused
  | @Items.more first others front cs back more v vs hfront h hback hmore =>
    simp only [List.length_append, List.length_cons] at hdepth
    by_cases hfirst : first = true
    · obtain ⟨⟨c, tail, rfl, hc⟩, hrefused⟩ :=
        h.refused hfirst depth (back ++ ',' :: (more ++ rest)) (by omega)
      simpa using refused_of_value read hfront.blanks ⟨c, _, rfl, hc⟩ hrefused
    · -- the pair is in a later item, and the reader comes to it
      rw [Bool.not_eq_true] at hfirst
      have hvalue : value now depth (cs ++ (back ++ ',' :: (more ++ rest))) =
          .ok (v, back ++ ',' :: (more ++ rest)) :=
        (h.literal hfirst).read depth ((stops_mark (by decide) _).append hback.blanks) (by omega)
      have hrefused := hmore.refused (by simpa [hfirst] using hpaired) depth (read ++ [v]) rest
        (by omega)
      simpa [items_step read hfront.blanks hvalue hback.blanks (.inl rfl)] using hrefused

theorem Members.refused {paired : Bool} {cs : List Char} {written : Document}
    (h : Members paired cs written) (hpaired : paired = true) (depth : Nat) (read : Document)
    (rest : List Char) (hdepth : 2 * cs.length + 1 ≤ depth) :
    Refused (fields now depth read (cs ++ rest)) := by
  obtain ⟨depth, rfl⟩ := Nat.exists_eq_add_of_le' (show 1 ≤ depth by omega)
  match h with
  | @Members.one inKey first front k left right cs back name v hfront hkey hleft hright h hback =>
    simp only [List.length_append, List.length_cons] at hdepth
    simpa using refused_of_member read hfront hkey hleft hright hpaired fun hfirst =>
      h.refused hfirst depth (back ++ rest) (by omega)
  | @Members.more inKey first others front k left right cs back more name v written hfront hkey hleft
      hright h hback hmore =>
    simp only [List.length_append, List.length_cons] at hdepth
    by_cases hmember : (inKey || first) = true
    · simpa using refused_of_member read hfront hkey hleft hright hmember fun hfirst =>
        h.refused hfirst depth (back ++ ',' :: (more ++ rest)) (by omega)
    · -- the pair is in a later member, and the reader comes to it
      rw [Bool.not_eq_true] at hmember
      obtain ⟨hinKey, hfirst⟩ := Bool.or_eq_false_iff.1 hmember
      have hname := (Grammar.Key.string (hkey.stringLiteral hinKey)).read_before hleft.blanks
        (right ++ (cs ++ (back ++ ',' :: (more ++ rest))))
      have hvalue : value now depth (cs ++ (back ++ ',' :: (more ++ rest))) =
          .ok (v, back ++ ',' :: (more ++ rest)) :=
        (h.literal hfirst).read depth ((stops_mark (by decide) _).append hback.blanks) (by omega)
      have hrefused := hmore.refused (by simpa [hinKey, hfirst] using hpaired) depth
        (read.insert name v) rest (by omega)
      simpa [fields_step read hfront.blanks hname hleft.blanks hright.blanks hvalue hback.blanks
        (.inl rfl)] using hrefused

end

/-! ## Texts -/

/-- A text of JSON without a surrogate pair is read as what it denotes. -/
theorem JsonText.read {v : Value} (h : JsonText false cs v) : parseValue now cs = .ok v := by
  cases h with
  | @value front cs back v hfront h hback =>
    have hstops : Stops back := by simpa using Stops.nil.append hback.blanks
    have hread : readValue now (cs ++ back) = .ok (v, back) := (h.literal rfl).readValue hstops
    obtain ⟨c, tail, htext, hc⟩ := isFirst_of_value hread
    have htrim : trimStart (front ++ (cs ++ back)) = cs ++ back := by
      rw [htext]
      exact (trimStart_first hfront.blanks hc tail).1
    have hend : trimStart back = [] := List.dropWhile_eq_nil_iff.2 hback.blanks
    simp only [parseValue, htrim]
    refine bind_eq_ok.2 ⟨_, hread, ?_⟩
    simp only [hend, if_true]

theorem JsonText.refused {v : Value} (h : JsonText true cs v) : Refused (parseValue now cs) := by
  cases h with
  | @value front cs back v hfront h hback =>
    obtain ⟨⟨c, tail, rfl, hc⟩, hrefused⟩ : _ ∧ Refused (readValue now (cs ++ back)) :=
      h.refused rfl (2 * (cs ++ back).length + 1) back (by simp; omega)
    simp only [parseValue, List.cons_append, (trimStart_first hfront.blanks hc (tail ++ back)).1]
    exact hrefused.bind _

/-- JSON texts as arguments. A text without escaped surrogate pairs is read as the value that it
    denotes, in which a number that is no 64-bit integer is the nearest double. A text with such a
    pair is refused, for a code point that is no character. -/
theorem parseValue_jsonText (now : Int64) :
    (∀ cs v, JsonText false cs v → parseValue now cs = .ok v) ∧
      (∀ cs v, JsonText true cs v →
        ∃ shown, parseValue now cs = .error (.argument shown .badCodePoint)) ∧
      ∀ (negative : Bool) (coefficient : ℕ) (exponent : ℤ), Binary64.Nearest negative
        (coefficient * 10 ^ exponent) (.ofDecimal negative coefficient exponent) :=
  ⟨fun _ _ h => h.read, fun _ _ h => h.refused, Binary64.nearest_ofDecimal⟩

/-- An array with an escaped letter, and a string with an escaped surrogate pair. -/
theorem parseValue_jsonText_escapes :
    parseValue 0 "[\"\\u00e9\"]".toList = .ok (.array [.string "é"]) ∧
      ∃ shown, parseValue 0 "\"\\ud83d\\ude00\"".toList = .error (.argument shown .badCodePoint) := by
  have hunit : Grammar.CodeUnit ['0', '0', 'e', '9'] 0xE9 := ⟨0, 0, 14, 9, rfl, rfl⟩
  have hhigh : Grammar.CodeUnit ['d', '8', '3', 'd'] 0xD83D := ⟨13, 8, 3, 13, rfl, rfl⟩
  have hlow : Grammar.CodeUnit ['d', 'e', '0', '0'] 0xDE00 := ⟨13, 14, 0, 0, rfl, rfl⟩
  have hletter : Characters false ['\\', 'u', '0', '0', 'e', '9'] ['é'] :=
    .unicode hunit (by decide) .nil
  have hpair : Characters true ['\\', 'u', 'd', '8', '3', 'd', '\\', 'u', 'd', 'e', '0', '0'] ['😀'] :=
    .pair hhigh hlow (by decide) (by decide) .nil
  have hspaces : Spaces [] := by simp [Spaces]
  have harray := JsonText.value hspaces
    (.array (.one hspaces (.string (.quoted hletter)) hspaces)) hspaces
  have hstring := JsonText.value hspaces (.string (.quoted hpair)) hspaces
  exact ⟨(parseValue_jsonText 0).1 _ _ harray, (parseValue_jsonText 0).2.1 _ _ hstring⟩

end ShellQuery.Interchange
