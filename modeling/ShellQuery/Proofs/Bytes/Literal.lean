/-
  ShellQuery.Proofs.Bytes.Literal

  The loop over the bytes of a literal against the readers of strings and of regular expressions.
  The loop steps over a backslash and one byte more, a reader over a whole character or over the
  digits of a code unit, and each keeps an account of its own of the classes that are open. They
  stop at the same place because what a reader takes lies inside the literal (`Inside`), which is
  what the loop passes.
-/
import ShellQuery.Proofs.Bytes.Slicing
import ShellQuery.Proofs.Grammar.Quoted

namespace ShellQuery.Bytes

open Text Argument

variable {text front cs rest taken : List Char} {d : Char} {i : ℕ}

/-! ## The loop, from an opening delimiter on -/

/-- A byte of ASCII is a character of its text. -/
theorem exists_append_of_ascii (hi : i < (utf8 text).length) (hd : toChar (utf8 text)[i] = d)
    (hascii : ¬IsWide d) : ∃ front cs, text = front ++ d :: cs ∧ i = byteLength front := by
  subst hd
  obtain ⟨⟨front, back, htext, rfl⟩, -⟩ := boundary_of_ascii hi hascii
  obtain ⟨cs, rfl⟩ := List.head?_eq_some_iff.1 ((hasAt_iff hascii htext).1 ⟨hi, rfl⟩)
  exact ⟨front, cs, htext, rfl⟩

/-- Behind its first byte the loop looks for the end of the literal. -/
theorem skipLiteral_eq (hascii : ¬IsWide d) (htext : text = front ++ d :: cs)
    (hi : byteLength front < (utf8 text).length) : skipLiteral (utf8 text) (byteLength front) hi =
      (endLiteral? (.literal d false) cs).map (past (byteLength front + 1)) := by
  have hdrop : (utf8 text).drop (byteLength front) = utf8 (d :: cs) := htext ▸ drop_utf8 front _
  obtain ⟨b, rfl, hbytes, -⟩ := exists_utf8_of_ascii hascii cs
  obtain ⟨_, hb, htail⟩ := exists_getElem_of_drop (hdrop.trans hbytes)
  rw [skipLiteral, hb]
  exact (skipFrom_eq hascii htail).1

/-- The loop passes what lies inside the literal, and the text goes on there. -/
theorem skipLiteral_of_inside (hinside : Inside d (.literal d false) taken) (hascii : ¬IsWide d)
    (htext : text = front ++ d :: (taken ++ rest)) (hi : byteLength front < (utf8 text).length) :
    ∃ stop, skipLiteral (utf8 text) (byteLength front) hi = some stop ∧
      suffix? text stop = some rest := by
  have hstop : past (byteLength front + 1) (taken, rest) = byteLength (front ++ [d] ++ taken) := by
    rw [past, byteLength_append _ taken, byteLength_snoc hascii]
  have hrest : text = front ++ [d] ++ taken ++ rest := by
    rw [htext, List.append_assoc, List.append_assoc, List.singleton_append]
  refine ⟨_, ?_, suffix?_of_eq hrest⟩
  rw [skipLiteral_eq hascii htext hi, endLiteral?_of_inside hinside, Option.map_some, hstop]

/-! ## Strings and regular expressions -/

theorem ascii_isQuote : Ascii Wrapper.isQuote :=
  .of_mem ['"', '\''] (by decide) fun c hc => by
    simpa [Wrapper.isQuote] using hc

/-- The body of a regular expression is read to the slash that closes it. -/
theorem inside_of_pattern {opening pattern : List Char}
    (h : regexBody opening false cs = .ok (pattern, rest)) :
    cs = pattern ++ '/' :: rest ∧ Inside '/' (.literal '/' false) (pattern ++ ['/']) := by
  obtain ⟨hcs, -⟩ := Grammar.RegexRest.of_read h
  obtain ⟨taken, htaken, hinside⟩ := inside_of_regexBody h
  have heq : pattern ++ ['/'] ++ rest = taken ++ rest := by
    rw [← htaken, hcs, List.append_assoc, List.singleton_append]
  exact ⟨hcs, List.append_cancel_right heq ▸ hinside⟩

/-- A reader that fails where there is no stop, since otherwise there would be one. -/
theorem exists_error_of_none {α : Type} {read : Except QueryError α} {stop? : Option ℕ}
    (h : ∀ a, read = .ok a → ∃ stop, stop? = some stop) (hstop : stop? = none) :
    ∃ e, read = .error e := by
  cases read with
  | error e => exact ⟨e, rfl⟩
  | ok a =>
    obtain ⟨stop, hsome⟩ := h a rfl
    rw [hstop] at hsome
    cases hsome

/-- From a quote on the loop stops where the reader of strings does, and from a slash on where the
    reader of regular expressions goes on to the flags. Where the loop finds no end, the reader
    fails. -/
theorem skipLiteral_of_read (hi : i < (utf8 text).length) (hd : toChar (utf8 text)[i] = d) :
    (Wrapper.isQuote d = true → ∃ cs, suffix? text i = some (d :: cs) ∧
      (∀ s rest, string (d :: cs) = .ok (s, rest) →
        ∃ stop, skipLiteral (utf8 text) i hi = some stop ∧ suffix? text stop = some rest) ∧
      (skipLiteral (utf8 text) i hi = none → ∃ e, string (d :: cs) = .error e)) ∧
    (d = '/' → ∃ cs, suffix? text i = some ('/' :: cs) ∧
      (∀ v rest, regex ('/' :: cs) = .ok (v, rest) →
        ∃ pattern options after written stop, v = .regex (.ofList pattern) (.ofList options) ∧
          cs = pattern ++ '/' :: after ∧ flags after = .ok (written, rest) ∧
          skipLiteral (utf8 text) i hi = some stop ∧ suffix? text stop = some after) ∧
      (skipLiteral (utf8 text) i hi = none → ∃ e, regex ('/' :: cs) = .error e)) := by
  constructor
  · intro hquote
    have hascii := ascii_isQuote d hquote
    obtain ⟨front, cs, htext, rfl⟩ := exists_append_of_ascii hi hd hascii
    have hstops : ∀ s rest, string (d :: cs) = .ok (s, rest) →
        ∃ stop, skipLiteral (utf8 text) (byteLength front) hi = some stop ∧
          suffix? text stop = some rest := by
      intro s rest hread
      obtain ⟨taken, rfl, hinside⟩ := inside_of_string hquote hread
      exact skipLiteral_of_inside hinside hascii htext hi
    refine ⟨cs, suffix?_of_eq htext, hstops, exists_error_of_none fun read hread => ?_⟩
    obtain ⟨stop, hstop, -⟩ := hstops read.1 read.2 hread
    exact ⟨stop, hstop⟩
  · rintro rfl
    obtain ⟨front, cs, htext, rfl⟩ := exists_append_of_ascii hi hd (by decide)
    have hstops : ∀ v rest, regex ('/' :: cs) = .ok (v, rest) →
        ∃ pattern options after written stop, v = .regex (.ofList pattern) (.ofList options) ∧
          cs = pattern ++ '/' :: after ∧ flags after = .ok (written, rest) ∧
          skipLiteral (utf8 text) (byteLength front) hi = some stop ∧
          suffix? text stop = some after := by
      intro v rest hread
      -- the reader goes on to the flags, which the loop knows nothing of
      obtain ⟨⟨pattern, after⟩, hbody, hread⟩ := bind_eq_ok.1 hread
      obtain ⟨⟨written, rest'⟩, hflags, hok⟩ := bind_eq_ok.1 hread
      cases hok
      obtain ⟨rfl, hinside⟩ := inside_of_pattern hbody
      have htext' : text = front ++ '/' :: (pattern ++ ['/'] ++ after) := by
        rw [htext, List.append_assoc, List.singleton_append]
      obtain ⟨stop, hstop, hafter⟩ := skipLiteral_of_inside hinside (by decide) htext' hi
      exact ⟨pattern, _, after, written, stop, rfl, rfl, hflags, hstop, hafter⟩
    refine ⟨cs, suffix?_of_eq htext, hstops, exists_error_of_none fun read hread => ?_⟩
    obtain ⟨_, _, _, _, stop, _, _, _, hstop, _⟩ := hstops read.1 read.2 hread
    exact ⟨stop, hstop⟩

/-- A string with an escaped character of two bytes and a code unit, and a regular expression with a
    slash and an escaped bracket in a class. -/
def literalsText : List Char :=
  "['\\é\\u00e9\\'', /[/\\]]é\\//xi]".toList

theorem skipLiteral_of_read_literals :
    ∃ (hquote : 1 < (utf8 literalsText).length) (hslash : 16 < (utf8 literalsText).length),
      toChar (utf8 literalsText)[1] = '\'' ∧ toChar (utf8 literalsText)[16] = '/' ∧
      (∃ stop, skipLiteral (utf8 literalsText) 1 hquote = some stop ∧
        suffix? literalsText stop = some ", /[/\\]]é\\//xi]".toList) ∧
      ∃ stop, skipLiteral (utf8 literalsText) 16 hslash = some stop ∧
        suffix? literalsText stop = some "xi]".toList := by
  obtain ⟨hquote, hslash, hquoted, hslashed⟩ :
      ∃ (hquote : 1 < (utf8 literalsText).length) (hslash : 16 < (utf8 literalsText).length),
        toChar (utf8 literalsText)[1] = '\'' ∧ toChar (utf8 literalsText)[16] = '/' := by
    decide +kernel
  refine ⟨hquote, hslash, hquoted, hslashed, ?_, ?_⟩
  · -- the string, and what is behind its closing quote
    obtain ⟨cs, hcs, hread, -⟩ := (skipLiteral_of_read hquote hquoted).1 (by decide)
    obtain rfl : cs = literalsText.drop 2 := by
      have hrest : suffix? literalsText 1 = some ('\'' :: literalsText.drop 2) := by decide +kernel
      exact (List.cons.inj (Option.some.inj (hcs.symm.trans hrest))).2
    exact hread "éé'" _ (by decide +kernel)
  · -- the regular expression, whose class has a slash in it; the loop leaves the flags
    obtain ⟨cs, hcs, hread, -⟩ := (skipLiteral_of_read hslash hslashed).2 rfl
    obtain rfl : cs = literalsText.drop 16 := by
      have hrest : suffix? literalsText 16 = some ('/' :: literalsText.drop 16) := by decide +kernel
      exact (List.cons.inj (Option.some.inj (hcs.symm.trans hrest))).2
    have hread' : regex ('/' :: literalsText.drop 16) = .ok (_, [']']) :=
      bind_eq_ok.2 ⟨("[/\\]]é\\/".toList, "xi]".toList), by decide +kernel,
        bind_eq_ok.2 ⟨("xi".toList, [']']), by decide +kernel, rfl⟩⟩
    obtain ⟨pattern, options, after, written, stop, hv, hpattern, -, hstop, hafter⟩ :=
      hread _ _ hread'
    obtain rfl : "[/\\]]é\\/".toList = pattern := String.ofList_injective (Value.regex.inj hv).1
    have hbehind : literalsText.drop 16 = "[/\\]]é\\/".toList ++ '/' :: "xi]".toList := by
      decide +kernel
    obtain rfl : after = "xi]".toList :=
      (List.cons.inj (List.append_cancel_left (hpattern.symm.trans hbehind))).2
    exact ⟨stop, hstop, hafter⟩

end ShellQuery.Bytes
