/-
  ShellQuery.Proofs.Grammar.Quoted

  The readers of strings and of regular expressions take what derives from the productions for
  them. Here as for the other productions there are two lemmas: `of_read` finds a derivation of what
  a reader took, and `read` says that the reader takes a text that derives, for what it denotes.
-/
import Mathlib.Data.Char
import Mathlib.Data.List.Sort
import ShellQuery.Proofs.Grammar.Syntax
import ShellQuery.Proofs.Locality

namespace ShellQuery.Grammar

open Text Argument

variable {now : Int64} {cs rest : List Char} {v : Value}

/-! ## Strings -/

theorem Escape.of_ne {e : Char} (he : e ≠ 'u') : Escape e (unescape e) := by
  simp only [unescape]
  split_ifs with hn ht hr hb hf hz
  · exact hn ▸ .newline
  · exact ht ▸ .tab
  · exact hr ▸ .carriageReturn
  · exact hb ▸ .backspace
  · exact hf ▸ .formFeed
  · exact hz ▸ .null
  · exact .itself (by simp [hn, ht, hr, hb, hf, hz, he])

/-- The reader takes an escape for the character that it stands for. -/
theorem Escape.unescape {e c : Char} (h : Escape e c) : e ≠ 'u' ∧ Argument.unescape e = c := by
  cases h with
  | itself h =>
    simp only [List.mem_cons, List.not_mem_nil, or_false, not_or] at h
    simp [Argument.unescape, h]
  | _ => exact ⟨by decide, rfl⟩

/-- Four hexadecimal digits have the number that the reader makes of them. -/
theorem codeUnit_iff {ds : List Char} {n : Nat} :
    CodeUnit ds n ↔ ∃ a b c d, ds = [a, b, c, d] ∧ hexQuad? a b c d = some n := by
  constructor
  · rintro ⟨w, x, y, z, hds, rfl⟩
    obtain ⟨a, ds, rfl, ha, h₁⟩ := List.map_eq_cons_iff.1 hds
    obtain ⟨b, ds, rfl, hb, h₂⟩ := List.map_eq_cons_iff.1 h₁
    obtain ⟨c, ds, rfl, hc, h₃⟩ := List.map_eq_cons_iff.1 h₂
    obtain ⟨d, ds, rfl, hd, h₄⟩ := List.map_eq_cons_iff.1 h₃
    obtain rfl := List.map_eq_nil_iff.1 h₄
    refine ⟨a, b, c, d, rfl, ?_⟩
    simp only [hexQuad?, ha, hb, hc, hd, Option.bind_eq_bind, Option.bind_some, Option.some.injEq]
    omega
  · rintro ⟨a, b, c, d, rfl, h⟩
    simp only [hexQuad?, Option.bind_eq_bind, Option.bind_eq_some_iff, Option.some.injEq] at h
    obtain ⟨w, ha, x, hb, y, hc, z, hd, rfl⟩ := h
    exact ⟨w, x, y, z, by simp [ha, hb, hc, hd], by omega⟩

theorem isScalar_iff {n : Nat} : isScalar n = true ↔ ¬(0xD800 ≤ n ∧ n ≤ 0xDFFF) := by
  simp only [isScalar, Bool.or_eq_true, decide_eq_true_eq]
  omega

/-- What the reader takes for the inside of a string derives from the grammar. -/
theorem StringBody.of_read {opening text : List Char} {q : Char}
    (h : stringBody opening q cs = .ok (text, rest)) :
    ∃ body, cs = body ++ q :: rest ∧ StringBody q body text := by
  fun_induction stringBody opening q cs generalizing text with
  | case2 cs =>
    cases h
    exact ⟨[], rfl, .nil⟩
  | case5 h₁ h₂ h₃ h₄ after n hquad hscalar hne ih =>
    obtain ⟨tail, htail, rfl⟩ := push_eq_ok h
    obtain ⟨body, rfl, hbody⟩ := ih htail
    exact ⟨_, rfl, .unicode (codeUnit_iff.2 ⟨h₁, h₂, h₃, h₄, rfl, hquad⟩) (isScalar_iff.1 hscalar)
      hbody⟩
  | case8 e cs hu hne ih =>
    obtain ⟨tail, htail, rfl⟩ := push_eq_ok h
    obtain ⟨body, rfl, hbody⟩ := ih htail
    exact ⟨_, rfl, .escape (.of_ne hu) hbody⟩
  | case9 c cs hne hb ih =>
    obtain ⟨tail, htail, rfl⟩ := push_eq_ok h
    obtain ⟨body, rfl, hbody⟩ := ih htail
    exact ⟨_, rfl, .plain hne hb hbody⟩
  | _ => cases h

/-- What derives from the grammar as the inside of a string is read up to its quote. -/
theorem StringBody.read {opening body text : List Char} {q : Char} (hq : q ≠ '\\')
    (h : StringBody q body text) (rest : List Char) :
    stringBody opening q (body ++ q :: rest) = .ok (text, rest) := by
  induction h with
  | nil =>
    rw [List.nil_append, stringBody.eq_def]
    simp
  | plain hquote hbackslash h ih =>
    rw [List.cons_append, stringBody.eq_def]
    simp [hquote, hbackslash, ih, push]
  | escape he h ih =>
    obtain ⟨hu, hc⟩ := he.unescape
    rw [List.cons_append, List.cons_append, stringBody.eq_def]
    simp [hq.symm, hu, hc, ih, push]
  | unicode hn hsurrogate h ih =>
    obtain ⟨a, b, c, d, rfl, hquad⟩ := codeUnit_iff.1 hn
    simp [stringBody, hq.symm, hquad, isScalar_iff.2 hsurrogate, ih, push]

/-- A string that is read derives from the grammar. -/
theorem StringLiteral.of_read {q : Char} {s : String} (hq : q = '"' ∨ q = '\'')
    (h : string (q :: cs) = .ok (s, rest)) :
    ∃ taken, q :: cs = taken ++ rest ∧ StringLiteral taken s := by
  obtain ⟨⟨text, rest'⟩, hbody, hok⟩ := bind_eq_ok.1 h
  cases hok
  obtain ⟨body, rfl, hderives⟩ := StringBody.of_read hbody
  exact ⟨q :: (body ++ [q]), by simp, .quoted hq hderives⟩

theorem StringLiteral.read {s : String} (h : StringLiteral cs s) (rest : List Char) :
    ∃ q tail, cs = q :: tail ∧ (q = '"' ∨ q = '\'') ∧ string (cs ++ rest) = .ok (s, rest) := by
  cases h with
  | quoted hq hbody =>
    rename_i q body text
    have hne : q ≠ '\\' := by rcases hq with rfl | rfl <;> decide
    refine ⟨q, _, rfl, hq, bind_eq_ok.2 ⟨(text, rest), ?_, rfl⟩⟩
    simpa using hbody.read hne rest

/-! ## Regular expressions -/

/-- What is left of the body of a regular expression, in a class or outside of one. -/
inductive RegexRest : Bool → List Char → Prop where
  | outside {cs : List Char} (h : RegexBody cs) : RegexRest false cs
  | inside {cs after : List Char} (h : ClassBody cs) (hafter : RegexBody after) :
    RegexRest true (cs ++ ']' :: after)

/-- What the reader takes of a regular expression, inside a class or not, is the rest of one. -/
theorem RegexRest.of_read {opening body : List Char} {inClass : Bool}
    (h : regexBody opening inClass cs = .ok (body, rest)) :
    cs = body ++ '/' :: rest ∧ RegexRest inClass body := by
  -- the reader keeps its class as a flag, where the grammar has a production for a class
  fun_induction regexBody opening inClass cs generalizing body with
  | case3 inClass e cs ih =>
    obtain ⟨tail₁, htail₁, rfl⟩ := push_eq_ok h
    obtain ⟨tail₂, htail₂, rfl⟩ := push_eq_ok htail₁
    obtain ⟨rfl, hrest⟩ := ih htail₂
    refine ⟨rfl, ?_⟩
    cases hrest with
    | outside hbody => exact .outside (.escape e hbody)
    | inside hclass hafter => exact .inside (.escape e hclass) hafter
  -- a bracket opens a class, or stands in one
  | case4 inClass cs hb ih =>
    obtain ⟨tail, htail, rfl⟩ := push_eq_ok h
    obtain ⟨rfl, hrest⟩ := ih htail
    refine ⟨rfl, ?_⟩
    cases hrest with
    | inside hclass hafter =>
      cases inClass with
      | false => exact .outside (.bracketed hclass hafter)
      | true => exact .inside (.plain (by decide) hclass) hafter
  -- a bracket closes a class, or stands outside of one
  | case5 inClass cs hb ho ih =>
    obtain ⟨tail, htail, rfl⟩ := push_eq_ok h
    obtain ⟨rfl, hrest⟩ := ih htail
    refine ⟨rfl, ?_⟩
    cases hrest with
    | outside hbody =>
      cases inClass with
      | false => exact .outside (.plain (by decide) hbody)
      | true => exact .inside .nil hbody
  -- the slash at the end
  | case6 inClass c cs hb ho hc hend =>
    cases h
    simp only [Bool.and_eq_true, decide_eq_true_eq, Bool.not_eq_true'] at hend
    obtain ⟨rfl, rfl⟩ := hend
    exact ⟨rfl, .outside .nil⟩
  | case7 inClass c cs hb ho hc hend ih =>
    obtain ⟨tail, htail, rfl⟩ := push_eq_ok h
    obtain ⟨rfl, hrest⟩ := ih htail
    refine ⟨rfl, ?_⟩
    cases hrest with
    | outside hbody => exact .outside (.plain (by simpa [hb, ho] using hend) hbody)
    | inside hclass hafter => exact .inside (.plain (by simp [hb, hc]) hclass) hafter
  | _ => cases h

/-- A class is read up to its bracket, and what follows as the rest of the expression. -/
theorem ClassBody.read {opening body cs after : List Char} (h : ClassBody cs)
    (hafter : regexBody opening false after = .ok (body, rest)) :
    regexBody opening true (cs ++ ']' :: after) = .ok (cs ++ ']' :: body, rest) := by
  induction h with
  | nil =>
    rw [List.nil_append, regexBody.eq_def]
    simp [hafter, push]
  | plain hc h ih =>
    simp only [List.mem_cons, List.not_mem_nil, or_false, not_or] at hc
    rw [List.cons_append, regexBody.eq_def]
    simp [hc, ih, push]
  | escape c h ih => simp [regexBody, ih, push]

theorem RegexBody.read {opening body : List Char} (h : RegexBody body) (rest : List Char) :
    regexBody opening false (body ++ '/' :: rest) = .ok (body, rest) := by
  induction h with
  | nil =>
    rw [List.nil_append, regexBody.eq_def]
    simp
  | plain hc h ih =>
    simp only [List.mem_cons, List.not_mem_nil, or_false, not_or] at hc
    rw [List.cons_append, regexBody.eq_def]
    simp [hc, ih, push]
  | escape c h ih => simp [regexBody, ih, push]
  | bracketed hinside h ih =>
    have hclass := hinside.read ih
    rw [List.cons_append, regexBody.eq_def]
    simp [hclass, push]

theorem mem_regexFlags {c : Char} : c ∈ regexFlags ↔ c ∈ ['i', 'm', 's', 'x', 'l', 'u'] := by
  simp only [regexFlags, List.mem_cons, List.not_mem_nil, or_false]
  tauto

theorem flags_read {written : List Char} (h : ∀ c ∈ written, c ∈ regexFlags) :
    flags written = .ok (written, []) := by
  induction written with
  | nil => rfl
  | cons c written ih =>
    have hc := h c (.head _)
    have hletter : isAsciiLetter c = true :=
      (by decide : ∀ d ∈ regexFlags, isAsciiLetter d = true) c hc
    simp [flags, hletter, hc, ih fun d hd => h d (.tail _ hd), push]

/-- Options in order, each once, are determined by the flags they come from. -/
theorem options_eq {written options : List Char} (hwritten : ∀ c ∈ written, c ∈ regexFlags)
    (hmem : ∀ c, c ∈ options ↔ c ∈ written) (hsorted : options.Pairwise (· < ·)) :
    regexFlags.filter written.contains = options := by
  have hfilter : (regexFlags.filter written.contains).Pairwise (· < ·) :=
    (by decide : regexFlags.Pairwise (· < ·)).filter _
  refine List.SortedLT.eq_of_mem_iff hfilter.sortedLT hsorted.sortedLT fun c => ?_
  simp only [List.mem_filter, List.contains_eq_mem, decide_eq_true_eq, hmem]
  exact and_iff_right_of_imp (hwritten c)

/-- A regular expression that is read derives from the grammar. -/
theorem RegexLiteral.of_read (h : regex ('/' :: cs) = .ok (v, rest)) :
    ∃ taken, '/' :: cs = taken ++ rest ∧ RegexLiteral taken v := by
  obtain ⟨⟨body, cs₁⟩, hbody, h₁⟩ := bind_eq_ok.1 h
  obtain ⟨⟨written, cs₂⟩, hflags, h₂⟩ := bind_eq_ok.1 h₁
  cases h₂
  obtain ⟨rfl, hrest⟩ := RegexRest.of_read hbody
  obtain ⟨rfl, hall⟩ := isAsciiLetter_of_flags hflags
  cases hrest with
  | outside hderives =>
    refine ⟨'/' :: (body ++ '/' :: written), by simp, .slashes hderives
      (fun c hc => mem_regexFlags.1 (hall c hc).2) (fun c => ?_)
      ((by decide : regexFlags.Pairwise (· < ·)).filter _)⟩
    simp only [List.mem_filter, List.contains_eq_mem, decide_eq_true_eq]
    exact and_iff_right_of_imp fun hc => (hall c hc).2

/-- A regular expression that derives from the grammar is read whole. -/
theorem RegexLiteral.read (h : RegexLiteral cs v) :
    cs.head? = some '/' ∧ regex cs = .ok (v, []) := by
  cases h with
  | slashes hbody hflags hmem hsorted =>
    have hwritten := fun c hc => mem_regexFlags.2 (hflags c hc)
    refine ⟨rfl, bind_eq_ok.2 ⟨_, hbody.read _, bind_eq_ok.2 ⟨_, flags_read hwritten, ?_⟩⟩⟩
    simp only [options_eq hwritten hmem hsorted]

end ShellQuery.Grammar
