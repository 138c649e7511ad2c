/-
  ShellQuery.Proofs.Path.Text

  Paths and their printed texts. A path whose steps can be written is read back from its text, and
  an accepted text is the text of its path, but for zeros before an index, narrow blanks in front
  and the end of the statement (`parse_iff_printed`).
-/
import ShellQuery.Proofs.Digits
import ShellQuery.Proofs.Path

namespace ShellQuery.Path

open Text

/-! ## Steps and their texts -/

/-- Whether a step has a written form: the name of a field is one or more step characters, and an
    index fits 64 bits. -/
def Writable : PathStep → Prop
  | .field name => name ≠ "" ∧ ∀ c ∈ name.toList, isStepChar c = true
  | .index n => n < 2 ^ 64

instance (step : PathStep) : Decidable (Writable step) :=
  match step with
  | .field name => inferInstanceAs (Decidable (name ≠ "" ∧ ∀ c ∈ name.toList, isStepChar c = true))
  | .index n => inferInstanceAs (Decidable (n < 2 ^ 64))

/-- A text that is a step as it is printed, but for zeros before an index. -/
inductive Spells : List Char → PathStep → Prop where
  | field (name : String) : Spells ('.' :: name.toList) (.field name)
  | index (zeros n : Nat) :
    Spells ('[' :: (List.replicate zeros '0' ++ (toString n).toList ++ [']'])) (.index n)

theorem toList_stepText_field (name : String) :
    (stepText (.field name)).toList = '.' :: name.toList := by
  rw [stepText, String.toList_append]
  rfl

theorem toList_stepText_index (n : Nat) :
    (stepText (.index n)).toList = '[' :: ((toString n).toList ++ [']']) := by
  rw [stepText, String.toList_append, String.toList_append]
  rfl

/-- A step is spelled as it is printed. -/
theorem spells_stepText (step : PathStep) : Spells (stepText step).toList step := by
  cases step with
  | field name =>
    rw [toList_stepText_field]
    exact .field name
  | index n =>
    rw [toList_stepText_index]
    exact .index 0 n

theorem toList_text (path : Path) :
    path.text.toList = (path.map fun step => (stepText step).toList).flatten := by
  rw [text, String.toList_join, List.flatMap_def, List.map_map]
  rfl

/-- The digits that are read for an index are its printed ones with zeros in front. -/
theorem exists_zeros {digits : List Char} (hne : digits ≠ [])
    (hdigits : ∀ c ∈ digits, isAsciiDigit c = true) :
    ∃ zeros, digits = List.replicate zeros '0' ++ (toString (digitsValue digits)).toList := by
  obtain ⟨zeros, hzeros⟩ := eq_replicate_append_toDigits hne hdigits
  refine ⟨zeros, ?_⟩
  rwa [Nat.toString_eq_repr, Nat.toList_repr]

/-- What is read as a step is a spelling of it, and a step that is read can be written. -/
theorem writes_iff {text : List Char} {step : PathStep} :
    Writes text step ↔ Writable step ∧ Spells text step := by
  constructor
  · intro h
    cases h with
    | @field name hne hname =>
      refine ⟨⟨?_, ?_⟩, ?_⟩
      · intro hempty
        rw [String.ofList_eq_empty_iff] at hempty
        exact hne hempty
      · rwa [String.toList_ofList]
      · have hspells := Spells.field (.ofList name)
        rwa [String.toList_ofList] at hspells
    | @index digits hne hdigits hrange =>
      -- the digits of an index are its numeral with zeros in front
      obtain ⟨zeros, hzeros⟩ := exists_zeros hne hdigits
      have hspells := Spells.index zeros (digitsValue digits)
      rw [← hzeros] at hspells
      exact ⟨hrange, hspells⟩
  · rintro ⟨hwritable, hspells⟩
    cases hspells with
    | field name =>
      obtain ⟨hne, hname⟩ := hwritable
      have hwrites : Writes ('.' :: name.toList) (.field (.ofList name.toList)) := by
        refine .field ?_ hname
        intro hnil
        exact hne (String.toList_eq_nil_iff.1 hnil)
      rwa [String.ofList_toList] at hwrites
    | index zeros n =>
      rw [Nat.toString_eq_repr, Nat.toList_repr]
      -- and these zeros do not change the number that is read
      have hvalue : digitsValue (List.replicate zeros '0' ++ Nat.toDigits 10 n) = n := by
        rw [digitsValue_replicate_append, digitsValue_toDigits]
      have hdigits : ∀ c ∈ List.replicate zeros '0' ++ Nat.toDigits 10 n,
          isAsciiDigit c = true := by
        intro c hc
        rcases List.mem_append.1 hc with hzero | hdigit
        · rw [List.eq_of_mem_replicate hzero]
          rfl
        · exact isAsciiDigit_of_mem_toDigits hdigit
      have hwrites := Writes.index (by simp) hdigits (by rw [hvalue]; exact hwritable)
      rwa [hvalue] at hwrites

/-! ## Paths and their texts -/

section
variable {texts : List (List Char)} {path : Path}

/-- The steps of a path are read from texts just in case they can be written and the texts spell
    them. -/
theorem forall₂_writes_iff :
    List.Forall₂ Writes texts path ↔ (∀ step ∈ path, Writable step) ∧
      List.Forall₂ Spells texts path := by
  constructor
  · intro h
    induction h with
    | nil => exact ⟨nofun, .nil⟩
    | cons htext _ ih =>
      obtain ⟨hwritable, hspells⟩ := writes_iff.1 htext
      refine ⟨?_, .cons hspells ih.2⟩
      rintro step (_ | ⟨_, hmem⟩)
      · exact hwritable
      · exact ih.1 step hmem
  · rintro ⟨hwritable, h⟩
    induction h with
    | nil => exact .nil
    | cons hspells _ ih =>
      refine .cons (writes_iff.2 ⟨hwritable _ (.head _), hspells⟩) (ih ?_)
      exact fun step hmem => hwritable step (.tail _ hmem)

theorem forall₂_spells_stepText (path : Path) :
    List.Forall₂ Spells (path.map fun step => (stepText step).toList) path := by
  induction path with
  | nil => exact .nil
  | cons step path ih => exact .cons (spells_stepText step) ih

/-- A text is read as a path just in case the steps can be written and the text spells them. -/
theorem parse_iff_spelled {cs : List Char} :
    parse cs = .ok path ↔ (∀ step ∈ path, Writable step) ∧
      ∃ gap texts ending, NarrowBlanks gap ∧ List.Forall₂ Spells texts path ∧
        Chain.isEnd ending = true ∧ cs = gap ++ (texts.flatten ++ ending) := by
  rw [parse_eq_ok_iff]
  constructor
  · rintro @⟨gap, ending, texts, _, hgap, htexts, hending⟩
    obtain ⟨hwritable, hspells⟩ := forall₂_writes_iff.1 htexts
    exact ⟨hwritable, gap, texts, ending, hgap, hspells, hending, rfl⟩
  · rintro ⟨hwritable, gap, texts, ending, hgap, hspells, hending, rfl⟩
    exact .steps hgap (forall₂_writes_iff.2 ⟨hwritable, hspells⟩) hending

/-- The text of a path whose steps can be written is read as the path. -/
theorem parse_text (h : ∀ step ∈ path, Writable step) : parse path.text.toList = .ok path := by
  refine parse_iff_spelled.2 ⟨h, [], _, [], nofun, forall₂_spells_stepText path, rfl, ?_⟩
  rw [List.nil_append, List.append_nil, toList_text]

end

/-- Paths print and read back. A path of which each field has a name of ASCII letters, digits,
    underscores and dollar signs and each index fits 64 bits is read from its text. A text that is
    accepted is read as a path that its own text is read as, too, and the two texts are the same,
    but for zeros before an index, narrow blanks in front and semicolons and blanks at the end; and
    every text that differs from that of such a path in this way only is accepted and read as it. -/
theorem parse_iff_printed :
    (∀ path : Path, (∀ step ∈ path, Writable step) → parse path.text.toList = .ok path) ∧
    ∀ (cs : List Char) (path : Path), parse cs = .ok path ↔
      parse path.text.toList = .ok path ∧
      ∃ gap texts ending, NarrowBlanks gap ∧ List.Forall₂ Spells texts path ∧
        Chain.isEnd ending = true ∧ cs = gap ++ (texts.flatten ++ ending) := by
  refine ⟨fun path => parse_text, fun cs path => ⟨fun h => ?_, ?_⟩⟩
  · obtain ⟨hwritable, hspelled⟩ := parse_iff_spelled.1 h
    exact ⟨parse_text hwritable, hspelled⟩
  · rintro ⟨hprinted, hspelled⟩
    exact parse_iff_spelled.2 ⟨(parse_iff_spelled.1 hprinted).1, hspelled⟩

/-- `" .a[007][18446744073709551615].length ;\n"` is read as the path that is printed without the
    blanks, the zeros and the semicolon. -/
theorem parse_iff_printed_zeros :
    (∀ step ∈ [PathStep.field "a", .index 7, .index 18446744073709551615, .field "length"],
      Writable step) ∧
    parse ".a[7][18446744073709551615].length".toList =
      .ok [.field "a", .index 7, .index 18446744073709551615, .field "length"] ∧
    parse " .a[007][18446744073709551615].length ;\n".toList =
      .ok [.field "a", .index 7, .index 18446744073709551615, .field "length"] := by
  have hwritable : ∀ step ∈ [PathStep.field "a", .index 7, .index 18446744073709551615,
      .field "length"], Writable step := by decide
  have hprinted := parse_iff_printed.1 _ hwritable
  refine ⟨hwritable, hprinted, (parse_iff_printed.2 _ _).2 ⟨hprinted, [' '],
    [['.', 'a'], "[007]".toList, "[18446744073709551615]".toList, ".length".toList],
    " ;\n".toList, by simp [NarrowBlanks, isAsciiBlank], ?_, by decide, by decide⟩⟩
  exact .cons (.field "a") (.cons (.index 2 7) (.cons (.index 0 18446744073709551615)
    (.cons (.field "length") .nil)))

end ShellQuery.Path
