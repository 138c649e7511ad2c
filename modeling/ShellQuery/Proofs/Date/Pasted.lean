/-
  ShellQuery.Proofs.Date.Pasted

  Dates that go round. A date from 1970 to the end of the year 9999 is shown in results by its
  RFC 3339 text; a query that has that text in a date construction, with its zone or without, has
  the same date as its argument.
-/
import ShellQuery.Proofs.Date.Calendar
import ShellQuery.Proofs.Date.Printed
import ShellQuery.Proofs.Grammar.Acceptance
import ShellQuery.Proofs.Shell.Refusal
import ShellQuery.Result

namespace ShellQuery.Date

open Text Argument Shell

/-! ## Texts of moments -/

/-- The last moment whose year has four digits. -/
def lastMoment : Moment :=
  ⟨⟨9999, 12, 31⟩, 23, 59, 59, 999⟩

theorem toMillis_lastMoment : lastMoment.toMillis = 253402300799999 := by
  decide

/-- A moment that is counted in milliseconds from 1970 to the end of the year 9999 can be printed. -/
theorem printable_ofMillis {n : Int} (hlow : 0 ≤ n) (hhigh : n ≤ lastMoment.toMillis) :
    (Moment.ofMillis n).Printable := by
  rw [toMillis_lastMoment] at hhigh
  obtain ⟨hyear, hyear'⟩ :=
    CalendarDay.year_ofDayNumber (n := n / 86400000) (by omega) (by omega)
  refine ⟨CalendarDay.isValid_ofDayNumber _, hyear, hyear', ?_, ?_, ?_, ?_⟩ <;>
    simp only [Moment.ofMillis] <;> omega

theorem trim_of_forall {cs : List Char} (h : ∀ c ∈ cs, isBlank c = false) : trim cs = cs := by
  have hstart : ∀ ds : List Char, (∀ c ∈ ds, isBlank c = false) → ds.dropWhile isBlank = ds := by
    intro ds hds
    cases ds with
    | nil => rfl
    | cons d ds => simp [hds d List.mem_cons_self]
  rw [trim, trimStart, hstart cs h, trimEnd, hstart cs.reverse (by simpa using h),
    List.reverse_reverse]

/-- The text of a moment stands for its milliseconds, with its zone or without. -/
theorem parseMillis_printed {m : Moment} (h : m.Printable) {last : List Char}
    (hlast : last = ['Z'] ∨ last = []) : parseMillis (m.zoneless ++ last) = some m.toMillis := by
  have htrim : trim (m.zoneless ++ last) = m.zoneless ++ last :=
    trim_of_forall fun c hc => (Moment.plain_of_mem_printed hlast hc).1
  rw [parseMillis, htrim]
  -- without its zone the text is left to the second of the readers
  rcases hlast with rfl | rfl
  · rw [h.internet?_printed]
    rfl
  · rw [List.append_nil, h.internet?_zoneless_eq_none, h.local?_printed]
    rfl

example : parseMillis "2000-02-29T00:00:00.5".toList = some 951782400500 := by
  decide +kernel

/-! ## Date constructions -/

/-- A call of `ISODate` with a text between double quotes. -/
def isoDateOf (text : List Char) : List Char :=
  ['I', 'S', 'O', 'D', 'a', 't', 'e', '('] ++ Wrapper.quote text ++ [')']

/-- A construction of a `Date` with a text between double quotes. -/
def newDateOf (text : List Char) : List Char :=
  ['n', 'e', 'w', ' ', 'D', 'a', 't', 'e', '('] ++ Wrapper.quote text ++ [')']

/-- A date text that needs no escapes between quotes. -/
structure DateText (text : List Char) (millis : Int) : Prop where
  nonempty : text ≠ []
  plain : ∀ c ∈ text, c ∉ ['"', '\'', '\\']
  date : parseMillis text = some millis

namespace DateText

variable {text : List Char} {millis : Int} (h : DateText text millis)

include h

theorem stringLiteral : Grammar.StringLiteral (Wrapper.quote text) (.ofList text) := by
  have hbody : ∀ cs : List Char, (∀ c ∈ cs, c ∉ ['"', '\'', '\\']) →
      Grammar.StringBody '"' cs cs := by
    intro cs hcs
    induction cs with
    | nil => exact .nil
    | cons c cs ih =>
      have hc := hcs c List.mem_cons_self
      simp only [List.mem_cons, List.not_mem_nil, or_false, not_or] at hc
      exact .plain hc.1 hc.2.2 (ih fun d hd => hcs d (List.mem_cons_of_mem c hd))
  exact .quoted (.inl rfl) (hbody text h.plain)

theorem scalar_newDateOf (now : Int64) :
    Grammar.Scalar now (newDateOf text) (.date (.ofInt millis)) := by
  have hargument : Grammar.DateArgument now (Wrapper.quote text) (.ofInt millis) :=
    .text h.stringLiteral (by rw [String.toList_ofList]; exact h.date)
  have hcall := Grammar.DateLiteral.call (.construct .space (by simp)) .nil .nil hargument .nil
  have htext : newDateOf text = "new".toList ++ ([' '] ++ "Date".toList) ++
      ([] ++ '(' :: ([] ++ (Wrapper.quote text ++ ([] ++ [')'])))) := rfl
  rw [htext]
  exact .date hcall

theorem parseArguments_newDateOf (now : Int64) :
    parseArguments now (newDateOf text) = .ok [.date (.ofInt millis)] := by
  have harguments := Grammar.Arguments.single .nil (.scalar (h.scalar_newDateOf now)) .nil
  rw [List.nil_append, List.append_nil] at harguments
  exact harguments.values

/-- A construction of a `Date` is not rewritten. -/
theorem parseShellArguments_newDateOf (now : Int64) :
    parseShellArguments now (newDateOf text) = .ok [.date (.ofInt millis)] := by
  -- arguments without a call are typed as they are read
  let items : Items :=
    .last noGap (.scalar ⟨newDateOf text, fun now => ⟨_, (h.scalar_newDateOf now).read⟩⟩) noGap
  have htext : ∀ replaced, items.text replaced = newDateOf text := by
    intro replaced
    simp [items, Items.text, Tree.text, noGap]
  have hseen : ∀ leaf ∈ items.leaves, leaf.Seen := by
    intro leaf hleaf
    obtain rfl := List.mem_singleton.1 hleaf
    intro hslash
    simp [newDateOf] at hslash
  have hsafe : ∀ w, items.Safe w := by
    intro w
    refine .inl fun leaf hleaf => ?_
    obtain rfl := List.mem_singleton.1 hleaf
    exact id
  have htyped : items.typed = newDateOf text := htext _
  have hplain : items.plain = newDateOf text := htext _
  rw [parseShellArguments, ← htyped, Wrapper.normalize_typed hseen hsafe, hplain]
  exact h.parseArguments_newDateOf now

/-- A call of `ISODate` is rewritten as a construction of a `Date`. -/
theorem parseShellArguments_isoDateOf (now : Int64) :
    parseShellArguments now (isoDateOf text) = .ok [.date (.ofInt millis)] := by
  let payload : Quoted := ⟨'"', text, rfl, h.nonempty, by
    intro c hc
    have hplain := h.plain c hc
    simp only [List.mem_cons, List.not_mem_nil, or_false, not_or] at hplain
    simp [Wrapper.isQuote, hplain]⟩
  let call : Shell.Call := .isoDate payload (by simp [payload, h.date])
  let items : Items := .last noGap (.call ⟨call, none, none_ne_nil, noGap, noGap, noGap⟩) noGap
  have htyped : items.typed = isoDateOf text := by
    simp [items, call, payload, Items.typed, Items.text, Tree.text, Site.written, Site.text,
      Site.front, Site.arguments, Shell.Call.wrapper, Shell.Call.inner, Quoted.text, Wrapper.constructorName,
      noGap, isoDateOf, Wrapper.quote]
  have hplain : items.plain = newDateOf text := by
    simp [items, call, payload, Items.plain, Items.text, Tree.text, Site.written,
      Shell.Call.literal, Shell.Call.dateOf, noGap, newDateOf]
  have hseen : ∀ leaf ∈ items.leaves, leaf.Seen := by
    intro leaf hleaf
    obtain rfl := List.mem_singleton.1 hleaf
    trivial
  have hsafe : ∀ w, items.Safe w := by
    -- a date is no payload of another kind
    intro w
    refine .inl fun leaf hleaf => ?_
    obtain rfl := List.mem_singleton.1 hleaf
    rintro ⟨-, text, htext, -⟩
    cases htext
  rw [parseShellArguments, ← htyped, Wrapper.normalize_typed hseen hsafe, hplain]
  exact h.parseArguments_newDateOf now

end DateText

/-! ## Shown dates -/

theorem dateText_printed {m : Moment} (h : m.Printable) {last : List Char}
    (hlast : last = ['Z'] ∨ last = []) : DateText (m.zoneless ++ last) m.toMillis := by
  refine ⟨?_, fun c hc => (Moment.plain_of_mem_printed hlast hc).2, parseMillis_printed h hlast⟩
  simp [Moment.zoneless]

theorem relaxed_date {millis : Int64} (hlow : 0 ≤ millis.toInt)
    (hyear : (Moment.ofMillis millis.toInt).date.year ≤ 9999) :
    (Value.date millis).relaxed = .object
      [("$date", .string (.ofList ((Moment.ofMillis millis.toInt).zoneless ++ ['Z'])))] := by
  rw [Value.relaxed, Value.relaxedDate, if_pos ⟨hlow, hyear⟩, Moment.internet_eq]

/-- A date from 1970 to the end of the year 9999 is shown as a text that ends in `Z`. Pasted into a
    date construction, with the `Z` or without it, the text is that very date. -/
theorem parseShellArguments_shown (now : Int64) {millis : Int64} (hlow : 0 ≤ millis.toInt)
    (hhigh : millis.toInt ≤ lastMoment.toMillis) :
    ∃ text : List Char,
      (Value.date millis).relaxed = .object [("$date", .string (.ofList (text ++ ['Z'])))] ∧
      (∀ elapsed, ExecutionResult.ofValue (.date millis) elapsed =
        .success (Value.date millis).relaxed elapsed 1) ∧
      ∀ pasted ∈ [text ++ ['Z'], text],
        parseShellArguments now (isoDateOf pasted) = .ok [.date millis] ∧
        parseShellArguments now (newDateOf pasted) = .ok [.date millis] := by
  have hprintable := printable_ofMillis hlow hhigh
  have hmillis : Int64.ofInt (Moment.ofMillis millis.toInt).toMillis = millis := by
    rw [Moment.toMillis_ofMillis, Int64.ofInt_toInt]
  have hpasted : ∀ {pasted : List Char},
      DateText pasted (Moment.ofMillis millis.toInt).toMillis →
        parseShellArguments now (isoDateOf pasted) = .ok [.date millis] ∧
        parseShellArguments now (newDateOf pasted) = .ok [.date millis] := by
    intro pasted h
    have hiso := h.parseShellArguments_isoDateOf now
    have hnew := h.parseShellArguments_newDateOf now
    rw [hmillis] at hiso hnew
    exact ⟨hiso, hnew⟩
  refine ⟨_, relaxed_date hlow hprintable.year_le, fun _ => rfl, ?_⟩
  simp only [List.mem_cons, List.not_mem_nil, or_false, forall_eq_or_imp, forall_eq]
  refine ⟨hpasted (dateText_printed hprintable (.inl rfl)), ?_⟩
  have hbare := dateText_printed hprintable (.inr rfl)
  rw [List.append_nil] at hbare
  exact hpasted hbare

/-- Half a second into the leap day of a century. -/
theorem parseShellArguments_shown_leapDay :
    (0 ≤ (951782400500 : Int64).toInt ∧ (951782400500 : Int64).toInt ≤ lastMoment.toMillis) ∧
      ∃ text : List Char,
        (Value.date 951782400500).relaxed =
          .object [("$date", .string (.ofList (text ++ ['Z'])))] ∧
        (∀ elapsed, ExecutionResult.ofValue (.date 951782400500) elapsed =
          .success (Value.date 951782400500).relaxed elapsed 1) ∧
        ∀ pasted ∈ [text ++ ['Z'], text],
          parseShellArguments 0 (isoDateOf pasted) = .ok [.date 951782400500] ∧
          parseShellArguments 0 (newDateOf pasted) = .ok [.date 951782400500] :=
  ⟨⟨by decide, by decide⟩, parseShellArguments_shown 0 (by decide) (by decide)⟩

end ShellQuery.Date
