/-
  ShellQuery.Proofs.Shell.Meaning

  What wrapper calls mean. The text that was typed is accepted and stands for the values of the
  plain text, in which every call is replaced by its literal: if every regular expression is seen
  for what it is, and if no literal opens a call that the payload of a later call may close.
-/
import ShellQuery.Proofs.Shell.Refusal

namespace ShellQuery

open Text Argument Shell

/--
A list of arguments with wrapper calls is accepted, and it has the values that it has with every
call replaced by its literal, if no wide blank stands before a regular expression and no literal
opens calls of a wrapper of which a payload closes one.

Neither condition can be dropped. For any blanks with a wide one among them, and for any call whose
payload begins with a closing parenthesis, there is a list that the other condition holds of and
that is refused.
-/
theorem parseShellArguments_typed (now : Int64) :
    (∀ items : Items, (∀ leaf ∈ items.leaves, leaf.Seen) → (∀ w, items.Safe w) →
      ∃ vs, parseShellArguments now items.typed = .ok vs ∧
        parseArguments now items.plain = .ok vs) ∧
    (∀ gap : Gap, (∃ c ∈ gap.text, isAsciiBlank c = false) →
      ∃ first s, (∀ w, (literalAndCall gap first s).Safe w) ∧
        ∀ vs, parseShellArguments now (literalAndCall gap first s).typed ≠ .ok vs) ∧
    (∀ s : Site, (Leaf.call s).Closes s.call.wrapper →
      ∃ first, (∀ leaf ∈ (literalAndCall noGap first s).leaves, leaf.Seen) ∧
        ∀ vs, parseShellArguments now (literalAndCall noGap first s).typed ≠ .ok vs) := by
  refine ⟨fun items hseen hsafe => ?_, fun gap hwide => ?_, fun s hcloses => ?_⟩
  · obtain ⟨vs, hplain⟩ := exists_parseArguments_plain now items
    refine ⟨vs, ?_, hplain⟩
    rw [parseShellArguments, Wrapper.normalize_typed hseen hsafe, hplain]
  · refine ⟨quoteRegex, someCall, fun w => .inl ?_, parseShellArguments_unseen gap hwide⟩
    simp only [literalAndCall, Items.leaves, Tree.leaves, List.mem_append, List.mem_singleton,
      or_imp, forall_and, forall_eq]
    refine ⟨fun hcloses => hcloses, ?_⟩
    rintro ⟨-, payload, hpayload, hclose⟩
    cases hpayload
    cases hclose
  · refine ⟨opening s.call.wrapper, ?_, parseShellArguments_swallowed s hcloses⟩
    simp only [literalAndCall, Items.leaves, Tree.leaves, List.mem_append, List.mem_singleton,
      or_imp, forall_and, forall_eq]
    exact ⟨fun hslash => by simp [opening, Wrapper.quote] at hslash, trivial⟩

/-- An object with a call, and an array of a call and of a regular expression that looks like one. -/
def sampleList : Items :=
  .last noGap (.object
    (.more noGap ⟨['"', 'i', 'd', '"'], "id", rfl⟩ noGap oneSpace
      (.call ⟨.objectId ⟨'\'', ['5', 'f'], isQuote_single, by simp, by decide⟩, some oneSpace,
        oneSpace_ne_nil, oneSpace, noGap, noGap⟩) noGap
    (.last oneSpace ⟨['"', 'n', '"'], "n", rfl⟩ noGap oneSpace
      (.array (.more noGap (.call ⟨.numberLong ⟨some '"', true, ⟨['5'], by simp, by decide⟩,
          by simp [Wrapper.isQuote]⟩, none, none_ne_nil, noGap, noGap, noGap⟩) noGap
        (.last oneSpace (.scalar ⟨['/', 'U', 'U', 'I', 'D', '(', '"', '"', ')', '/', 'i'],
          fun _ => ⟨.regex "UUID(\"\")" "i", rfl⟩⟩) noGap))) noGap)))
    noGap

theorem parseShellArguments_typed_sample : ∃ vs,
    parseShellArguments 0 ("\x7b\"id\": new ObjectId ('5f'), ".toList ++
      "\"n\": [NumberLong(\"-5\"), /UUID(\"\")/i]\x7d".toList) = .ok vs ∧
    parseArguments 0 "\x7b\"id\": \"5f\", \"n\": [-5, /UUID(\"\")/i]\x7d".toList = .ok vs := by
  have hleaves : ∀ leaf ∈ sampleList.leaves, leaf.Seen ∧ ∀ w, ¬ leaf.Closes w := by
    simp [sampleList, Items.leaves, Fields.leaves, Tree.leaves, Leaf.Seen, Leaf.Closes, Call.payload?,
      noGap, oneSpace, trimStart, isBlank, isAsciiBlank]
  have htyped : sampleList.typed = "\x7b\"id\": new ObjectId ('5f'), ".toList ++
      "\"n\": [NumberLong(\"-5\"), /UUID(\"\")/i]\x7d".toList := by decide +kernel
  have hplain : sampleList.plain =
      "\x7b\"id\": \"5f\", \"n\": [-5, /UUID(\"\")/i]\x7d".toList := by decide +kernel
  rw [← htyped, ← hplain]
  exact (parseShellArguments_typed 0).1 sampleList (fun leaf hleaf => (hleaves leaf hleaf).1)
    fun w => .inl fun leaf hleaf => (hleaves leaf hleaf).2 w

end ShellQuery
