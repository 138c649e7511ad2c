/-
  ShellQuery.Proofs.Grammar.Chain

  The grammar of the calls that are chained to a primary call. A chain is a sequence of calls, each of
  them a dot, a name and arguments up to the delimiter that closes them, with narrow blanks around
  the dot and the name, and then the end of the statement (`Chain.Written`). Exactly the chains are
  read, each as its calls, and two chains written one after the other are read as the calls of both
  (`Chain.calls_iff_written`).
-/
import ShellQuery.Proofs.Chain

namespace ShellQuery

open Text

namespace Chain

variable {now : Int64} {cs gap ending rest : List Char} {call : ChainedCall}
  {calls : List ChainedCall}

/-- A text that is written as calls, one after the other, and an ending. -/
inductive Written (now : Int64) (ending : List Char) : List Char → List ChainedCall → Prop where
  | ending : Written now ending ending []
  | call {beforeDot afterDot method afterMethod arguments rest : List Char} {closer : Char}
    {values : List Value} {calls : List ChainedCall}
    (beforeDot_blank : NarrowBlanks beforeDot) (afterDot_blank : NarrowBlanks afterDot)
    (method_ne_nil : method ≠ []) (method_char : ∀ c ∈ method, isStepChar c = true)
    (afterMethod_blank : NarrowBlanks afterMethod)
    (closed : close? (arguments ++ closer :: rest) = some ⟨arguments, closer, rest⟩)
    (parsed : parseShellArguments now arguments = .ok values)
    (more : Written now ending rest calls) :
    Written now ending
      (beforeDot ++ '.' :: (afterDot ++ (method ++ (afterMethod ++
        '(' :: (arguments ++ closer :: rest)))))
      (⟨.ofList method, values⟩ :: calls)

/-! ## Calls as links -/

/-- A link, as the first call of a text. -/
theorem Written.of_link {l : Link} (h : l.Reads now call) (hrest : Written now ending rest calls) :
    Written now ending (l.text ++ rest) (call :: calls) := by
  obtain ⟨beforeDot, afterDot, method, afterMethod, arguments, closer⟩ := l
  obtain ⟨name, values⟩ := call
  obtain ⟨hbeforeDot, hafterDot, hnamed, hmethod, hafterMethod, henclosed, hcloser, rfl, hvalues⟩ := h
  have hclosed : close? (arguments ++ closer :: rest) = some ⟨arguments, closer, rest⟩ :=
    close?_eq_some_iff.2 ⟨henclosed, hcloser, rfl⟩
  have hwritten := Written.call hbeforeDot hafterDot hnamed hmethod hafterMethod hclosed hvalues hrest
  simpa only [Link.text, List.append_assoc, List.cons_append, List.nil_append] using hwritten

/-- A text is written as calls if it is put together from links that are read as these. -/
theorem written_iff_links : Written now ending cs calls ↔
    ∃ links, List.Forall₂ (Link.Reads now) links calls ∧ cs = links.flatMap Link.text ++ ending := by
  constructor
  · intro h
    induction h with
    | ending => exact ⟨[], .nil, rfl⟩
    | call hbeforeDot hafterDot hnamed hmethod hafterMethod hclosed hvalues hrest ih =>
      obtain ⟨links, hlinks, rfl⟩ := ih
      obtain ⟨henclosed, hcloser, -⟩ := close?_eq_some_iff.1 hclosed
      refine ⟨⟨_, _, _, _, _, _⟩ :: links, .cons ⟨hbeforeDot, hafterDot, hnamed, hmethod,
        hafterMethod, henclosed, hcloser, rfl, hvalues⟩ hlinks, ?_⟩
      simp only [List.flatMap_cons, Link.text, List.append_assoc, List.cons_append, List.nil_append]
  · rintro ⟨links, hlinks, rfl⟩
    induction hlinks with
    | nil => exact .ending
    | cons hlink hlinks ih =>
      rw [List.flatMap_cons, List.append_assoc]
      exact .of_link hlink ih

/-! ## What stands in front of a chain -/

/-- Narrow blanks in front of a chain do not count. -/
theorem calls_gap (hgap : NarrowBlanks gap) :
    Chain.calls now (gap ++ cs) = .ok calls ↔ Chain.calls now cs = .ok calls := by
  have hlength : cs.length < (gap ++ cs).length + 1 := by
    rw [List.length_append]
    omega
  rw [Chain.calls, skipAsciiBlanks_append hgap, callsFrom_eq_ok_iff _ hlength, calls_eq_ok_iff]

/-- A link in front of a chain is one more call. -/
theorem calls_link {l : Link} (h : l.Reads now call) : Chain.calls now (l.text ++ cs) = .ok calls ↔
    ∃ more, Chain.calls now cs = .ok more ∧ calls = call :: more := by
  have hlength : cs.length < (l.text ++ cs).length := by
    have hless := l.length_text
    rw [List.length_append]
    omega
  have hmore (more : List ChainedCall) :
      callsFrom now (l.text ++ cs) (l.text ++ cs).length (skipAsciiBlanks cs) = .ok more ↔
        Chain.calls now cs = .ok more := by
    rw [callsFrom_eq_ok_iff _ hlength, calls_eq_ok_iff]
  simp only [← hmore]
  rw [Chain.calls, callsFrom_link h]
  cases callsFrom now (l.text ++ cs) (l.text ++ cs).length (skipAsciiBlanks cs) with
  | error e => simp [Except.map]
  | ok more => simp [Except.map, eq_comm]

/-! ## The calls that are read -/

/-- A text is read as calls if and only if it is written as them, up to the end of the statement. So
    nothing in front of the end is left out, and no call is. A chain with narrow blanks after its
    calls, and nothing else there, may stand in front of any text: both are read if and only if
    that text is, and as the calls of the chain and then those of the text. -/
theorem calls_iff_written {cs : List Char} :
    (∀ calls, Chain.calls now cs = .ok calls ↔
      ∃ ending, isEnd ending = true ∧ Written now ending cs calls) ∧
    ∀ {gap : List Char} {first : List ChainedCall}, NarrowBlanks gap → Written now gap cs first →
      ∀ rest calls, Chain.calls now (cs ++ rest) = .ok calls ↔
        ∃ more, Chain.calls now rest = .ok more ∧ calls = first ++ more := by
  constructor
  · intro calls
    rw [calls_eq_ok_iff]
    constructor
    · rintro ⟨links, ending, hlinks, hending, hcs⟩
      exact ⟨ending, hending, written_iff_links.2 ⟨links, hlinks, hcs⟩⟩
    · rintro ⟨ending, hending, hwritten⟩
      obtain ⟨links, hlinks, hcs⟩ := written_iff_links.1 hwritten
      exact ⟨links, ending, hlinks, hending, hcs⟩
  · intro gap first hgap hfirst rest calls
    obtain ⟨links, hlinks, rfl⟩ := written_iff_links.1 hfirst
    clear hfirst
    -- one link after the other, and the blanks in front of the second chain at the end
    induction hlinks generalizing calls with
    | nil => simp [calls_gap hgap]
    | cons hlink hlinks ih =>
      rw [List.flatMap_cons, List.append_assoc, List.append_assoc, calls_link hlink]
      simp only [← List.append_assoc, ih, List.cons_append]
      constructor
      · rintro ⟨_, ⟨more, hmore, rfl⟩, rfl⟩
        exact ⟨more, hmore, rfl⟩
      · rintro ⟨more, hmore, rfl⟩
        exact ⟨_, ⟨more, hmore, rfl⟩, rfl⟩

theorem narrowBlanks_space : NarrowBlanks [' '] := by
  simp [NarrowBlanks, isAsciiBlank]

theorem written_limit : Written 0 [' '] ".limit(2) ".toList [⟨"limit", [.int32 2]⟩] :=
  .of_link (l := ⟨[], [], "limit".toList, [], ['2'], ')'⟩) {
    beforeDot := by simp [NarrowBlanks]
    afterDot := by simp [NarrowBlanks]
    named := by decide
    method := by decide
    afterMethod := by simp [NarrowBlanks]
    enclosed := by decide
    closer := rfl
    name := rfl
    arguments := by cbv } .ending

theorem written_skip : Written 0 [';'] ". skip (1);".toList [⟨"skip", [.int32 1]⟩] :=
  .of_link (l := ⟨[], [' '], "skip".toList, [' '], ['1'], ')'⟩) {
    beforeDot := by simp [NarrowBlanks]
    afterDot := narrowBlanks_space
    named := by decide
    method := by decide
    afterMethod := narrowBlanks_space
    enclosed := by decide
    closer := rfl
    name := rfl
    arguments := by cbv } .ending

/-- A chain that a blank ends, in front of one that a semicolon ends. -/
theorem calls_iff_written_limit_skip :
    NarrowBlanks [' '] ∧ Written 0 [' '] ".limit(2) ".toList [⟨"limit", [.int32 2]⟩] ∧
      Chain.calls 0 ". skip (1);".toList = .ok [⟨"skip", [.int32 1]⟩] ∧
      Chain.calls 0 (".limit(2) ".toList ++ ". skip (1);".toList) =
        .ok [⟨"limit", [.int32 2]⟩, ⟨"skip", [.int32 1]⟩] := by
  have hskip : Chain.calls 0 ". skip (1);".toList = .ok [⟨"skip", [.int32 1]⟩] :=
    (calls_iff_written.1 _).2 ⟨_, rfl, written_skip⟩
  exact ⟨narrowBlanks_space, written_limit, hskip,
    (calls_iff_written.2 narrowBlanks_space written_limit _ _).2 ⟨_, hskip, rfl⟩⟩

end Chain

end ShellQuery
