/-
  ShellQuery.Proofs.Console.Selection

  Which target a conversation deals with. A line is a command if it begins with a slash, and the
  name of the command ends at the first space (`Asks`). The commands `/target` and `/use` name a
  target in the text behind them (`Selecting`). What a text names is its first word (`Names`), so the
  selected target is the one that was named last of those that are registered (`Selects`), and its
  name is one word. A line deals with the store only if it is a query or a command to probe or to
  close, and then with the selected target alone (`Obeys`).
-/
import ShellQuery.Console.Conversation
import ShellQuery.Proofs.Locality
import ShellQuery.Proofs.Polling
import ShellQuery.Session

namespace ShellQuery.Console

open Text Cache

variable {id name text texts line cs rest arguments : List Char}

/-! ## Words -/

/-- Whether a text is one word. -/
structure IsWord (cs : List Char) : Prop where
  ne_nil : cs ≠ []
  isBlank : ∀ c ∈ cs, isBlank c = false

/-- Whether a text names something: that is its first word. -/
inductive Names (id : List Char) : List Char → Prop where
  | first {before after : List Char} (hbefore : Blanks before) (hid : IsWord id)
    (hafter : ∀ c ∈ after.head?, isBlank c = true) : Names id (before ++ (id ++ after))

theorem names_iff : Names id text ↔ id ≠ [] ∧ Input.firstWord text = id := by
  constructor
  · rintro ⟨hbefore, hid, hafter⟩
    obtain ⟨c, cs, rfl⟩ := List.exists_cons_of_ne_nil hid.ne_nil
    have hword : (c :: cs).takeWhile (fun c => !isBlank c) = c :: cs :=
      List.takeWhile_eq_self_iff.2 fun d hd => by simp [hid.isBlank d hd]
    refine ⟨hid.ne_nil, ?_⟩
    rw [Input.firstWord, trimStart_blanks_append hbefore, List.cons_append,
      trimStart_cons (hid.isBlank c (.head _)), ← List.cons_append,
      (takeWhile_append _ fun d hd => by simp [hafter d hd]).1, hword]
  · rintro ⟨hne, rfl⟩
    -- the first word ends where the text does or in front of a blank
    obtain ⟨before, hbefore, htext⟩ := eq_blanks_append_trimStart text
    have hsplit : trimStart text = Input.firstWord text ++
        (trimStart text).dropWhile (fun c => !isBlank c) :=
      List.takeWhile_append_dropWhile.symm
    have hword : IsWord (Input.firstWord text) :=
      ⟨hne, fun c hc => by simpa using List.mem_takeWhile_imp hc⟩
    have hafter : ∀ c ∈ ((trimStart text).dropWhile fun c => !isBlank c).head?,
        isBlank c = true := by
      intro c hc
      have hstop := List.head?_dropWhile_not (fun c => !isBlank c) (trimStart text)
      rw [hc] at hstop
      simpa using hstop
    have hnamed : Names (Input.firstWord text) (before ++ (Input.firstWord text ++
        (trimStart text).dropWhile fun c => !isBlank c)) := .first hbefore hword hafter
    rwa [← hsplit, ← htext] at hnamed

/-! ## Lines -/

/-- What a line asks for that has no blanks around it. -/
inductive Asks : List Char → Input → Prop where
  | nothing : Asks [] .nothing
  | query {c : Char} {cs : List Char} (hc : c ≠ '/') : Asks (c :: cs) (.query (c :: cs))
  | help : Asks ['/'] .help
  /-- A command with nothing after its name. -/
  | bare {name : List Char} (hne : name ≠ []) (hname : ' ' ∉ name) :
    Asks ('/' :: name) (Input.ofCommand name [])
  | command {name rest : List Char} (hname : ' ' ∉ name) :
    Asks ('/' :: (name ++ ' ' :: rest)) (Input.ofCommand name (trim rest))

/-- The name of a command ends at the first space. -/
theorem split_command (hname : ' ' ∉ name) :
    name.takeWhile (· ≠ ' ') = name ∧ name.dropWhile (· ≠ ' ') = [] := by
  have hall : ∀ c ∈ name, decide (c ≠ ' ') = true := fun c hc =>
    decide_eq_true fun heq => hname (heq ▸ hc)
  exact ⟨List.takeWhile_eq_self_iff.2 hall, List.dropWhile_eq_nil_iff.2 hall⟩

theorem split_command_append (hname : ' ' ∉ name) (rest : List Char) :
    (name ++ ' ' :: rest).takeWhile (· ≠ ' ') = name ∧
      (name ++ ' ' :: rest).dropWhile (· ≠ ' ') = ' ' :: rest := by
  have hspace : ∀ c ∈ (' ' :: rest).head?, decide (c ≠ ' ') = false := by simp
  obtain ⟨htake, hdrop⟩ := takeWhile_append name hspace
  obtain ⟨htake', hdrop'⟩ := split_command hname
  exact ⟨htake.trans htake', by rw [hdrop, hdrop', List.nil_append]⟩

theorem ofCommand_of_bare (hname : ' ' ∉ name) : Input.ofCommand (name.takeWhile (· ≠ ' '))
    (trim ((name.dropWhile (· ≠ ' ')).drop 1)) = Input.ofCommand name [] := by
  obtain ⟨htake, hdrop⟩ := split_command hname
  rw [htake, hdrop]
  rfl

theorem ofCommand_append (hname : ' ' ∉ name) (rest : List Char) :
    Input.ofCommand ((name ++ ' ' :: rest).takeWhile (· ≠ ' '))
      (trim (((name ++ ' ' :: rest).dropWhile (· ≠ ' ')).drop 1)) =
        Input.ofCommand name (trim rest) := by
  obtain ⟨htake, hdrop⟩ := split_command_append hname rest
  rw [htake, hdrop]
  rfl

theorem asks_iff {input : Input} : Asks (trim line) input ↔ Input.ofLine line = input := by
  rw [Input.ofLine]
  generalize trim line = cs
  constructor
  · intro h
    cases h with
    | nothing | help => rfl
    | query hc => split <;> simp_all
    | @bare name hne hname =>
      obtain ⟨c, cs, rfl⟩ := List.exists_cons_of_ne_nil hne
      exact ofCommand_of_bare hname
    | @command name rest hname =>
      have hcommand := ofCommand_append hname rest
      -- a slash alone is read apart, so it has to be seen that this one is not
      cases name <;> exact hcommand
  · rintro rfl
    split
    · exact .nothing
    · exact .help
    · rename_i command hcommand
      by_cases hspace : ' ' ∈ command
      · obtain ⟨name, rest, rfl, hname⟩ := List.eq_append_cons_of_mem hspace
        rw [ofCommand_append hname]
        exact .command hname
      · rw [ofCommand_of_bare hspace]
        exact .bare (by simpa using hcommand) hspace
    · rename_i hnil _ hslash
      cases cs with
      | nil => exact (hnil rfl).elim
      | cons c cs => exact .query fun hc => hslash cs (by rw [hc])

/-- The commands to select a target. -/
theorem ofCommand_eq_select_iff {given : List Char} :
    Input.ofCommand name given = .select arguments ↔
      (name = "target".toList ∨ name = "use".toList) ∧ given = arguments := by
  have hname : ∀ s : String, name = s.toList ↔ String.ofList name = s := fun s =>
    ⟨fun h => h ▸ String.ofList_toList, fun h => h ▸ String.toList_ofList.symm⟩
  rw [hname, hname, Input.ofCommand]
  split <;> simp_all

/-- The text after a command to select a target. -/
def Input.arguments? : Input → Option (List Char)
  | .select arguments => some arguments
  | _ => none

/-- The text in which a line names a target, if it is a command to select one. -/
def selecting? (line : List Char) : Option (List Char) :=
  (Input.ofLine (typed line)).arguments?

/-- Whether a line that has no blanks around it is a command to select a target, and names it in the
    given text. -/
inductive Selecting : List Char → List Char → Prop where
  | bare {name : List Char} (hname : name = "target".toList ∨ name = "use".toList) :
    Selecting ('/' :: name) []
  | named {name rest : List Char} (hname : name = "target".toList ∨ name = "use".toList) :
    Selecting ('/' :: (name ++ ' ' :: rest)) (trim rest)

theorem selecting?_eq_some_iff :
    selecting? line = some arguments ↔ Selecting (trim (typed line)) arguments := by
  have hselect : selecting? line = some arguments ↔
      Asks (trim (typed line)) (.select arguments) := by
    rw [asks_iff, selecting?]
    cases Input.ofLine (typed line) <;> simp [Input.arguments?]
  rw [hselect]
  generalize trim (typed line) = cs
  constructor
  · generalize hinput : Input.select arguments = input
    intro h
    -- of what a line can ask for, only a command, bare or with arguments, selects
    cases h with
    | nothing | help | query => cases hinput
    | bare =>
      obtain ⟨hname, rfl⟩ := ofCommand_eq_select_iff.1 hinput.symm
      exact .bare hname
    | command =>
      obtain ⟨hname, rfl⟩ := ofCommand_eq_select_iff.1 hinput.symm
      exact .named hname
  · intro h
    cases h with
    | bare hname =>
      have hselects := ofCommand_eq_select_iff.2 ⟨hname, (rfl : ([] : List Char) = [])⟩
      rw [← hselects]
      rcases hname with rfl | rfl <;> exact .bare (by decide) (by decide)
    | @named _ rest hname =>
      have hselects := ofCommand_eq_select_iff.2 ⟨hname, (rfl : trim rest = trim rest)⟩
      rw [← hselects]
      rcases hname with rfl | rfl <;> exact .command (by decide)

/-- Whether a line may deal with the store: a query, or a command to probe or to close. -/
def Input.deals : Input → Bool
  | .query _ | .probe | .close => true
  | _ => false

/-! ## Selections -/

/-- Whether a text names no registered target. -/
def NamesNone (registry : Registry) (text : List Char) : Prop :=
  ∀ id : String, Names id.toList text → registry.find? id = none

/-- Whether a selection is what some texts come to: the target named last of those that are
    registered. -/
inductive Selects (registry : Registry) : List (List Char) → Option String → Prop where
  | none {texts : List (List Char)} (h : ∀ text ∈ texts, NamesNone registry text) :
    Selects registry texts none
  | last {before after : List (List Char)} {text : List Char} {id : String} {t : Target}
    (hname : Names id.toList text) (hid : registry.find? id = some t)
    (hafter : ∀ later ∈ after, NamesNone registry later) :
    Selects registry (before ++ text :: after) (some id)

section
variable {registry : Registry} {texts : List (List Char)} {selected : Option String}

/-- A target that is selected is registered, and its name is one word. -/
theorem Selects.registered {id : String} (h : Selects registry texts (some id)) :
    IsWord id.toList ∧ ∃ t, registry.find? id = some t := by
  cases h with
  | last hname hid =>
    obtain ⟨hbefore, hword, hafter⟩ := hname
    exact ⟨hword, _, hid⟩

/-- A text that names no registered target leaves the selection as it is. -/
theorem Selects.snoc_none (h : Selects registry texts selected) (htext : NamesNone registry text) :
    Selects registry (texts ++ [text]) selected := by
  cases h with
  | none h =>
    refine .none fun later hlater => ?_
    rcases List.mem_append.1 hlater with hlater | hlater
    · exact h later hlater
    · exact List.mem_singleton.1 hlater ▸ htext
  | @last before after _ _ _ hname hid hafter =>
    -- what was named last stays last: the new text joins those behind it
    rw [List.append_assoc, List.cons_append]
    refine .last hname hid fun later hlater => ?_
    rcases List.mem_append.1 hlater with hlater | hlater
    · exact hafter later hlater
    · exact List.mem_singleton.1 hlater ▸ htext

end

namespace Conversation

variable {σ : Type} (store : Store σ) {x y : Conversation σ} {registry : Registry}
  {texts : List (List Char)} {now : Int64} {input : Input}

theorem select_cases (x : Conversation σ) (arguments : List Char) :
    (NamesNone x.executor.registry arguments ∧ (x.select arguments).1 = x) ∨
    ∃ id t, Names id.toList arguments ∧ x.executor.registry.find? id = some t ∧
      (x.select arguments).1 = { x with selected := some id } := by
  have hfirst : ∀ id : String, Names id.toList arguments →
      id ≠ "" ∧ id = String.ofList (Input.firstWord arguments) := by
    intro id hid
    obtain ⟨hne, hword⟩ := names_iff.1 hid
    exact ⟨fun h => hne (h ▸ rfl), by rw [hword, String.ofList_toList]⟩
  unfold select
  dsimp only
  split
  · rename_i hempty
    refine .inl ⟨fun id hid => absurd ((hfirst id hid).2.trans hempty) (hfirst id hid).1, ?_⟩
    split <;> rfl
  · rename_i hne
    split
    · rename_i t hfind
      refine .inr ⟨_, t, names_iff.2 ⟨?_, String.toList_ofList.symm⟩, hfind, rfl⟩
      rw [String.toList_ofList]
      exact fun hnil => hne (by rw [hnil])
    · rename_i hfind
      exact .inl ⟨fun id hid => (hfirst id hid).2 ▸ hfind, rfl⟩

/-! ## Answers -/

/-- What becomes of a line by what it asks for. A query is executed on the selected target, and that
    is the one to be probed or closed; whatever the line, all dealings with the store are for that
    target. Other lines deal with nothing, and neither does any line while no target is selected. -/
structure Obeys (store : Store σ) (x : Conversation σ) (now : Int64) (input : Input)
    (y : Conversation σ) : Prop where
  query : ∀ {target text}, x.selected = some target → input = .query text →
    y.executor = (x.executor.execute store now { target, query := text }).1
  probe : ∀ {target}, x.selected = some target → input = .probe →
    y.executor = (x.executor.probe store target).1
  close : ∀ {target}, x.selected = some target → input = .close →
    y.executor = (x.executor.close store target).1
  serves : ∀ {target}, x.selected = some target → x.executor.Serves target y.executor
  idle : x.selected = none ∨ input.deals = false → y.executor = x.executor

theorem Obeys.of_idle (hsound : Sound (x.executor.registry.find? ·) x.executor.cache)
    (hidle : x.selected = none ∨ input.deals = false) (h : y.executor = x.executor) :
    Obeys store x now input y where
  query hselected hinput := by simp [hselected, hinput, Input.deals] at hidle
  probe hselected hinput := by simp [hselected, hinput, Input.deals] at hidle
  close hselected hinput := by simp [hselected, hinput, Input.deals] at hidle
  serves _ := by
    rw [h]
    exact ⟨rfl, rfl, .refl, hsound⟩
  idle _ := h

theorem Obeys.of_serves {target : String} (hselected : x.selected = some target)
    (hdeals : input.deals = true) (hserves : x.executor.Serves target y.executor)
    (hquery : ∀ text, input = .query text →
      y.executor = (x.executor.execute store now { target, query := text }).1)
    (hprobe : input = .probe → y.executor = (x.executor.probe store target).1)
    (hclose : input = .close → y.executor = (x.executor.close store target).1) :
    Obeys store x now input y := by
  have hsame : ∀ {target'}, x.selected = some target' → target' = target := fun h =>
    Option.some.inj (h.symm.trans hselected)
  constructor
  · rintro target' text h hinput
    exact hsame h ▸ hquery text hinput
  · rintro target' h hinput
    exact hsame h ▸ hprobe hinput
  · rintro target' h hinput
    exact hsame h ▸ hclose hinput
  · rintro target' h
    exact hsame h ▸ hserves
  · simp [hselected, hdeals]

theorem select_executor (x : Conversation σ) (arguments : List Char) :
    (x.select arguments).1.executor = x.executor := by
  obtain ⟨-, h⟩ | ⟨id, t, -, -, h⟩ := x.select_cases arguments <;> rw [h]

theorem obeys_answer (hsound : Sound (x.executor.registry.find? ·) x.executor.cache)
    (now : Int64) (input : Input) : Obeys store x now input (x.answer store now input).1 := by
  cases hselected : x.selected with
  | none =>
    -- the three that deal with the store refuse, and what they return is the conversation itself
    refine .of_idle store hsound (.inl hselected) ?_
    cases input <;>
      simp [answer, Conversation.query, Conversation.probe, Conversation.close, hselected,
        select_executor]
  | some target =>
    cases input with
    | query text =>
      have hexecutor : (x.answer store now (.query text)).1.executor =
          (x.executor.execute store now { target, query := text }).1 := by
        simp [answer, Conversation.query, hselected]
      refine .of_serves store hselected rfl ?_ (fun text' hinput => ?_) nofun nofun
      · rw [hexecutor]
        exact Executor.serves_execute store hsound now { target, query := text }
      · cases hinput
        exact hexecutor
    | probe =>
      have hexecutor : (x.answer store now .probe).1.executor =
          (x.executor.probe store target).1 := by
        simp only [answer, Conversation.probe, hselected]
        split <;> rename_i h <;> rw [h]
      refine .of_serves store hselected rfl ?_ nofun (fun _ => hexecutor) nofun
      rw [hexecutor]
      exact Executor.serves_probe store hsound target
    | close =>
      have hexecutor : (x.answer store now .close).1.executor =
          (x.executor.close store target).1 := by
        simp [answer, Conversation.close, hselected]
      refine .of_serves store hselected rfl ?_ nofun nofun fun _ => hexecutor
      rw [hexecutor]
      exact Executor.serves_close store hsound target
    | select arguments => exact .of_idle store hsound (.inr rfl) (select_executor x arguments)
    | _ => exact .of_idle store hsound (.inr rfl) rfl

/-! ## Conversations -/

/-- The conversation after some lines, each read at some time, unless one of them has ended it. -/
def after? (x : Conversation σ) : List (Int64 × List Char) → Option (Conversation σ)
  | [] => some x
  | (now, line) :: rest =>
    match (x.respond store now (some line)).1 with
    | none => none
    | some y => y.after? rest

/-- What is printed for some lines is what is printed for the first of them, and what the
    conversation after these goes on to print. -/
theorem transcript_append {lines : List (List Char)}
    (h : x.after? store (lines.map (now, ·)) = some y) (rest : List (List Char)) :
    ∃ printed : Printed, x.transcript store now (lines ++ rest) =
      printed ++ y.transcript store now rest := by
  induction lines generalizing x with
  | nil =>
    cases h
    exact ⟨{}, (Printed.empty_append _).symm⟩
  | cons line lines ih =>
    rw [List.map_cons, after?] at h
    split at h
    · cases h
    · rename_i z hz
      obtain ⟨printed, hprinted⟩ := ih h
      refine ⟨x.prompt ++ (x.respond store now (some line)).2 ++ printed, ?_⟩
      rw [List.cons_append, transcript]
      split
      · rename_i hend
        rw [hend] at hz
        cases hz
      · rename_i w answered hmore
        rw [hmore] at hz ⊢
        cases hz
        rw [hprinted, Printed.append_assoc, Printed.append_assoc, Printed.append_assoc]

/-- What is known of a conversation in which the given texts have named targets. -/
structure Governed (registry : Registry) (texts : List (List Char)) (x : Conversation σ) :
    Prop where
  sound : Sound (registry.find? ·) x.executor.cache
  selects : Selects registry texts x.selected
  registry : x.executor.registry = registry

theorem Governed.select (h : Governed registry texts x) (arguments : List Char) :
    Governed registry (texts ++ [arguments]) (x.select arguments).1 := by
  obtain ⟨hsound, hselects, rfl⟩ := h
  obtain ⟨hnone, heq⟩ | ⟨id, t, hname, hid, heq⟩ := x.select_cases arguments
  · rw [heq]
    exact ⟨hsound, hselects.snoc_none hnone, rfl⟩
  · rw [heq]
    exact ⟨hsound, .last hname hid nofun, rfl⟩

/-- A line changes the selection only if it is a command to select. -/
theorem selected_answer (x : Conversation σ) (now : Int64) (hinput : input.arguments? = none) :
    (x.answer store now input).1.selected = x.selected := by
  cases input with
  | select => cases hinput
  | query text =>
    simp only [answer, Conversation.query]
    split <;> rfl
  | probe =>
    simp only [answer, Conversation.probe]
    split
    · rfl
    · split <;> rfl
  | close =>
    simp only [answer, Conversation.close]
    split <;> rfl
  | _ => rfl

variable {store} in
/-- No line changes the registry, and what the cache holds stays attributed to its targets. -/
theorem Obeys.keeps (hobeys : Obeys store x now input y)
    (hsound : Sound (x.executor.registry.find? ·) x.executor.cache) :
    y.executor.registry = x.executor.registry ∧
      Sound (x.executor.registry.find? ·) y.executor.cache := by
  cases hselected : x.selected with
  | none =>
    rw [hobeys.idle (.inl hselected)]
    exact ⟨rfl, hsound⟩
  | some target =>
    have hserves := hobeys.serves hselected
    exact ⟨hserves.registry, hserves.registry ▸ hserves.sound⟩

theorem Governed.answer (h : Governed registry texts x) (now : Int64) (input : Input) :
    Governed registry (texts ++ input.arguments?.toList) (x.answer store now input).1 := by
  cases hinput : input.arguments? with
  | some arguments =>
    cases input <;> cases hinput
    exact h.select arguments
  | none =>
    obtain ⟨hsound, hselects, rfl⟩ := h
    obtain ⟨hregistry, hsound'⟩ := (obeys_answer store hsound now input).keeps hsound
    rw [Option.toList_none, List.append_nil]
    exact ⟨hsound', selected_answer store x now hinput ▸ hselects, hregistry⟩

/-- A line that does not end the conversation is answered. -/
theorem eq_answer_of_respond {line : List Char} (h : (x.respond store now (some line)).1 = some y) :
    y = (x.answer store now (Input.ofLine (typed line))).1 := by
  simp only [respond, Option.map_some] at h
  generalize Input.ofLine (typed line) = input at h ⊢
  cases input with
  | quit => cases h
  | _ => exact (Option.some.inj h).symm

/-- The texts in which targets have been named: the one that the conversation began with, and those
    of the commands to select. -/
def named (target : Option String) (lines : List (List Char)) : List (List Char) :=
  (target.map String.toList).toList ++ lines.filterMap selecting?

theorem start_fst (executor : Executor σ) (id : String) :
    (start executor (some id)).1 = (({ executor } : Conversation σ).select id.toList).1 := by
  unfold start
  dsimp only

theorem governed_start (executor : Executor σ) (target : Option String)
    (hsound : Sound (executor.registry.find? ·) executor.cache) :
    Governed executor.registry (named target []) (start executor target).1 := by
  have hnothing : Governed executor.registry [] ({ executor } : Conversation σ) :=
    ⟨hsound, .none nofun, rfl⟩
  cases target with
  | none => exact hnothing
  | some id =>
    rw [start_fst]
    exact hnothing.select id.toList

theorem Governed.after {turns : List (Int64 × List Char)} (h : Governed registry texts x)
    (hy : x.after? store turns = some y) :
    Governed registry (texts ++ (turns.map Prod.snd).filterMap selecting?) y := by
  induction turns generalizing x texts with
  | nil =>
    cases hy
    simpa using h
  | cons turn turns ih =>
    obtain ⟨now, line⟩ := turn
    rw [after?] at hy
    split at hy
    · cases hy
    · rename_i z hz
      obtain rfl := eq_answer_of_respond store hz
      have hcons : ((now, line) :: turns).map Prod.snd = line :: turns.map Prod.snd := rfl
      have htexts : (line :: turns.map Prod.snd).filterMap selecting? =
          (selecting? line).toList ++ (turns.map Prod.snd).filterMap selecting? := by
        rw [List.filterMap_cons]
        cases selecting? line <;> rfl
      -- the texts named so far were left free, since this line may add one to them
      rw [hcons, htexts, ← List.append_assoc]
      exact ih (h.answer store now _) hy

/-- A conversation deals with its selected target alone. After any lines that is the registered target
    named last, or none if none was named, where a line names one with the commands `/target` and
    `/use`; its name is one word. The next line obeys what it asks for, and what is printed from there
    on is what the conversation prints for the lines that are left. -/
theorem selection_governs (registry : Registry) (config : Config) (s : σ) (target : Option String)
    (turns : List (Int64 × List Char))
    (hx : (start { registry, config, store := s } target).1.after? store turns = some x) :
    Selects registry (named target (turns.map Prod.snd)) x.selected ∧
    (∀ line arguments, selecting? line = some arguments ↔
      Selecting (trim (typed line)) arguments) ∧
    (∀ id, x.selected = some id → IsWord id.toList ∧ ∃ t, registry.find? id = some t) ∧
    x.executor.registry = registry ∧
    (∀ now line y, (x.respond store now (some line)).1 = some y →
      Asks (trim (typed line)) (Input.ofLine (typed line)) ∧
        Obeys store x now (Input.ofLine (typed line)) y) ∧
    ∀ now lines rest, turns = lines.map (now, ·) → ∃ printed : Printed,
      (start { registry, config, store := s } target).1.transcript store now (lines ++ rest) =
        printed ++ x.transcript store now rest := by
  obtain ⟨hsound, hselects, hregistry⟩ := (governed_start { registry, config, store := s } target
    .start).after store hx
  have hselects' : Selects registry (named target (turns.map Prod.snd)) x.selected := by
    simpa [named] using hselects
  refine ⟨hselects', fun line arguments => selecting?_eq_some_iff,
    fun id hid => (hid ▸ hselects').registered, hregistry, fun now line y hy => ?_,
    fun now lines rest hturns => transcript_append store (hturns ▸ hx) rest⟩
  refine ⟨asks_iff.2 rfl, ?_⟩
  obtain rfl := eq_answer_of_respond store hy
  -- the cache is sound for the registry that the conversation began with, and that is still the one
  subst hregistry
  exact obeys_answer store hsound now _

/-- Three targets, one of them with a blank in its name. -/
def sampleRegistry : Registry :=
  [("a", ⟨"h1", none, "n", true⟩), ("b", ⟨"h2", none, "n", true⟩),
    ("my shop", ⟨"h3", none, "n", true⟩)]

/-- Commands that name a target which is registered, and one whose name has a blank in it. -/
theorem selection_governs_blank : ∃ x : Conversation Session.Script,
    (start { registry := sampleRegistry, config := {}, store := {} } (some "a")).1.after?
      Session.Script.store [(0, "/use b".toList), (1, "/target my shop".toList)] = some x ∧
    x.selected = some "b" ∧
    ∀ y, (x.respond Session.Script.store 2 (some "db.c.find()".toList)).1 = some y →
      x.executor.Serves "b" y.executor := by
  have hselected :
      ((start { registry := sampleRegistry, config := {}, store := {} } (some "a")).1.after?
        Session.Script.store [(0, "/use b".toList), (1, "/target my shop".toList)]).map selected =
          some (some "b") := by
    decide +kernel
  obtain ⟨x, hx, hb⟩ := Option.map_eq_some_iff.1 hselected
  obtain ⟨-, -, -, -, hobeys, -⟩ := selection_governs Session.Script.store _ _ _ _ _ hx
  exact ⟨x, hx, hb, fun y hy => (hobeys 2 _ y hy).2.serves hb⟩

end Conversation

end ShellQuery.Console
