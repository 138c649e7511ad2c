/-
  ShellQuery.Proofs.Draft.Structure

  What payloads can do to the structure around them. A payload may be any text, and whatever the
  normalizer makes of its call, an accepted list has the values, items and keys that were written,
  with one scalar for every call: a payload goes between quotes, or it is a number.

  There are three gaps. The payload of `NumberDecimal` goes in without its quotes and unread. That
  of `NumberLong` ends for the rule at a closing parenthesis, so the rest of it is left in code. And
  after a wide blank a regular expression with a quote in it turns the strings after it inside out.
  Texts without these keep their structure; a text with one of them is read as another text, in
  which what was quoted is code.
-/
import ShellQuery.Proofs.Draft.Reading

namespace ShellQuery

open Text Argument Draft

namespace Draft

open Wrapper
open Shell (Gap Digits)

variable {w : Wrapper} {z : Zone} {before : Option Char} {cs rest literal content : List Char}

/-! ## Texts with one call -/

/-- A text without parentheses has no calls. -/
theorem turns_of_not_mem {P : List Char → Prop} (h : '(' ∉ cs) (hP : P cs) :
    Turns w z before cs P := by
  induction cs generalizing z before P with
  | nil => exact .nil hP
  | cons c cs ih =>
    have huncalled : Uncalled (c :: cs) := fun front back heq => absurd (by simp [heq]) h
    exact .copy (fun _ => match?_of_uncalled huncalled) (ih (fun hmem => h (.tail _ hmem)) hP)

theorem unwrap_of_not_mem (h : '(' ∉ cs) : w.unwrap cs = cs :=
  turns_of_not_mem (P := fun out => out = cs) h rfl 0 (.zero cs)

/-- A call that a text begins with is replaced, and what follows it is copied. -/
theorem unwrap_of_match? (hmatch : w.match? none cs = some (literal, rest)) (hrest : '(' ∉ rest) :
    w.unwrap cs = literal ++ rest := by
  cases cs with
  | nil =>
    rw [match?_of_uncalled .nil] at hmatch
    cases hmatch
  | cons c cs =>
    obtain ⟨front, rfl⟩ := isSuffix_of_match? hmatch
    -- as many characters are dropped as the match has after its first
    have hlength : (front ++ ')' :: rest).length - rest.length = (front ++ [')']).length := by
      simp only [List.length_append, List.length_cons, List.length_nil]
      omega
    have hdropped := unwrapFrom_dropping w .start c (front ++ [')']) rest
    have hcopied : ∀ z before, w.unwrapFrom z before 0 0 rest = rest := fun z before =>
      turns_of_not_mem (P := fun out => out = rest) hrest rfl 0 (.zero rest)
    rw [List.append_assoc, List.singleton_append, hcopied] at hdropped
    simp only [unwrap, unwrapFrom, hmatch, Zone.start, Zone.isCode, if_true, hlength]
    exact congrArg (literal ++ ·) hdropped

/-- A rule of another name leaves a call as it is. -/
theorem unwrap_of_ne (s : Site) (hrest : '(' ∉ rest)
    (hw : w.constructorName ≠ s.call.wrapper.constructorName) :
    w.unwrap (s.text ++ rest) = s.text ++ rest := by
  have hturns : Turns w .start none (s.text ++ rest) fun out => out = s.text ++ rest :=
    turns_kept s rfl (fun hname => absurd hname hw) fun _ _ => turns_of_not_mem hrest rfl
  exact hturns 0 (.zero _)

/-! ## Payloads that become code -/

/-- The call of a wrapper without `new` and blanks. -/
def bareSite (x : Call) : Site :=
  ⟨x, none, none_ne_nil, noGap, noGap, noGap⟩

theorem bareSite_append (x : Call) (rest : List Char) : (bareSite x).text ++ rest =
    x.wrapper.constructorName ++ '(' :: (x.inner ++ ')' :: rest) := by
  simp [bareSite, Site.text, Site.front, noGap]

/-- The wrappers of numbers. No other wrapper has the name of one. -/
def numbers : List Wrapper :=
  [numberLong, numberInt, numberDecimal]

theorem constructorName_ne_of_mem {n : Wrapper} (hn : n ∈ numbers) (hne : w ≠ n) :
    w.constructorName ≠ n.constructorName := by
  simp only [numbers, List.mem_cons, List.not_mem_nil, or_false] at hn
  rcases hn with rfl | rfl | rfl <;> cases w <;> first | exact absurd rfl hne | decide

/-- What its own rule makes of the call of a number at the beginning of a text is what all rules
    make of it, if no parenthesis is left. -/
theorem normalize_bareSite (x : Call) {after : List Char} (hx : x.wrapper ∈ numbers)
    (hargs : x.wrapper.arguments? (x.inner ++ ')' :: rest) = some (literal, after))
    (hrest : '(' ∉ rest) (hout : '(' ∉ literal ++ after) :
    normalize ((bareSite x).text ++ rest) = literal ++ after := by
  have hmatch : x.wrapper.match? none ((bareSite x).text ++ rest) = some (literal, after) := by
    have hnone : (none : Option Char).any isWord = false := rfl
    have hcall := match?_call x.wrapper x.wrapper hnone .nil .nil
      (x.inner ++ ')' :: rest)
    rw [if_pos rfl, hargs, List.nil_append, List.nil_append] at hcall
    rw [bareSite_append, hcall]
  have hunwrap : x.wrapper.unwrap ((bareSite x).text ++ rest) = literal ++ after :=
    unwrap_of_match? hmatch fun hmem => hout (List.mem_append_right _ hmem)
  -- after its own rule no call is left for the others, and those before it pass by its name
  have hafter : ∀ ws : List Wrapper,
      ws.foldl (fun text w => w.unwrap text) (literal ++ after) = literal ++ after := fun ws =>
    List.foldl_fixed' (fun w => unwrap_of_not_mem hout) ws
  have hfold : ∀ ws : List Wrapper, x.wrapper ∈ ws →
      ws.foldl (fun text w => w.unwrap text) ((bareSite x).text ++ rest) = literal ++ after := by
    intro ws hmem
    induction ws with
    | nil => cases hmem
    | cons w ws ih =>
      rw [List.foldl_cons]
      by_cases hw : w = x.wrapper
      · rw [hw, hunwrap, hafter]
      · rw [unwrap_of_ne (bareSite x) hrest (constructorName_ne_of_mem hx hw)]
        exact ih ((List.mem_cons.1 hmem).resolve_left (Ne.symm hw))
  exact hfold all (by cases x <;> simp [all, Call.wrapper])

/-- The payload of `NumberDecimal` takes the place of the call. -/
theorem normalize_decimal (x : Payload) (hne : x.content ≠ [])
    (hx : ∀ c ∈ x.content, c ≠ '(' ∧ c ≠ ')') (hrest : '(' ∉ rest) :
    normalize ((bareSite (.numberDecimal x)).text ++ rest) = x.content ++ rest := by
  have hstop : ∀ c ∈ x.content, isStop c = false := fun c hc => by
    simp [isStop, (x.plain c hc).1, (hx c hc).2]
  have hread := loose?_between .nil x.isQuote x.isQuote hne hstop .nil rest
  refine normalize_bareSite (.numberDecimal x) (by simp [numbers, Call.wrapper]) ?_ hrest ?_
  · simpa [Call.wrapper, Call.inner, Payload.text, arguments?] using hread
  · simp only [List.mem_append, not_or]
    exact ⟨fun hmem => (hx _ hmem).1 rfl, hrest⟩

/-- Of an integer with a closing parenthesis after it, the rules of integers take the integer, and
    the rest of the payload is left. -/
theorem normalize_cut (n : Digits) (x : Payload) {call : Call} {tail : List Char}
    (hcall : call = .numberLong (.quoted x) ∨ call = .numberInt (.quoted x))
    (hx : x.content = n.text ++ ')' :: tail) (htail : '(' ∉ tail) (hrest : '(' ∉ rest) :
    normalize ((bareSite call).text ++ rest) = n.text ++ (tail ++ x.quote :: ')' :: rest) := by
  have hnumber : call.wrapper ∈ numbers := by
    rcases hcall with rfl | rfl <;> simp [numbers, Call.wrapper]
  -- the rule drops the quote before the integer, and asks for none after it
  have hfront : dropQuote (trimStart (x.text ++ ')' :: rest)) =
      n.text ++ ')' :: (tail ++ x.quote :: ')' :: rest) := by
    simp [Payload.text, hx, trimStart_cons (isBlank_of_isQuote x.isQuote), dropQuote, x.isQuote]
  have hstop : ∀ c ∈ (')' :: (tail ++ x.quote :: ')' :: rest)).head?, isWordDigit c = false := by
    have hclose : isWordDigit ')' = false := by decide +kernel
    simpa using hclose
  have hread := integer?_literal ⟨none, false, n, by simp⟩ hstop
  simp only [Shell.Whole.literal, Bool.false_eq_true, if_false, List.nil_append] at hread
  have hmark : ∀ cs, dropMark? ')' (dropQuote (')' :: cs)) = some cs := fun cs => rfl
  have hargs : call.wrapper.arguments? (call.inner ++ ')' :: rest) =
      some (n.text, tail ++ x.quote :: ')' :: rest) := by
    rcases hcall with rfl | rfl <;>
      simp [Call.wrapper, Call.inner, Amount.text, arguments?, hfront, hread, hmark]
  refine normalize_bareSite call hnumber hargs hrest ?_
  have hquote : x.quote ≠ '(' := by
    intro heq
    have hquote := x.isQuote
    rw [heq] at hquote
    cases hquote
  have hdigits : '(' ∉ n.text := fun hmem => by cases n.digit _ hmem
  simp [hdigits, htail, hrest, hquote.symm]

/-! ## Strings that become code -/

/-- The regular expression of a double quote, and a string that is a call of `ObjectId`. -/
def regexAndString (content : List Char) : List Char :=
  ['/', '"', '/', ',', ' ', '"', 'O', 'b', 'j', 'e', 'c', 't', 'I', 'd', '(', '\''] ++ content ++
    ['\'', ')', '"']

/-- The regular expression, and what its quote makes of the string: two empty strings, and what was
    the argument between them. -/
def regexAndCode (content : List Char) : List Char :=
  ['/', '"', '/', ',', ' ', '"', '"'] ++ content ++ ['"', '"']

/-- After a wide blank, the quote in a regular expression opens a string, and what was a string is
    code. -/
theorem normalize_unseen {gap : List Char} (hgap : Blanks gap)
    (hwide : ∃ c ∈ gap, isAsciiBlank c = false) (hne : content ≠ [])
    (hcontent : ∀ c ∈ content, isQuote c = false ∧ c ≠ '(') :
    normalize (gap ++ regexAndString content) = gap ++ regexAndCode content := by
  obtain ⟨last, hrun, hslash⟩ := opensLiteral_of_wide hgap hwide
  -- the call in the string is one that its rule would take
  have hread : payload? ([] ++ '\'' :: (content ++ ['\'', ')', '"'])) =
      some (content, [')', '"']) :=
    payload?_between .nil rfl rfl hne (fun c hc => (hcontent c hc).1) [')', '"']
  have hargs : objectId.arguments? ('\'' :: (content ++ ['\'', ')', '"'])) =
      some (quote content, ['"']) := by
    rw [List.nil_append] at hread
    simp only [arguments?, hread]
    rfl
  have hquote : (some '"').any isWord = false := by decide +kernel
  have hmatch := match?_call objectId objectId hquote .nil .nil
    ('\'' :: (content ++ ['\'', ')', '"']))
  rw [if_pos rfl, hargs] at hmatch
  have hend : ∀ z before, Settled objectId False z before ['"'] ['"'] := fun z before =>
    .copy (match?_of_not_letter rfl) .nil
  have hcall : Settled objectId False (.code (some '"')) (some '"')
      ('O' :: (['b', 'j', 'e', 'c', 't', 'I', 'd', '(', '\''] ++ content ++ ['\'', ')'] ++ ['"']))
      (quote content ++ ['"']) :=
    .call rfl (by simpa [constructorName] using hmatch) False.elim (hend _ _)
  -- the quote in the regular expression opens a string, which ends where the real one begins
  have hinside : Inside '"' (.literal '"' false) (['/', ',', ' '] ++ ['"']) :=
    inside_quoted rfl (by decide)
  have hopens : ¬ Shell.Opens objectId (['/', ',', ' '] ++ ['"']) := not_opens_of_not_mem (by decide)
  have hsettled : Settled objectId False .start none (gap ++ regexAndString content)
      (gap ++ regexAndCode content) := by
    refine .blanks hgap (fun _ => rfl) fun before _ => ?_
    rw [hrun]
    refine .mark rfl hslash (.copy (match?_of_not_letter rfl) ?_)
    rw [Zone.next_code_quote rfl]
    have hstring : Settled objectId False (.literal '"' false) (some '"')
        (['/', ',', ' '] ++ ['"'] ++ ('O' :: (['b', 'j', 'e', 'c', 't', 'I', 'd', '(', '\''] ++
          content ++ ['\'', ')'] ++ ['"'])))
        (['/', ',', ' '] ++ ['"'] ++ (quote content ++ ['"'])) :=
      .inside hinside rfl (.inr hopens) hcall
    simpa [regexAndString, regexAndCode, quote] using hstring
  have hout : '(' ∉ gap ++ regexAndCode content := by
    have hblank : '(' ∉ gap := fun hmem => by cases hgap _ hmem
    have hplain : '(' ∉ content := fun hmem => (hcontent _ hmem).2 rfl
    simp [regexAndCode, hblank, hplain]
  rw [Wrapper.normalize, Wrapper.all, List.foldl_cons, hsettled.unwrap_eq]
  exact List.foldl_fixed' (fun w => unwrap_of_not_mem hout) _

end Draft

/-! ## The structure of an accepted list -/

/--
If a list of shell values is accepted, it has the structure that was written: as many values, arrays
of the same lengths, objects with the same keys in the same order, and one scalar for every call.
The payloads are any texts without quotes and backslashes, with two exceptions: those of
`NumberLong` and `NumberInt` are no integers with a closing parenthesis after them, and those of
`NumberDecimal` are empty, or not blank and free of slashes, brackets and commas. And no wide blank
stands before a regular expression.

These conditions cannot be dropped. A payload of `NumberDecimal` without parentheses is read as
code in the place of the call; what follows the parenthesis in a payload of `NumberLong` or
`NumberInt` is read as code, and its closing quote opens a string; and for any blanks with a wide
one among them there is a list in which what a string holds is read as code.
-/
theorem skeletons_of_parseShellArguments (now : Int64) :
    (∀ (items : Items) (vs : List Value), (∀ leaf ∈ items.leaves, leaf.Sound) →
      parseShellArguments now items.text = .ok vs → Value.skeletons vs = items.skeletons) ∧
    (∀ (x : Payload) (rest : List Char), x.content ≠ [] →
      (∀ c ∈ x.content, c ≠ '(' ∧ c ≠ ')') → '(' ∉ rest →
      parseShellArguments now ((bareSite (.numberDecimal x)).text ++ rest) =
        parseArguments now (x.content ++ rest)) ∧
    (∀ (n : Shell.Digits) (x : Payload) (call : Draft.Call) (tail rest : List Char),
      call = .numberLong (.quoted x) ∨ call = .numberInt (.quoted x) →
      x.content = n.text ++ ')' :: tail → '(' ∉ tail → '(' ∉ rest →
      parseShellArguments now ((bareSite call).text ++ rest) =
        parseArguments now (n.text ++ (tail ++ x.quote :: ')' :: rest))) ∧
    (∀ gap content : List Char, Blanks gap → (∃ c ∈ gap, isAsciiBlank c = false) → content ≠ [] →
      (∀ c ∈ content, Wrapper.isQuote c = false ∧ c ≠ '(') →
      parseShellArguments now (gap ++ regexAndString content) =
        parseArguments now (gap ++ regexAndCode content)) := by
  refine ⟨fun items vs hitems h => ?_, fun x rest hne hx hrest => ?_,
    fun n x call tail rest hcall hx htail hrest => ?_, fun gap content hgap hwide hne hcontent => ?_⟩
  · obtain ⟨ws, rfl, hws⟩ := skeletons_of_values items hitems (written_normalize hitems) _ [] h
    exact hws
  · rw [parseShellArguments, normalize_decimal x hne hx hrest]
  · rw [parseShellArguments, normalize_cut n x hcall hx htail hrest]
  · rw [parseShellArguments, normalize_unseen hgap hwide hne hcontent]

/-- An object with two calls: the payload of one looks like more of its fields, that of the other is
    a number between blanks. -/
def sampleDraft : Items :=
  .last noGap (.object
    (.more noGap ⟨['i', 'd'], "id", by rfl⟩ noGap oneSpace
      (.call ⟨.objectId ⟨'\'', ['}', ',', ' ', '{', 'x', ':'], isQuote_single, by decide⟩,
        none, none_ne_nil, noGap, noGap, noGap⟩) noGap
    (.last oneSpace ⟨['n'], "n", by rfl⟩ noGap oneSpace
      (.array (.last noGap (.call ⟨.numberDecimal ⟨'"', [' ', '1', ' '], isQuote_double,
        by decide⟩, some oneSpace, oneSpace_ne_nil, noGap, noGap, noGap⟩) noGap)) noGap)))
    noGap

/-- The payloads `1, 2` and `5), `. -/
def samplePair : Payload :=
  ⟨'"', ['1', ',', ' ', '2'], isQuote_double, by decide⟩

def sampleCut : Payload :=
  ⟨'"', ['5', ')', ',', ' '], isQuote_double, by decide⟩

theorem skeletons_of_parseShellArguments_sample :
    (∃ vs, parseShellArguments 0 ("\x7bid: ObjectId('\x7d, \x7bx:'), ".toList ++
      "n: [new NumberDecimal(\" 1 \")]\x7d".toList) = .ok vs ∧
      Value.skeletons vs = [.document [("id", .null), ("n", .array [.null])]]) ∧
    parseShellArguments 0 "NumberDecimal(\"1, 2\"), 3".toList =
      parseArguments 0 "1, 2, 3".toList ∧
    parseShellArguments 0 "NumberLong(\"5), \"), /[\", /]/".toList =
      parseArguments 0 "5, \"), /[\", /]/".toList ∧
    parseShellArguments 0 ('\u00a0' :: "/\"/, \"ObjectId(', 1, ')\"".toList) =
      parseArguments 0 ('\u00a0' :: "/\"/, \"\", 1, \"\"".toList) := by
  obtain ⟨hkept, hdecimal, hcut, hunseen⟩ := skeletons_of_parseShellArguments 0
  -- a draft that is kept, a quoted pair, a quoted cut and a regular expression that is not seen
  refine ⟨?_, ?_, ?_, ?_⟩
  · have htext : sampleDraft.text = "\x7bid: ObjectId('\x7d, \x7bx:'), ".toList ++
        "n: [new NumberDecimal(\" 1 \")]\x7d".toList := by decide +kernel
    have hskeletons : sampleDraft.skeletons =
        [.document [("id", .null), ("n", .array [.null])]] := by rfl
    have hbare : Bare [' ', '1', ' '] := ⟨⟨'1', by decide, by decide⟩, by decide⟩
    have hleaves : ∀ leaf ∈ sampleDraft.leaves, leaf.Sound := by
      simp [sampleDraft, Items.leaves, Fields.leaves, Tree.leaves, Leaf.Sound, Draft.Call.Sound,
        hbare]
    obtain ⟨vs, hvs⟩ := exists_of_isOk
      (by decide +kernel : (parseShellArguments 0 sampleDraft.text).isOk = true)
    exact ⟨vs, htext ▸ hvs, (hkept sampleDraft vs hleaves hvs).trans hskeletons⟩
  · have htext : (bareSite (.numberDecimal samplePair)).text ++ [',', ' ', '3'] =
        "NumberDecimal(\"1, 2\"), 3".toList := by decide +kernel
    have hcode : samplePair.content ++ [',', ' ', '3'] = "1, 2, 3".toList := by decide +kernel
    rw [← htext, ← hcode]
    exact hdecimal samplePair _ (by decide) (by decide) (by decide)
  · have htext : (bareSite (.numberLong (.quoted sampleCut))).text ++
        [',', ' ', '/', '[', '"', ',', ' ', '/', ']', '/'] =
          "NumberLong(\"5), \"), /[\", /]/".toList := by decide +kernel
    have hcode : ['5'] ++ ([',', ' '] ++ sampleCut.quote :: ')' ::
        [',', ' ', '/', '[', '"', ',', ' ', '/', ']', '/']) =
          "5, \"), /[\", /]/".toList := by decide +kernel
    rw [← htext, ← hcode]
    exact hcut ⟨['5'], by decide, by decide⟩ sampleCut _ _ _ (.inl rfl) rfl (by decide) (by decide)
  · have htext : ['\u00a0'] ++ regexAndString [',', ' ', '1', ',', ' '] =
        '\u00a0' :: "/\"/, \"ObjectId(', 1, ')\"".toList := by decide +kernel
    have hcode : ['\u00a0'] ++ regexAndCode [',', ' ', '1', ',', ' '] =
        '\u00a0' :: "/\"/, \"\", 1, \"\"".toList := by decide +kernel
    have hblank : Blanks ['\u00a0'] := by simp [Blanks, isBlank]
    rw [← htext, ← hcode]
    exact hunseen _ _ hblank ⟨_, .head _, rfl⟩ (by decide) (by decide)

end ShellQuery
