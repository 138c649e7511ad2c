/-
  ShellQuery.Proofs.Shell.Refusal

  Where a wrapper call is missed. The reader takes no call, so a list is refused when the normalizer
  leaves one in it. That happens in two ways, each shown on a list of a literal and a call.

  After blanks with a wide one among them the slash of `/"/` is code, and the quote after it opens a
  string that runs up to the payload of the call. And a match that begins in the string
  `"ObjectId("` runs up to a parenthesis that begins the payload of the call after it.
-/
import Mathlib.Data.List.Basic
import ShellQuery.Proofs.Shell.Normalization
import ShellQuery.Proofs.Shell.Reading

namespace ShellQuery

open Text Argument Shell

variable {now : Int64} {depth : Nat} {rest : List Char}

/-! ## The reader takes no wrapper call -/

theorem constructorName_ne (w : Wrapper) :
    ∀ word ∈ ["true", "false", "null", "undefined", "NaN", "Infinity", "new", "Date"],
      String.ofList w.constructorName ≠ word := by
  cases w <;> decide

/-- The reader takes no wrapper call, with `new` or without, whatever its arguments. -/
theorem value_call (w : Wrapper) {front gap : List Char} (hfront : Wrapper.Front front)
    (hgap : Blanks gap) (args : List Char) (found : Value × List Char) :
    value now depth (front ++ (w.constructorName ++ (gap ++ '(' :: args))) ≠ .ok found := by
  cases depth with
  | zero => simp [value]
  | succ depth =>
    have hletters := Wrapper.isAsciiLetter_of_mem_constructorName w
    obtain ⟨c, name, hname⟩ := List.exists_cons_of_ne_nil (Wrapper.constructorName_ne_nil w)
    have hne := constructorName_ne w
    -- what the name of the wrapper is read as
    have hidentifier := identifier_word hletters (isIdentChar_of_mem_head? hgap args)
    cases hfront with
    | nil =>
      have hkeyword := value_letter now depth (hletters c (by simp [hname]))
        (name ++ (gap ++ '(' :: args))
      rw [← List.cons_append, ← hname] at hkeyword
      rw [List.nil_append, hkeyword, keyword, hidentifier]
      simp [hne]
    | @new blanks hblanks hne_nil =>
      have hdate : w.constructorName ≠ ['D', 'a', 't', 'e'] := fun hdate =>
        hne "Date" (by simp) (by rw [hdate])
      have hblank : isBlank c = false :=
        isBlank_of_isAsciiLetter (hletters c (by simp [hname]))
      generalize gap ++ '(' :: args = tail at hidentifier ⊢
      have htrim : trimStart (blanks ++ (w.constructorName ++ tail)) = w.constructorName ++ tail := by
        rw [hname]
        exact trimStart_mark hblanks hblank (name ++ tail)
      have hafter : ∀ c ∈ (blanks ++ (w.constructorName ++ tail)).head?, isIdentChar c = false := by
        obtain ⟨b, bs, hgap⟩ := List.exists_cons_of_ne_nil hne_nil
        simpa [hgap] using isIdentChar_of_isBlank (hblanks b (by simp [hgap]))
      have hnewWord : ∀ c ∈ ['n', 'e', 'w'], isAsciiLetter c = true := by decide
      have hword := identifier_word hnewWord hafter
      have hkeyword := value_letter now depth (hnewWord 'n' (.head _)) (['e', 'w'] ++
        (blanks ++ (w.constructorName ++ tail)))
      simp only [List.cons_append, List.nil_append] at hword hkeyword ⊢
      rw [hkeyword, keyword, hword]
      simp [htrim, hidentifier, hdate]

theorem value_site (s : Site) (rest : List Char) (found : Value × List Char) :
    value now depth (s.text ++ rest) ≠ .ok found := by
  rw [Wrapper.site_append]
  exact value_call s.call.wrapper (Wrapper.front_site s) s.beforeOpening.blank _ found

/-! ## A literal and a call -/

/-- Nothing, and one space. -/
def noGap : Gap :=
  ⟨[], .nil⟩

def oneSpace : Gap :=
  ⟨[' '], .space⟩

theorem none_ne_nil : ∀ gap ∈ (none : Option Gap), gap.text ≠ [] := by
  simp

theorem oneSpace_ne_nil : ∀ gap ∈ some oneSpace, gap.text ≠ [] := by
  simp [oneSpace]

theorem isQuote_double : Wrapper.isQuote '"' = true :=
  rfl

theorem isQuote_single : Wrapper.isQuote '\'' = true :=
  rfl

/-- A list of a scalar and a call. -/
def literalAndCall (gap : Gap) (first : Scalar) (s : Site) : Items :=
  .more gap (.scalar first) noGap (.last oneSpace (.call s) noGap)

theorem typed_literalAndCall (gap : Gap) (first : Scalar) (s : Site) :
    (literalAndCall gap first s).typed = gap.text ++ (first.text ++ ',' :: ' ' :: s.text) := by
  simp [literalAndCall, Items.typed, Items.text, Tree.text, Site.written, noGap, oneSpace]

/-- Values that begin with a call are refused. -/
theorem values_site {steps : Nat} {read vs : List Value} {front : List Char} (hfront : Blanks front)
    (s : Site) : values now steps read (front ++ s.text) ≠ .ok vs := by
  intro h
  obtain ⟨c, hc, hletter⟩ := Wrapper.lettered_site s []
  obtain ⟨tail, hs⟩ := List.head?_eq_some_iff.1 (Option.mem_def.1 hc)
  rw [List.append_nil] at hs
  have htrim : trimStart (front ++ s.text) = s.text := by
    rw [hs]
    exact trimStart_mark hfront (isBlank_of_isAsciiLetter hletter) tail
  cases steps with
  | zero => simp [values] at h
  | succ steps =>
    simp only [values, htrim] at h
    split at h
    · rename_i hnil
      simp [hs] at hnil
    · obtain ⟨found, hread, -⟩ := bind_eq_ok.1 h
      have hcall : value now (2 * s.text.length + 1) (s.text ++ []) = .ok found := by
        rw [List.append_nil]
        exact hread
      exact value_site s [] found hcall

/-- The list is refused, if it reaches the reader as it was typed. -/
theorem parseArguments_literalAndCall (gap : Gap) (first : Scalar) (s : Site) (vs : List Value) :
    parseArguments now (literalAndCall gap first s).typed ≠ .ok vs := by
  obtain ⟨v, hread⟩ := first.read now
  have hfirst : readValue now (first.text ++ ',' :: ' ' :: s.text) =
      .ok (v, [] ++ ',' :: ' ' :: s.text) :=
    value_append (stops_mark (by decide) _) hread
  have hmore := values_more (literalAndCall gap first s).typed.length [] gap.blank hfirst .nil
  rw [parseArguments]
  nth_rewrite 2 [typed_literalAndCall]
  rw [hmore]
  exact values_site oneSpace.blank s

/-- The normalizer leaves a text as it is, if no rule changes it. -/
theorem normalize_eq_self {cs : List Char} (h : ∀ w : Wrapper, w.unwrap cs = cs) :
    Wrapper.normalize cs = cs :=
  List.foldl_fixed' h _

/-! ## A slash after a wide blank -/

/-- The regular expression of a double quote. -/
def quoteRegex : Scalar :=
  ⟨['/', '"', '/'], fun _ => ⟨.regex "\"" "", rfl⟩⟩

/-- The call `ObjectId("a")`. -/
def someCall : Site :=
  ⟨.objectId ⟨'"', ['a'], isQuote_double, by simp, by decide⟩, none, none_ne_nil,
    noGap, noGap, noGap⟩

/-- What stands between the first two quotes, if the slash is code. -/
def misread : List Char :=
  ['/', ',', ' ', 'O', 'b', 'j', 'e', 'c', 't', 'I', 'd', '(']

theorem typed_unseen (gap : Gap) : (literalAndCall gap quoteRegex someCall).typed =
    gap.text ++ '/' :: ('"' :: (misread ++ ['"']) ++ (['a'] ++ ['"', ')'])) := by
  simp [typed_literalAndCall, quoteRegex, someCall, misread, Site.text, Site.front, Site.arguments,
    Call.wrapper, Call.inner, Quoted.text, Wrapper.constructorName, noGap]

/-- After blanks with a wide one among them a slash opens no regular expression. -/
theorem opensLiteral_of_wide {gap : List Char} (hgap : Blanks gap)
    (hwide : ∃ c ∈ gap, isAsciiBlank c = false) :
    ∃ last, (Zone.code none).run gap = .code last ∧ Zone.opensLiteral last '/' = false := by
  obtain ⟨last, hrun, -, hlast⟩ := Zone.run_blanks hgap none
  obtain ⟨b, hb, rfl⟩ := hlast hwide
  have hne : ∀ d : Char, isBlank d = false → b ≠ d := fun d => ne_of_isBlank hb
  refine ⟨some b, hrun, ?_⟩
  simp [Zone.opensLiteral, Zone.valueMayStart, hne '(' rfl, hne ',' rfl, hne ':' rfl, hne '[' rfl]

theorem unwrap_unseen (w : Wrapper) (gap : Gap) (hwide : ∃ c ∈ gap.text, isAsciiBlank c = false) :
    w.unwrap (literalAndCall gap quoteRegex someCall).typed =
      (literalAndCall gap quoteRegex someCall).typed := by
  obtain ⟨last, hrun, hslash⟩ := opensLiteral_of_wide gap.blank hwide
  -- from its end, the text is an unclosed string, a letter and a string
  have hend : Wrapper.Ready w True ['"', ')'] ['"', ')'] :=
    ⟨fun last before => .copy (Wrapper.match?_of_not_letter rfl)
      (.copy (Wrapper.match?_of_not_letter rfl) .nil), .of_head rfl (by decide)⟩
  have hmisread : Atom ('"' :: (misread ++ ['"'])) := Wrapper.atom_quoted rfl (by decide)
  have hinert : ∀ c ∈ ['a'], isInert c = true := by decide
  have hrest := (hend.inert hinert).atom hmisread (.inl trivial)
  refine Wrapper.Settled.unwrap_eq (m := True) ?_
  rw [typed_unseen]
  refine .blanks gap.blank (fun _ => rfl) fun before _ => ?_
  rw [hrun]
  exact .mark rfl hslash (hrest.settled _ _)

/-- After a wide blank a regular expression may hide a call that comes after it. -/
theorem parseShellArguments_unseen (gap : Gap) (hwide : ∃ c ∈ gap.text, isAsciiBlank c = false)
    (vs : List Value) :
    parseShellArguments now (literalAndCall gap quoteRegex someCall).typed ≠ .ok vs := by
  rw [parseShellArguments, normalize_eq_self fun w => unwrap_unseen w gap hwide]
  exact parseArguments_literalAndCall gap quoteRegex someCall vs

/-! ## A payload that closes a call -/

/-- What the arguments of a call begin with, before a payload. -/
def lead : Wrapper → List Char
  | .binData => ['0', ',']
  | _ => []

theorem plain_of_mem_opening (w : Wrapper) : ∀ c ∈ w.constructorName ++ '(' :: lead w,
    Wrapper.isQuote c = false ∧ c ≠ '\\' := by
  cases w <;> decide

/-- A string that opens a call of a wrapper. -/
def opening (w : Wrapper) : Scalar :=
  ⟨Wrapper.quote (w.constructorName ++ '(' :: lead w),
    fun _ => ⟨_, value_quote (plain_of_mem_opening w)⟩⟩

section
variable {x : Shell.Call} {payload between gap : List Char} {q : Char}

/-- From such a string on, the arguments go up to a parenthesis after the next quote. -/
theorem arguments?_lead (hpayload : payload ∈ x.payload?) (hq : Wrapper.isQuote q = true)
    (hne : between ≠ []) (hbetween : ∀ c ∈ between, Wrapper.isQuote c = false)
    (hgap : Blanks gap) (rest : List Char) :
    x.wrapper.arguments? (lead x.wrapper ++ '"' :: (between ++ q :: (gap ++ ')' :: rest))) =
      some (Wrapper.quote between, rest) := by
  have hread := Wrapper.payload?_between (q := '"') .nil rfl hq hne hbetween
    (gap ++ ')' :: rest)
  have hmark : Wrapper.dropMark? ')' (gap ++ ')' :: rest) = some rest :=
    Wrapper.dropMark?_blanks_append hgap rfl
  rw [List.nil_append] at hread
  cases x with
  | objectId x | uuid x => simp [Call.wrapper, lead, Wrapper.arguments?, hread, hmark]
  | binData kind left right x =>
    have hrun : ∀ cs, Wrapper.run? isWordDigit (trimStart ('0' :: ',' :: cs)) =
        some (['0'], ',' :: cs) := by
      intro cs
      have hzero : isWordDigit '0' = true := by decide +kernel
      have hcomma : isWordDigit ',' = false := by decide +kernel
      simp [trimStart, isBlank, Wrapper.run?, hzero, hcomma]
    have hcomma : ∀ cs, Wrapper.dropMark? ',' (',' :: cs) = some cs := fun cs => rfl
    simp [Call.wrapper, lead, Wrapper.arguments?, hrun, hcomma, hread, hmark]
  | _ => cases hpayload

theorem match?_opening (hpayload : payload ∈ x.payload?) (hq : Wrapper.isQuote q = true)
    (hne : between ≠ []) (hbetween : ∀ c ∈ between, Wrapper.isQuote c = false)
    (hgap : Blanks gap) (rest : List Char) :
    x.wrapper.match? (some '"') (x.wrapper.constructorName ++ '(' ::
      (lead x.wrapper ++ '"' :: (between ++ q :: (gap ++ ')' :: rest)))) =
        some (Wrapper.quote between, rest) := by
  have hquote : (some '"').any isWord = false := by decide +kernel
  have hcall := Wrapper.match?_call x.wrapper x.wrapper hquote .nil .nil
    (lead x.wrapper ++ '"' :: (between ++ q :: (gap ++ ')' :: rest)))
  rw [if_pos rfl, arguments?_lead hpayload hq hne hbetween hgap rest] at hcall
  exact hcall

end

/-- What is being copied is copied whatever it holds. -/
theorem unwrapFrom_copying (w : Wrapper) (z : Zone) (before : Option Char) (t rest : List Char) :
    ∃ b, w.unwrapFrom z before 0 t.length (t ++ rest) = t ++ w.unwrapFrom (z.run t) b 0 0 rest := by
  induction t generalizing z before with
  | nil => exact ⟨before, rfl⟩
  | cons c t ih =>
    obtain ⟨b, htail⟩ := ih (z.next c) (some c)
    exact ⟨b, by simpa [Wrapper.unwrapFrom, Zone.run] using htail⟩

theorem isQuote_of_isInert {c : Char} (h : isInert c = true) : Wrapper.isQuote c = false := by
  cases hq : Wrapper.isQuote c with
  | false => rfl
  | true =>
    simp only [Wrapper.isQuote, Bool.or_eq_true, decide_eq_true_eq] at hq
    rcases hq with rfl | rfl <;> cases h

theorem exists_payload {x : Shell.Call} {payload : List Char} (h : payload ∈ x.payload?) :
    ∃ front q, x.inner = front ++ q :: (payload ++ [q]) ∧ (∀ c ∈ front, isInert c = true) ∧
      Wrapper.isQuote q = true ∧ ∀ c ∈ payload, Wrapper.isQuote c = false ∧ c ≠ '\\' := by
  cases x with
  | objectId x | uuid x =>
    cases h
    exact ⟨[], x.quote, rfl, by simp, x.isQuote, x.plain⟩
  | binData kind left right x =>
    cases h
    exact ⟨kind.text ++ left.text ++ ',' :: right.text, x.quote, by simp [Call.inner, Quoted.text],
      Wrapper.inert_of_pair kind left right, x.isQuote, x.plain⟩
  | _ => cases h

/-- Code of inert characters around an opening parenthesis. -/
theorem run_opened {front back : List Char} (last : Option Char)
    (hfront : ∀ c ∈ front, isInert c = true) (hback : ∀ c ∈ back, isInert c = true) :
    ∃ last', (Zone.code last).run (front ++ '(' :: back) = .code last' := by
  obtain ⟨last₁, hpass⟩ := Passes.of_isInert last hfront
  obtain ⟨last₂, hpass'⟩ := Passes.of_isInert (some '(') hback
  refine ⟨last₂, ?_⟩
  rw [Zone.run_append, hpass.run_eq, Zone.run, List.foldl_cons, Zone.next_code_opener rfl]
  exact hpass'.run_eq

theorem run_steady {z : Zone} {cs : List Char} (h : ∀ c ∈ cs, z.next c = z) : z.run cs = z := by
  induction cs with
  | nil => rfl
  | cons c cs ih =>
    rw [Zone.run, List.foldl_cons, h c (.head _)]
    exact ih fun d hd => h d (.tail _ hd)

/-- From the first quote of such a string into the payload of a call after it. -/
theorem run_opening {word inside content : List Char} {q : Char} (w : Wrapper)
    (hword : ∀ c ∈ word, isInert c = true) (hinside : ∀ c ∈ inside, isInert c = true)
    (hq : Wrapper.isQuote q = true)
    (hcontent : ∀ c ∈ content, Wrapper.isQuote c = false ∧ c ≠ '\\') :
    (Zone.literal '"' false).run ((w.constructorName ++ '(' :: lead w ++ ['"']) ++
      ((word ++ '(' :: inside) ++ ([q] ++ content))) = .literal q false := by
  have hstring : (Zone.literal '"' false).run (w.constructorName ++ '(' :: lead w ++ ['"']) =
      .code (some '"') :=
    (Passes.of_inside (Wrapper.inside_quoted rfl (plain_of_mem_opening w))).run_eq
  obtain ⟨last, hopened⟩ := run_opened (some '"') hword hinside
  have hquote : (Zone.code last).run [q] = .literal q false := Zone.next_code_quote hq
  have hsteady : (Zone.literal q false).run content = .literal q false := by
    refine run_steady fun c hc => Zone.next_string hq ?_ (hcontent c hc).2
    rintro rfl
    simp [(hcontent c hc).1] at hq
  rw [Zone.run_append, hstring, Zone.run_append, hopened, Zone.run_append, hquote, hsteady]

/-- Where a match that begins in a string ends in a literal, and nothing is replaced after that, the
    text is left as it is. -/
theorem unwrap_of_swallowed {w : Wrapper} {c q : Char} {copied rest literal : List Char}
    (hmatch : w.match? (some '"') (c :: (copied ++ rest)) = some (literal, rest))
    (hzone : (Zone.literal '"' false).run (c :: copied) = .literal q false)
    (hrest : ∀ b, Wrapper.Settled w True (.literal q false) b rest rest) :
    w.unwrap ('"' :: c :: (copied ++ rest)) = '"' :: c :: (copied ++ rest) := by
  obtain ⟨b, hcopying⟩ := unwrapFrom_copying w ((Zone.literal '"' false).next c) (some c) copied rest
  have hrun : ((Zone.literal '"' false).next c).run copied = .literal q false := hzone
  obtain ⟨d, hunwraps, -⟩ := hrest b
  rw [hrun, hunwraps.unwrapFrom_eq 0 (Nat.zero_le _)] at hcopying
  have hlength : (copied ++ rest).length - rest.length = copied.length := by simp
  have hquote : Zone.start.next '"' = .literal '"' false := rfl
  have hnone : w.match? none ('"' :: c :: (copied ++ rest)) = none := Wrapper.match?_of_not_letter rfl
  simp only [Wrapper.unwrap, Wrapper.unwrapFrom, hnone, hquote, hmatch, Zone.isCode,
    Bool.false_eq_true, if_false, hlength, hcopying]

/-- The name of a call and what is before its parenthesis. -/
theorem isInert_of_mem_name (s : Site) :
    ∀ c ∈ s.front ++ (s.call.wrapper.constructorName ++ s.beforeOpening.text), isInert c = true :=
  fun c hc => isInert_of_class (p := fun c => isAsciiLetter c || isBlank c) (by decide)
    (Wrapper.letter_or_blank_of_mem (Wrapper.front_site s) s.beforeOpening.blank c hc)

/-- The call is kept: the match that begins in the string before it ends in its payload. -/
theorem unwrap_swallowed_self (s : Site) (h : (Leaf.call s).Closes s.call.wrapper) :
    s.call.wrapper.unwrap (literalAndCall noGap (opening s.call.wrapper) s).typed =
      (literalAndCall noGap (opening s.call.wrapper) s).typed := by
  obtain ⟨-, payload, hpayload, hclose⟩ := h
  obtain ⟨front, q, hinner, hfront, hq, hplain⟩ := exists_payload hpayload
  obtain ⟨gap, hgap, hsplit⟩ := eq_blanks_append_trimStart payload
  obtain ⟨tail, htail⟩ := List.head?_eq_some_iff.1 hclose
  rw [htail] at hsplit
  have hopened : ∀ c ∈ gap ++ [')'], Wrapper.isQuote c = false ∧ c ≠ '\\' := fun c hc =>
    hplain c (by rw [hsplit, List.append_cons]; exact List.mem_append_left _ hc)
  have hclosed : ∀ c ∈ tail, Wrapper.isQuote c = false ∧ c ≠ '\\' := fun c hc =>
    hplain c (by rw [hsplit]; simp [hc])
  -- the text from the quote that ends the string to the quote of the payload, and after the payload
  let word := ',' :: ' ' :: (s.front ++ (s.call.wrapper.constructorName ++ s.beforeOpening.text))
  let inside := s.afterOpening.text ++ front
  let rest := (tail ++ [q]) ++ (s.beforeClosing.text ++ [')'])
  have hword : ∀ c ∈ word, isInert c = true := by
    simp only [word, List.mem_cons, forall_eq_or_imp]
    exact ⟨by decide, by decide, isInert_of_mem_name s⟩
  have hinside : ∀ c ∈ inside, isInert c = true := by
    simp only [inside, List.mem_append, or_imp, forall_and]
    exact ⟨fun c hc => isInert_of_isBlank (s.afterOpening.blank c hc), hfront⟩
  have hbetween : ∀ c ∈ word ++ '(' :: inside, Wrapper.isQuote c = false := by
    simp only [List.mem_append, List.mem_cons, or_imp, forall_and, forall_eq]
    exact ⟨fun c hc => isQuote_of_isInert (hword c hc), rfl,
      fun c hc => isQuote_of_isInert (hinside c hc)⟩
  have hmatch := match?_opening hpayload hq (by simp) hbetween hgap rest
  have hzone := run_opening s.call.wrapper hword hinside hq hopened
  have hrest : ∀ b, Wrapper.Settled s.call.wrapper True (.literal q false) b rest rest := fun b =>
    have hclosing := Wrapper.Ready.nil.closing.blanks s.beforeClosing.blank
    .inside (Wrapper.inside_quoted hq hclosed) (by simp [Wrapper.isFence, hq]) (.inl trivial)
      (hclosing.settled _ _)
  obtain ⟨c, name, hname⟩ :=
    List.exists_cons_of_ne_nil (Wrapper.constructorName_ne_nil s.call.wrapper)
  let copied := name ++ '(' :: (lead s.call.wrapper ++ '"' :: (word ++ '(' :: inside ++
    q :: (gap ++ [')'])))
  have htext : (literalAndCall noGap (opening s.call.wrapper) s).typed =
      '"' :: c :: (copied ++ rest) := by
    have hsite := Wrapper.site_append s []
    rw [List.append_nil] at hsite
    simp [typed_literalAndCall, opening, noGap, Wrapper.quote, hsite, hinner, hsplit, copied, word,
      inside, rest, hname]
  rw [htext]
  have hmatch' : s.call.wrapper.match? (some '"') (c :: (copied ++ rest)) =
      some (Wrapper.quote (word ++ '(' :: inside), rest) := by
    rw [hname] at hmatch
    simpa [copied] using hmatch
  have hzone' : (Zone.literal '"' false).run (c :: copied) = .literal q false := by
    rw [hname] at hzone
    simpa [copied] using hzone
  exact unwrap_of_swallowed hmatch' hzone' hrest

/-- No rule changes the list: those of other wrappers do not match, and that of the call is kept
    from it by the string. -/
theorem unwrap_swallowed (w : Wrapper) (s : Site) (h : (Leaf.call s).Closes s.call.wrapper) :
    w.unwrap (literalAndCall noGap (opening s.call.wrapper) s).typed =
      (literalAndCall noGap (opening s.call.wrapper) s).typed := by
  by_cases hw : s.call.wrapper = w
  · exact hw ▸ unwrap_swallowed_self s h
  · have hleaves : ∀ leaf ∈ (literalAndCall noGap (opening s.call.wrapper) s).leaves,
        leaf.Seen ∧ ¬ leaf.Closes w := by
      simp only [literalAndCall, Items.leaves, Tree.leaves, List.mem_append, List.mem_singleton,
        or_imp, forall_and, forall_eq]
      exact ⟨⟨fun hslash => by simp [opening, Wrapper.quote] at hslash, trivial⟩,
        fun hcloses => hcloses, fun hcloses => hw hcloses.1⟩
    have hunwrap := Wrapper.unwrap_items (fun leaf hleaf => (hleaves leaf hleaf).1)
      (.inl fun leaf hleaf => (hleaves leaf hleaf).2) fun _ => false
    rw [← Items.typed] at hunwrap
    rw [hunwrap]
    simp [literalAndCall, Items.typed, Items.text, Tree.text, Site.written, Wrapper.also, hw]

/-- A call whose payload closes a call may be swallowed by a string before it. -/
theorem parseShellArguments_swallowed (s : Site) (h : (Leaf.call s).Closes s.call.wrapper)
    (vs : List Value) :
    parseShellArguments now (literalAndCall noGap (opening s.call.wrapper) s).typed ≠ .ok vs := by
  rw [parseShellArguments, normalize_eq_self fun w => unwrap_swallowed w s h]
  exact parseArguments_literalAndCall noGap (opening s.call.wrapper) s vs

end ShellQuery
