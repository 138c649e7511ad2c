/-
  ShellQuery.Proofs.Chain

  How calls are closed. A chain is read as it is written, one link after the other
  (`calls_eq_ok_iff`). The delimiter that closes a call is one of three, and none of the readers
  looks at which: a query keeps its plan when its calls are closed by others (`closed_of_ofQuery`).
-/
import Mathlib.Data.List.Forall2
import ShellQuery.Proofs.Accepted

namespace ShellQuery

open Text

variable {now limit : Int64} {query cs inside after gap : List Char} {closer : Char}

/-! ## The closing delimiter -/

/-- A text whose delimiters match, so that one more closes the call around it. -/
def Enclosed (inside : List Char) : Prop :=
  close? (inside ++ [')']) = some ⟨inside, ')', []⟩

instance (inside : List Char) : Decidable (Enclosed inside) :=
  inferInstanceAs (Decidable (_ = _))

theorem isOpener_of_isCloser (h : isCloser closer = true) : isOpener closer = false := by
  simp only [isCloser, Bool.or_eq_true, decide_eq_true_eq] at h
  rcases h with (rfl | rfl) | rfl <;> rfl

theorem closeFrom?_replace {z : Zone} {depth : Nat} {closer' : Char}
    (h : closeFrom? z depth (inside ++ closer :: after) = some ⟨inside, closer, after⟩)
    (hcloser : isCloser closer' = true) (after' : List Char) :
    closeFrom? z depth (inside ++ closer' :: after') = some ⟨inside, closer', after'⟩ := by
  induction inside generalizing z depth with
  | nil =>
    -- what is cut off here is nothing, so the text ends in code, at the depth of the call
    have hhere : z.isCode = true ∧ depth = 0 := by
      simp only [List.nil_append, closeFrom?] at h
      split at h
      · obtain ⟨cut, -, hcut⟩ := Option.map_eq_some_iff.1 h
        cases hcut
      · split at h
        · rename_i hc
          cases depth with
          | zero => exact ⟨(Bool.and_eq_true_iff.1 hc).1, rfl⟩
          | succ depth =>
            obtain ⟨cut, -, hcut⟩ := Option.map_eq_some_iff.1 h
            cases hcut
        · obtain ⟨cut, -, hcut⟩ := Option.map_eq_some_iff.1 h
          cases hcut
    obtain ⟨hcode, rfl⟩ := hhere
    simp [closeFrom?, hcode, hcloser, isOpener_of_isCloser hcloser]
  | cons c inside ih =>
    have pushed {y : Zone} {n : Nat}
        (h : (closeFrom? y n (inside ++ closer :: after)).map (Closed.push c) =
          some ⟨c :: inside, closer, after⟩) :
        (closeFrom? y n (inside ++ closer' :: after')).map (Closed.push c) =
          some ⟨c :: inside, closer', after'⟩ := by
      obtain ⟨⟨inside', d, rest⟩, hcut, heq⟩ := Option.map_eq_some_iff.1 h
      cases heq
      rw [ih hcut]
      rfl
    simp only [List.cons_append, closeFrom?] at h ⊢
    split at h
    · rename_i hopen
      rw [if_pos hopen]
      exact pushed h
    · rename_i hopen
      rw [if_neg hopen]
      split at h
      · rename_i hclose
        rw [if_pos hclose]
        cases depth with
        | zero => cases h
        | succ depth => exact pushed h
      · rename_i hclose
        rw [if_neg hclose]
        exact pushed h

/-- A call is closed by the first closer that nothing in front of it matches, whichever it is. -/
theorem close?_eq_some_iff {cut : Closed} : close? cs = some cut ↔
    Enclosed cut.inside ∧ isCloser cut.closer = true ∧ cs = cut.inside ++ cut.closer :: cut.after := by
  constructor
  · intro h
    have hcloser := isCloser_of_closeFrom? h
    have htext := eq_of_closeFrom? h
    rw [htext] at h
    exact ⟨closeFrom?_replace h (by decide) [], hcloser, htext⟩
  · rintro ⟨hinside, hcloser, rfl⟩
    exact closeFrom?_replace hinside hcloser cut.after

/-! ## Links -/

/-- Characters that are skipped around the dots and parentheses of a chain. -/
def NarrowBlanks (cs : List Char) : Prop :=
  ∀ c ∈ cs, isAsciiBlank c = true

theorem skipAsciiBlanks_append (h : NarrowBlanks gap) (cs : List Char) :
    skipAsciiBlanks (gap ++ cs) = skipAsciiBlanks cs :=
  List.dropWhile_append_of_pos h

theorem eq_append_skipAsciiBlanks (cs : List Char) :
    ∃ gap, NarrowBlanks gap ∧ cs = gap ++ skipAsciiBlanks cs :=
  ⟨cs.takeWhile isAsciiBlank, fun _ hc => List.mem_takeWhile_imp hc,
    List.takeWhile_append_dropWhile.symm⟩

namespace Chain

/-- A chained call as it is written. -/
structure Link where
  beforeDot : List Char
  afterDot : List Char
  method : List Char
  afterMethod : List Char
  arguments : List Char
  closer : Char

/-- The text of a link. -/
def Link.text (l : Link) : List Char :=
  l.beforeDot ++ '.' :: (l.afterDot ++ (l.method ++ (l.afterMethod ++
    '(' :: (l.arguments ++ [l.closer]))))

/-- A link that is read as a call. -/
structure Link.Reads (now : Int64) (l : Link) (call : ChainedCall) : Prop where
  beforeDot : NarrowBlanks l.beforeDot
  afterDot : NarrowBlanks l.afterDot
  named : l.method ≠ []
  method : ∀ c ∈ l.method, isStepChar c = true
  afterMethod : NarrowBlanks l.afterMethod
  enclosed : Enclosed l.arguments
  closer : isCloser l.closer = true
  name : call.method = .ofList l.method
  arguments : parseShellArguments now l.arguments = .ok call.arguments

/-! ## Reading a chain -/

theorem isEnd_append (as bs : List Char) : isEnd (as ++ bs) = (isEnd as && isEnd bs) :=
  List.all_append

theorem isEnd_cons_dot (cs : List Char) : isEnd ('.' :: cs) = false := rfl

theorem isEnd_skipAsciiBlanks (cs : List Char) : isEnd (skipAsciiBlanks cs) = isEnd cs := by
  obtain ⟨gap, hgap, hcs⟩ := eq_append_skipAsciiBlanks cs
  have hend : isEnd gap = true := by
    refine List.all_eq_true.2 fun c hc => ?_
    simp [isBlank_of_isAsciiBlank (hgap c hc)]
  conv_rhs => rw [hcs, isEnd_append, hend, Bool.true_and]

theorem Link.isEnd_text (l : Link) : isEnd l.text = false := by
  rw [Link.text, isEnd_append, isEnd_cons_dot, Bool.and_false]

theorem Link.length_text (l : Link) : 0 < l.text.length := by
  simp [Link.text]

theorem skipAsciiBlanks_cons {c : Char} (h : isAsciiBlank c = false) (cs : List Char) :
    skipAsciiBlanks (c :: cs) = c :: cs := by
  simp [skipAsciiBlanks, h]

theorem isStepChar_of_isAsciiBlank {c : Char} (h : isAsciiBlank c = true) :
    isStepChar c = false := by
  simpa using of_isBlank (p := fun c => !isStepChar c) (by decide +kernel) (isBlank_of_isAsciiBlank h)

/-- A name ends where blanks or a parenthesis follow. -/
theorem step_ends (hgap : NarrowBlanks gap) (rest : List Char) :
    ∀ c ∈ (gap ++ '(' :: rest).head?, isStepChar c = false := by
  cases gap with
  | nil => simp [isStepChar, isAsciiAlphanumeric, isAsciiLetter, isAsciiDigit]
  | cons b gap => simpa using isStepChar_of_isAsciiBlank (hgap b (.head _))

/-- The reader takes a link and goes on with what is left after it. -/
theorem callsFrom_link {whole : List Char} {fuel : Nat} {l : Link} {call : ChainedCall}
    (h : l.Reads now call) (rest : List Char) :
    callsFrom now whole (fuel + 1) (skipAsciiBlanks (l.text ++ rest)) =
      (callsFrom now whole fuel (skipAsciiBlanks rest)).map (call :: ·) := by
  obtain ⟨beforeDot, afterDot, method, afterMethod, arguments, closer⟩ := l
  obtain ⟨name, values⟩ := call
  obtain ⟨hbeforeDot, hafterDot, hnamed, hmethod, hafterMethod, henclosed, hcloser, rfl, hvalues⟩ := h
  simp only [Link.text, List.append_assoc, List.cons_append, List.nil_append] at *
  rw [skipAsciiBlanks_append hbeforeDot, skipAsciiBlanks_cons rfl]
  obtain ⟨c, cs, rfl⟩ := List.exists_cons_of_ne_nil hnamed
  have hc : isAsciiBlank c = false := by
    cases hblank : isAsciiBlank c with
    | false => rfl
    | true => simpa [isStepChar_of_isAsciiBlank hblank] using hmethod c (.head _)
  have hskip : skipAsciiBlanks (afterDot ++ (c :: cs ++ (afterMethod ++
      '(' :: (arguments ++ closer :: rest)))) =
      c :: cs ++ (afterMethod ++ '(' :: (arguments ++ closer :: rest)) := by
    rw [skipAsciiBlanks_append hafterDot, List.cons_append, skipAsciiBlanks_cons hc]
  obtain ⟨htake, hdrop⟩ := takeWhile_append (c :: cs)
    (step_ends hafterMethod (arguments ++ closer :: rest))
  have htaken : (c :: cs).takeWhile isStepChar = c :: cs := List.takeWhile_eq_self_iff.2 hmethod
  have hdropped : (c :: cs).dropWhile isStepChar = [] := List.dropWhile_eq_nil_iff.2 hmethod
  have hafter : skipAsciiBlanks (afterMethod ++ '(' :: (arguments ++ closer :: rest)) =
      '(' :: (arguments ++ closer :: rest) := by
    rw [skipAsciiBlanks_append hafterMethod, skipAsciiBlanks_cons rfl]
  have hclose : close? (arguments ++ closer :: rest) = some ⟨arguments, closer, rest⟩ :=
    close?_eq_some_iff.2 ⟨henclosed, hcloser, rfl⟩
  simp only [callsFrom, isEnd_cons_dot, hskip, htake, hdrop, htaken, hdropped, List.nil_append,
    hafter, hclose, hvalues]
  simp only [Bool.false_eq_true, if_false, ne_eq, not_true_eq_false, reduceCtorEq]
  cases callsFrom now whole fuel (skipAsciiBlanks rest) <;> rfl

/-- What the reader goes on from is a link. -/
theorem exists_link_of_callsFrom {whole : List Char} {fuel : Nat} {calls : List ChainedCall}
    (h : callsFrom now whole (fuel + 1) (skipAsciiBlanks cs) = .ok calls) (hend : isEnd cs = false) :
    ∃ l call rest more, Link.Reads now l call ∧ cs = l.text ++ rest ∧
      callsFrom now whole fuel (skipAsciiBlanks rest) = .ok more ∧ calls = call :: more := by
  -- blanks are skipped in front of the dot, the method and the parenthesis: the link keeps them
  obtain ⟨beforeDot, hbeforeDot, hcs⟩ := eq_append_skipAsciiBlanks cs
  rw [← isEnd_skipAsciiBlanks] at hend
  simp only [callsFrom, hend, Bool.false_eq_true, if_false] at h
  split at h
  · rename_i hnil
    rw [hnil] at hend
    cases hend
  · rename_i c cs₁ hskip
    split at h
    · cases h
    · rename_i hdot
      obtain rfl := not_not.1 hdot
      obtain ⟨afterDot, hafterDot, hcs₁⟩ := eq_append_skipAsciiBlanks cs₁
      generalize skipAsciiBlanks cs₁ = cs₂ at h hcs₁
      split at h
      · cases h
      · rename_i hnamed
        obtain ⟨afterMethod, hafterMethod, hcs₃⟩ :=
          eq_append_skipAsciiBlanks (cs₂.dropWhile isStepChar)
        split at h
        · cases h
        · rename_i d cs₄ hafter
          split at h
          · cases h
          · rename_i hopen
            obtain rfl := not_not.1 hopen
            split at h
            · cases h
            · rename_i cut hcut
              obtain ⟨henclosed, hcloser, hcs₄⟩ := close?_eq_some_iff.1 hcut
              obtain ⟨values, hvalues, h⟩ := bind_eq_ok.1 h
              obtain ⟨more, hmore, h⟩ := bind_eq_ok.1 h
              cases h
              refine ⟨⟨beforeDot, afterDot, cs₂.takeWhile isStepChar, afterMethod, cut.inside,
                cut.closer⟩, _, cut.after, more, ⟨hbeforeDot, hafterDot, hnamed,
                fun c hc => List.mem_takeWhile_imp hc, hafterMethod, henclosed, hcloser, rfl,
                hvalues⟩, ?_, hmore, rfl⟩
              -- the parts, put together again, are the text that was read
              have hcs₂ := List.takeWhile_append_dropWhile (p := isStepChar) (l := cs₂)
              rw [hcs₃, hafter, hcs₄] at hcs₂
              conv_lhs => rw [hcs, hskip, hcs₁, ← hcs₂]
              simp only [Link.text, List.append_assoc, List.cons_append, List.nil_append]

/-- With enough fuel, calls are read as they are written, whatever the text that errors refer to. -/
theorem callsFrom_eq_ok_iff (whole : List Char) {fuel : Nat} {calls : List ChainedCall}
    (hfuel : cs.length < fuel) :
    callsFrom now whole fuel (skipAsciiBlanks cs) = .ok calls ↔
      ∃ links ending, List.Forall₂ (Link.Reads now) links calls ∧ isEnd ending = true ∧
        cs = links.flatMap Link.text ++ ending := by
  induction fuel generalizing cs calls with
  | zero => omega
  | succ fuel ih =>
    cases hend : isEnd cs with
    | true =>
      have hcalls : callsFrom now whole (fuel + 1) (skipAsciiBlanks cs) = .ok [] := by
        simp [callsFrom, isEnd_skipAsciiBlanks, hend]
      rw [hcalls]
      constructor
      · rintro ⟨⟩
        exact ⟨[], cs, .nil, hend, rfl⟩
      · rintro ⟨links, ending, hlinks, -, rfl⟩
        cases hlinks with
        | nil => rfl
        | cons hlink =>
          simp [isEnd_append, Link.isEnd_text] at hend
    | false =>
      constructor
      · intro h
        obtain ⟨l, call, rest, more, hlink, rfl, hmore, rfl⟩ := exists_link_of_callsFrom h hend
        have hless := l.length_text
        rw [List.length_append] at hfuel
        obtain ⟨links, ending, hlinks, hending, rfl⟩ := (ih (by omega)).1 hmore
        exact ⟨l :: links, ending, .cons hlink hlinks, hending, by simp⟩
      · rintro ⟨links, ending, hlinks, hending, rfl⟩
        cases hlinks with
        | nil => simp [hending] at hend
        | @cons l _ links _ hlink hlinks =>
          have hless := l.length_text
          simp only [List.flatMap_cons, List.length_append] at hfuel
          have hshort : (links.flatMap Link.text ++ ending).length < fuel := by
            rw [List.length_append]
            omega
          rw [List.flatMap_cons, List.append_assoc, callsFrom_link hlink,
            (ih hshort).2 ⟨_, _, hlinks, hending, rfl⟩]
          rfl

/-- The calls chained to a primary call are read as they are written. -/
theorem calls_eq_ok_iff {calls : List ChainedCall} : Chain.calls now cs = .ok calls ↔
    ∃ links ending, List.Forall₂ (Link.Reads now) links calls ∧ isEnd ending = true ∧
      cs = links.flatMap Link.text ++ ending :=
  callsFrom_eq_ok_iff cs (Nat.lt_succ_self _)

/-- The same link, closed by a delimiter of any kind. -/
def Link.Reclosed (l l' : Link) : Prop :=
  ∃ closer, isCloser closer = true ∧ l' = { l with closer }

theorem Link.Reads.reclosed {l l' : Link} {call : ChainedCall} (h : l.Reads now call)
    (hl' : l.Reclosed l') : l'.Reads now call := by
  obtain ⟨closer, hcloser, rfl⟩ := hl'
  exact { h with closer := hcloser }

theorem forall₂_reclosed {links links' : List Link} {calls : List ChainedCall}
    (h : List.Forall₂ (Link.Reads now) links calls) (hlinks' : List.Forall₂ Link.Reclosed links links') :
    List.Forall₂ (Link.Reads now) links' calls := by
  induction h generalizing links' with
  | nil =>
    cases hlinks'
    exact .nil
  | cons hlink _ ih =>
    cases hlinks' with
    | cons hl' hlinks' => exact .cons (hlink.reclosed hl') (ih hlinks')

end Chain

/-! ## Accepted queries -/

open Chain

/-- A call whose remainder is read as that of another is planned like it. -/
theorem Plan.ofCall_of_remainder {call : Call} {plan : Plan} {remainder : String}
    (h : ofCall now limit call = .ok plan)
    (hpath : call.shape.isAdmin = true → remainder = call.remainder)
    (hchain : call.shape.isAdmin = false →
      Chain.calls now remainder.toList = Chain.calls now call.remainder.toList) :
    ofCall now limit { call with remainder } = .ok { plan with call := { call with remainder } } := by
  refine ofCall_eq_ok_iff.2 ?_
  cases ofCall_eq_ok_iff.1 h with
  | command hkind harguments hadmin hread hd =>
    exact .command hkind harguments hadmin ((hpath hadmin).symm ▸ hread) hd
  | operation hkind harguments hadmin hcalls hop =>
    exact .operation hkind harguments hadmin ((hchain hadmin).trans hcalls) hop

/-- A query that is accepted, as it is written: its primary call, the links chained to it, and the
    end of the statement. What comes after a call on the database is a path, which has no links. -/
structure Plan.Written (now : Int64) (query : List Char) (plan : Plan) (front : List Char)
    (closer : Char) (tail : List Char) (links : List Link) (ending : List Char) : Prop where
  cut : Call.Cut query plan.call front closer tail
  closer : isCloser closer = true
  remainder : plan.call.remainder.toList = links.flatMap Link.text ++ ending
  path : plan.call.shape.isAdmin = true → links = []
  chain : plan.call.shape.isAdmin = false → isEnd ending = true ∧
    ∃ calls, List.Forall₂ (Link.Reads now) links calls ∧ plan.modifiers = Chain.modifiers calls

theorem Plan.exists_written {plan : Plan} (h : ofQuery now limit query = .ok plan) :
    ∃ front closer tail links ending, plan.Written now query front closer tail links ending := by
  obtain ⟨call, hcall, hplan⟩ := bind_eq_ok.1 h
  obtain ⟨front, closer, tail, hcut⟩ := Call.ofQuery_eq_ok_iff.1 hcall
  have hcloser : isCloser closer = true := (close?_eq_some_iff.1 hcut.closed).2.1
  cases ofCall_eq_ok_iff.1 hplan with
  | command _ _ hadmin =>
    exact ⟨front, closer, tail, [], call.remainder.toList, hcut, hcloser, rfl, fun _ => rfl,
      fun h => absurd (h.symm.trans hadmin) (by decide)⟩
  | operation _ _ hadmin hcalls =>
    obtain ⟨links, ending, hlinks, hending, hremainder⟩ := calls_eq_ok_iff.1 hcalls
    exact ⟨front, closer, tail, links, ending, hcut, hcloser, hremainder,
      fun h => absurd (h.symm.trans hadmin) (by decide), fun _ => ⟨hending, _, hlinks, rfl⟩⟩

/-- An accepted query is closed: its primary call by a delimiter, with the remainder after it, and
    each chained call by one. But the delimiter need not be a parenthesis, neither at the primary call
    nor at a link: the same query with others in their places is accepted too, and planned alike. -/
theorem Plan.closed_of_ofQuery {plan : Plan} (h : ofQuery now limit query = .ok plan) :
    (∃ front closer tail links ending, plan.Written now query front closer tail links ending) ∧
      ∀ {front : List Char} {closer : Char} {tail : List Char} {links : List Link}
        {ending : List Char}, plan.Written now query front closer tail links ending →
        ∀ {query' : List Char} {closer' : Char} {tail' : List Char} {links' : List Link},
          isCloser closer' = true → List.Forall₂ Link.Reclosed links links' →
          cleanQuery query' = front ++ '(' :: (plan.call.arguments.toList ++ closer' :: tail') →
          trim tail' = links'.flatMap Link.text ++ ending →
            ofQuery now limit query' =
              .ok { plan with call := { plan.call with remainder := .ofList (trim tail') } } := by
  refine ⟨exists_written h, ?_⟩
  intro front closer tail links ending hwritten query' closer' tail' links' hcloser' hlinks' htext htail'
  obtain ⟨call, -, hplan⟩ := bind_eq_ok.1 h
  obtain ⟨rfl, -, -⟩ := operation_of_ofCall hplan
  have hremainder := hwritten.remainder
  have henclosed : Enclosed plan.call.arguments.toList :=
    (close?_eq_some_iff.1 hwritten.cut.closed).1
  have hcall' : Call.ofQuery query' =
      .ok { plan.call with remainder := .ofList (trim tail') } :=
    Call.ofQuery_eq_ok_iff.2 ⟨front, closer', tail', {
      text := htext
      opening := hwritten.cut.opening
      named := hwritten.cut.named
      closed := close?_eq_some_iff.2 ⟨henclosed, hcloser', rfl⟩
      remainder := String.toList_ofList }⟩
  refine bind_eq_ok.2 ⟨_, hcall', ofCall_of_remainder hplan (fun hadmin => ?_) fun hadmin => ?_⟩
  · -- a path has no links, so it is the same text
    obtain rfl := hwritten.path hadmin
    cases hlinks'
    rw [htail', ← hremainder, String.ofList_toList]
  · obtain ⟨hending, calls, hlinks, -⟩ := hwritten.chain hadmin
    rw [String.toList_ofList, htail', hremainder,
      calls_eq_ok_iff.2 ⟨links', ending, forall₂_reclosed hlinks hlinks', hending, rfl⟩,
      calls_eq_ok_iff.2 ⟨links, ending, hlinks, hending, rfl⟩]

/-- A query whose call is closed by a bracket, and the call chained to it by a brace. -/
def bracketed : String :=
  "db.c.find(\x7b\x7d].limit(2\x7d"

/-- The chained call as it is written. -/
def bracketedLink : Link :=
  ⟨[], [], "limit".toList, [], ['2'], '\x7d'⟩

/-- What the query is planned as. -/
def Plan.ofBracketed : Plan where
  call := ⟨.collection, some "c", "find", "\x7b\x7d", ".limit(2\x7d"⟩
  operation := .onCollection "c" (.find ⟨[], none, none, none, 2⟩)
  modifiers := [⟨.limit, .int32 2⟩]
  postProcess := none
  defaultLimitApplied := false

theorem bracketedLink_reads : bracketedLink.Reads 0 ⟨"limit", [.int32 2]⟩ where
  beforeDot := by simp [NarrowBlanks, bracketedLink]
  afterDot := by simp [NarrowBlanks, bracketedLink]
  named := by decide
  method := by decide
  afterMethod := by simp [NarrowBlanks, bracketedLink]
  enclosed := by decide
  closer := rfl
  name := rfl
  arguments := by cbv

theorem ofQuery_bracketed : Plan.ofQuery 0 100 bracketed.toList = .ok Plan.ofBracketed := by
  have hcall : Call.ofQuery bracketed.toList = .ok Plan.ofBracketed.call := by rfl
  have harguments : parseShellArguments 0 "\x7b\x7d".toList = .ok [.document []] := by cbv
  have hchain : Chain.calls 0 ".limit(2\x7d".toList = .ok [⟨"limit", [.int32 2]⟩] :=
    calls_eq_ok_iff.2 ⟨[bracketedLink], [], .cons bracketedLink_reads .nil, rfl, rfl⟩
  have hkind : OperationKind.ofCall? .collection "find" = some .find := by decide
  refine bind_eq_ok.2 ⟨_, hcall, ?_⟩
  simp only [Plan.ofBracketed, Plan.ofCall, hkind, harguments, hchain]
  rfl

theorem Plan.written_bracketed : ofBracketed.Written 0 bracketed.toList "db.c.find".toList ']'
    ".limit(2\x7d".toList [bracketedLink] [] := by
  have hdot : Call.Dot ['.'] := .blanks .nil .nil
  have hname : Call.DottedName ['c'] := .part (by decide +kernel) (by simp)
  have hmethod : Call.MethodName "find".toList :=
    show Call.MethodName ('f' :: "ind".toList) from .name (by decide +kernel) (by decide +kernel)
  refine {
    cut := ⟨by decide +kernel, .collection hdot hname (.called hdot hmethod .nil), by decide,
      by decide, by decide +kernel⟩
    closer := rfl
    remainder := rfl
    path := nofun
    chain := fun _ => ⟨rfl, _, .cons bracketedLink_reads .nil, rfl⟩ }

/-- The query with parentheses in place of the bracket and the brace is planned alike. -/
theorem Plan.closed_of_ofQuery_bracketed :
    ofQuery 0 100 bracketed.toList = .ok ofBracketed ∧
      ofQuery 0 100 "db.c.find(\x7b\x7d).limit(2)".toList =
        .ok { ofBracketed with call := { ofBracketed.call with remainder := ".limit(2)" } } := by
  have hlinks : List.Forall₂ Link.Reclosed [bracketedLink] [{ bracketedLink with closer := ')' }] :=
    .cons ⟨')', rfl, rfl⟩ .nil
  have htext : cleanQuery "db.c.find(\x7b\x7d).limit(2)".toList = "db.c.find".toList ++
      '(' :: (ofBracketed.call.arguments.toList ++ ')' :: ".limit(2)".toList) := by
    decide +kernel
  have htail : trim ".limit(2)".toList = ".limit(2)".toList := by decide +kernel
  have hplan := (closed_of_ofQuery ofQuery_bracketed).2 written_bracketed rfl hlinks htext htail
  rw [htail, String.ofList_toList] at hplan
  exact ⟨ofQuery_bracketed, hplan⟩

end ShellQuery
