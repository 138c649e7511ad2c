/-
  ShellQuery.Proofs.Insertion

  Strings from end to end. A query that inserts a document with one string goes through all that
  reads query texts: comment lines are dropped, the call is cut out, wrapper calls are replaced, and
  the arguments are parsed. The string arrives as it was, unless it has lines: then those after the
  first are lines of the query too, and are lost where they look like comments, and so are the
  carriage returns at their ends.
-/
import ShellQuery.Plan
import ShellQuery.Proofs.Dotted
import ShellQuery.Proofs.Opening
import ShellQuery.Proofs.Grammar.Acceptance
import ShellQuery.Proofs.Lines
import ShellQuery.Proofs.Shell.Refusal

namespace ShellQuery

open Text Argument Shell

variable {collection key s line front : List Char} {c : Char}

/-! ## Strings with backslashes -/

/-- A character between double quotes. -/
def escapeChar (c : Char) : List Char :=
  if c = '"' ∨ c = '\\' then ['\\', c] else [c]

/-- A text between double quotes: a backslash stands before each double quote and backslash. -/
def escaped (s : List Char) : List Char :=
  s.flatMap escapeChar

@[simp] theorem escaped_nil : escaped [] = [] := rfl

@[simp] theorem escaped_cons (c : Char) (s : List Char) :
    escaped (c :: s) = escapeChar c ++ escaped s := rfl

@[simp] theorem escaped_append (s t : List Char) : escaped (s ++ t) = escaped s ++ escaped t :=
  List.flatMap_append

theorem escapeChar_of_ne (hquote : c ≠ '"') (hbackslash : c ≠ '\\') : escapeChar c = [c] := by
  simp [escapeChar, hquote, hbackslash]

/-- A string with backslashes denotes what it was made of. -/
theorem stringBody_escaped (s : List Char) : Grammar.StringBody '"' (escaped s) s := by
  induction s with
  | nil => exact .nil
  | cons c s ih =>
    rw [escaped_cons, escapeChar]
    split
    · rename_i hc
      have hescape : Grammar.Escape c c := .itself (by rcases hc with rfl | rfl <;> decide)
      exact .escape hescape ih
    · rename_i hc
      obtain ⟨hquote, hbackslash⟩ := not_or.1 hc
      exact .plain hquote hbackslash ih

theorem stringLiteral_escaped (s : List Char) :
    Grammar.StringLiteral (Wrapper.quote (escaped s)) (.ofList s) :=
  .quoted (.inl rfl) (stringBody_escaped s)

/-! ## Lines of such a string -/

theorem not_mem_escaped (h : '\n' ∉ line) : '\n' ∉ escaped line := by
  simp only [escaped, List.mem_flatMap, not_exists, not_and]
  intro c hc hmem
  have hne : '\n' ≠ c := fun heq => h (heq ▸ hc)
  rw [escapeChar] at hmem
  split at hmem <;> simp [hne] at hmem

theorem getLast?_escaped (line : List Char) : (escaped line).getLast? = line.getLast? := by
  rcases List.eq_nil_or_concat line with rfl | ⟨line, c, rfl⟩
  · rfl
  · have hlast : (escapeChar c).getLast? = some c := by
      rw [escapeChar]
      split <;> rfl
    simp [hlast]

theorem withoutReturn_escaped (line : List Char) :
    withoutReturn (escaped line) = escaped (withoutReturn line) := by
  rw [withoutReturn, withoutReturn, getLast?_escaped]
  split
  · rename_i hlast
    obtain ⟨front, rfl⟩ := List.getLast?_eq_some_iff.1 hlast
    have hreturn : escaped ['\r'] = ['\r'] := rfl
    rw [escaped_append, hreturn, List.dropLast_concat, List.dropLast_concat]
  · rfl

theorem head?_escaped (line : List Char) :
    (escaped line).head? = some '/' ↔ line.head? = some '/' := by
  cases line with
  | nil => rfl
  | cons c line =>
    rw [escaped_cons, escapeChar]
    split
    · rename_i hc
      rcases hc with rfl | rfl <;> simp
    · rfl

theorem isCommentLine_escaped (line : List Char) :
    isCommentLine (escaped line) = isCommentLine line := by
  induction line with
  | nil => rfl
  | cons c line ih =>
    cases hblank : isBlank c with
    | true =>
      rw [escaped_cons, escapeChar_of_ne (ne_of_isBlank hblank rfl) (ne_of_isBlank hblank rfl)]
      simp [isCommentLine_blank hblank, ih]
    | false =>
      rw [escaped_cons, escapeChar]
      split
      · rename_i hc
        have hslash : c ≠ '/' := by rcases hc with rfl | rfl <;> decide
        have hbackslash : isCommentLine ('\\' :: c :: escaped line) = false := by
          rw [isCommentLine_cons rfl]
          simp
        rw [isCommentLine_cons hblank]
        simpa [hslash] using hbackslash
      · rw [List.cons_append, List.nil_append, isCommentLine_cons hblank, isCommentLine_cons hblank]
        simp only [head?_escaped]

/-! ## What is left of such a string -/

/-- What closes the string, the document and the call. -/
def closing : List Char :=
  ['"', '}', ')']

theorem isCommentLine_closing (line : List Char) :
    isCommentLine (escaped line ++ closing) = isCommentLine line := by
  rw [closing, isCommentLine_append (by decide) rfl, isCommentLine_escaped]

theorem not_mem_closing : '\n' ∉ closing := by
  decide

theorem escaped_break (line rest : List Char) :
    escaped (line ++ '\n' :: rest) ++ closing =
      escaped line ++ '\n' :: (escaped rest ++ closing) := by
  rw [escaped_append, escaped_cons, escapeChar_of_ne (by decide) (by decide)]
  simp

/-- Of the lines of a string some are left; if the last is not, nothing closes the string. -/
theorem exists_kept_escaped (s : List Char) :
    ∃ t, kept (escaped s ++ closing) = '\n' :: (escaped t ++ closing) ∨
      kept (escaped s ++ closing) = escaped t := by
  induction s using line_induction with
  | last line hline =>
    have hbreak : '\n' ∉ escaped line ++ closing := by
      simpa [not_mem_closing] using not_mem_escaped hline
    rw [kept_last (by simp [closing]) hbreak, isCommentLine_closing]
    split
    -- the last line goes, and with it what closes the string
    · exact ⟨[], .inr rfl⟩
    · exact ⟨line, .inl rfl⟩
  | more line rest hline ih =>
    obtain ⟨t, ht⟩ := ih
    rw [escaped_break, kept_break (not_mem_escaped hline), isCommentLine_escaped,
      withoutReturn_escaped]
    have hbreak : ∀ t, escaped ('\n' :: t) = '\n' :: escaped t := fun _ => rfl
    split
    · exact ⟨t, ht⟩
    · rcases ht with ht | ht
      · refine ⟨withoutReturn line ++ '\n' :: t, .inl ?_⟩
        simp [ht, hbreak]
      · refine ⟨'\n' :: (withoutReturn line ++ t), .inr ?_⟩
        simp [ht, hbreak]

/-! ## Conditions on the lines -/

/-- Carriage returns at the ends of lines of a query are those of the string. -/
theorem crlf_escaped (hfront : '\n' ∉ front) (hlast : front.getLast? ≠ some '\r') (s : List Char) :
    ['\r', '\n'] <:+: front ++ (escaped s ++ closing) ↔ ['\r', '\n'] <:+: s := by
  induction s using line_induction generalizing front with
  | last line hline =>
    have hbreak : '\n' ∉ front ++ (escaped line ++ closing) := by
      simpa [not_mem_closing, hfront] using not_mem_escaped hline
    exact iff_of_false (crlf_last hbreak) (crlf_last hline)
  | more line rest hline ih =>
    have hbreak : '\n' ∉ front ++ escaped line := by
      simpa [hfront] using not_mem_escaped hline
    have hend : (front ++ escaped line).getLast? = some '\r' ↔ line.getLast? = some '\r' := by
      rw [List.getLast?_append, getLast?_escaped]
      cases line.getLast? <;> simp [hlast]
    have hrest := ih (List.not_mem_nil) (nofun : [].getLast? ≠ some '\r')
    rw [List.nil_append] at hrest
    rw [escaped_break, ← List.append_assoc, crlf_break hbreak, crlf_break hline, hend, hrest]

/-- From the second line on, the comments among the lines of a query are those of the string. -/
theorem comments_escaped (s : List Char) :
    (∀ line ∈ (escaped s ++ closing).splitOn '\n', isCommentLine line = false) ↔
      ∀ line ∈ s.splitOn '\n', isCommentLine line = false := by
  induction s using line_induction with
  | last line hline =>
    have hbreak : '\n' ∉ escaped line ++ closing := by
      simpa [not_mem_closing] using not_mem_escaped hline
    rw [List.splitOn_eq_singleton hbreak, List.splitOn_eq_singleton hline]
    simp [isCommentLine_closing]
  | more line rest hline ih =>
    rw [escaped_break, List.splitOn_append_cons_self_of_not_mem (not_mem_escaped hline),
      List.splitOn_append_cons_self_of_not_mem hline, List.forall_mem_cons, List.forall_mem_cons,
      isCommentLine_escaped, ih]

theorem comments_front (h : Leads front) (s : List Char) :
    (∀ line ∈ (front ++ (escaped s ++ closing)).splitOn '\n', isCommentLine line = false) ↔
      ∀ line ∈ (s.splitOn '\n').tail, isCommentLine line = false := by
  induction s using line_induction with
  | last line hline =>
    have hbreak : '\n' ∉ front ++ (escaped line ++ closing) := by
      simpa [not_mem_closing, h.line] using not_mem_escaped hline
    rw [List.splitOn_eq_singleton hbreak, List.splitOn_eq_singleton hline]
    simp [h.isCommentLine]
  -- the first line of the query begins with the call, the others are lines of the string
  | more line rest hline _ =>
    have hbreak : '\n' ∉ front ++ escaped line := by
      simpa [h.line] using not_mem_escaped hline
    rw [escaped_break, ← List.append_assoc, List.splitOn_append_cons_self_of_not_mem hbreak,
      List.splitOn_append_cons_self_of_not_mem hline, List.forall_mem_cons, comments_escaped]
    simp [h.isCommentLine]

/-- A query with a string in it is left as it is, if and only if no line of the string has a carriage
    return at its end and none after the first is a comment. -/
theorem kept_front_eq_iff (h : Leads front) (s : List Char) :
    kept (front ++ (escaped s ++ closing)) = '\n' :: (front ++ (escaped s ++ closing)) ↔
      ¬ ['\r', '\n'] <:+: s ∧ ∀ line ∈ (s.splitOn '\n').tail, isCommentLine line = false := by
  rw [kept_eq_iff (by simp [closing]) (by simp [closing]), crlf_escaped h.line h.getLast?,
    comments_front h]

theorem exists_kept_front (h : Leads front) (s : List Char) :
    ∃ t, kept (front ++ (escaped s ++ closing)) = '\n' :: (front ++ (escaped t ++ closing)) ∨
      kept (front ++ (escaped s ++ closing)) = '\n' :: (front ++ escaped t) := by
  induction s using line_induction with
  | last line hline =>
    have hbreak : '\n' ∉ front ++ (escaped line ++ closing) := by
      simpa [not_mem_closing, h.line] using not_mem_escaped hline
    refine ⟨line, .inl ?_⟩
    rw [kept_last (by simp [closing]) hbreak, h.isCommentLine]
    rfl
  -- the first line stays, without a carriage return at its end
  | more line rest hline _ =>
    have hbreak : '\n' ∉ front ++ escaped line := by
      simpa [h.line] using not_mem_escaped hline
    have hreturn : withoutReturn (front ++ escaped line) =
        front ++ escaped (withoutReturn line) := by
      rw [withoutReturn_append h.getLast?, withoutReturn_escaped]
    have hlines : ∀ t, escaped ('\n' :: t) = '\n' :: escaped t := fun _ => rfl
    rw [escaped_break, ← List.append_assoc, kept_break hbreak, h.isCommentLine, hreturn]
    obtain ⟨t, ht | ht⟩ := exists_kept_escaped rest
    · refine ⟨withoutReturn line ++ '\n' :: t, .inl ?_⟩
      simp [ht, hlines]
    · refine ⟨withoutReturn line ++ t, .inr ?_⟩
      simp [ht]

/-! ## The arguments -/

/-- A document with one string. -/
def argument (key s : List Char) : List Char :=
  '{' :: (key ++ ':' :: ' ' :: (Wrapper.quote (escaped s) ++ ['}']))

/-- A key without quotes. -/
structure PlainKey (key : List Char) : Prop where
  nonempty : key ≠ []
  char : ∀ c ∈ key, isKeyChar c = true

section
variable (hkey : PlainKey key)

include hkey in
theorem arguments_argument (now : Int64) (s : List Char) :
    Grammar.Arguments now (argument key s) [.document [(.ofList key, .string (.ofList s))]] := by
  have hstring : Grammar.Literal now (Wrapper.quote (escaped s)) (.string (.ofList s)) :=
    .scalar (.string (stringLiteral_escaped s))
  have hmembers := Grammar.Members.one .nil (.plain hkey.char hkey.nonempty) .nil .space hstring .nil
  have hsettles : Grammar.Settles [(String.ofList key, Value.string (.ofList s))]
      [(.ofList key, .string (.ofList s))] := ⟨rfl, fun _ => rfl⟩
  have hitems := Grammar.Items.one .nil
    (.object (.members hmembers .absent) hsettles) .nil
  simpa [argument] using Grammar.Arguments.items hitems .absent

include hkey in
/-- The document as a tree of shell values without wrapper calls. -/
theorem exists_items (s : List Char) : ∃ items : Items, items.typed = argument key s ∧
    items.plain = argument key s ∧ (∀ leaf ∈ items.leaves, leaf.Seen) ∧ ∀ w, items.Safe w := by
  have hstring : ∀ now, ∃ v, value now 1 (Wrapper.quote (escaped s)) = .ok (v, []) := fun now =>
    ⟨_, (Grammar.Scalar.string (stringLiteral_escaped s)).read⟩
  let k : Key := ⟨key, _, (Grammar.Key.plain hkey.char hkey.nonempty).read⟩
  let fields : Fields := .last noGap k noGap oneSpace (.scalar ⟨_, hstring⟩) noGap
  have htext : ∀ replaced, (Items.last noGap (.object fields) noGap).text replaced =
      argument key s := by
    intro replaced
    simp [fields, k, Items.text, Tree.text, Fields.text, noGap, oneSpace, argument]
  refine ⟨.last noGap (.object fields) noGap, htext _, htext _, ?_, fun w => .inl ?_⟩
  · simp only [fields, Items.leaves, Tree.leaves, Fields.leaves, List.mem_cons, List.not_mem_nil,
      or_false, forall_eq_or_imp, forall_eq]
    exact ⟨trivial, fun hslash => by simp [Wrapper.quote] at hslash⟩
  · simp [fields, Items.leaves, Tree.leaves, Fields.leaves, Leaf.Closes]

include hkey in
theorem parseShellArguments_argument (now : Int64) (s : List Char) :
    parseShellArguments now (argument key s) =
      .ok [.document [(.ofList key, .string (.ofList s))]] := by
  obtain ⟨items, htyped, hplain, hseen, hsafe⟩ := exists_items hkey s
  rw [parseShellArguments, ← htyped, Wrapper.normalize_typed hseen hsafe, hplain]
  exact (arguments_argument hkey now s).values

/-! ## The extent of the call -/

include hkey in
/-- Up to the string, a search for the end of the call goes into one brace. -/
theorem close_brace (cs : List Char) :
    close? ('{' :: (key ++ ':' :: ' ' :: '"' :: cs)) =
      (closeFrom? (.literal '"' false) 1 cs).map (.prepend ('{' :: (key ++ [':', ' ', '"']))) := by
  have hinert : ∀ c ∈ key ++ [':', ' '], isInert c = true := by
    simp only [List.mem_append, List.mem_cons, List.not_mem_nil, or_false, or_imp, forall_and,
      forall_eq]
    exact ⟨fun c hc => isInert_of_isKeyChar (hkey.char c hc), by decide, by decide⟩
  obtain ⟨last, hpass⟩ := Passes.of_isInert (some '{') hinert
  have hquote : Passes (.code last) ['"'] (.literal '"' false) := by
    have hsingle : Passes (.code last) ['"'] ((Zone.code last).next '"') := .single rfl
    rwa [Zone.next_code_quote rfl] at hsingle
  have hbrace : close? ('{' :: (key ++ ':' :: ' ' :: '"' :: cs)) =
      (closeFrom? (.code (some '{')) 1 (key ++ ':' :: ' ' :: '"' :: cs)).map (.push '{') := by
    simp [close?, closeFrom?, Zone.isCode, isOpener, Zone.next_code_opener]
  have hfront := (hpass.append hquote).close_eq 1 cs
  rw [List.append_assoc, List.append_assoc] at hfront
  rw [hbrace]
  refine (congrArg _ hfront).trans ?_
  rw [Option.map_map]
  congr 1
  funext cut
  simp [Closed.push, Closed.prepend]

include hkey in
theorem close_argument (s : List Char) :
    close? (argument key s ++ [')']) = some ⟨argument key s, ')', []⟩ := by
  obtain ⟨q, tail, htext, -, hread⟩ := (stringLiteral_escaped s).read []
  obtain ⟨rfl, rfl⟩ := List.cons.inj htext
  obtain ⟨taken, htaken, hinside⟩ := inside_of_string rfl hread
  have hbody : taken = escaped s ++ ['"'] := by
    simpa using htaken.symm
  have hend : closeFrom? (.code (some '"')) 1 ['}', ')'] = some ⟨['}'], ')', []⟩ := rfl
  have hstring := (Passes.of_inside hinside).close_eq 1 ['}', ')']
  rw [hbody, hend] at hstring
  have hargument : argument key s ++ [')'] =
      '{' :: (key ++ ':' :: ' ' :: '"' :: (escaped s ++ ['"'] ++ ['}', ')'])) := by
    simp [argument, Wrapper.quote]
  rw [hargument, close_brace hkey, hstring]
  simp [Closed.prepend, argument, Wrapper.quote]

/-- A string that is not closed closes nothing. -/
theorem closeFrom_escaped (s : List Char) (depth : Nat) :
    closeFrom? (.literal '"' false) depth (escaped s) = none := by
  induction s with
  | nil => rfl
  | cons c s ih =>
    rw [escaped_cons, escapeChar]
    split
    · have hescape : (Zone.literal '"' false).next '\\' = .escaped '"' false := rfl
      have hback : (Zone.escaped '"' false).next c = .literal '"' false := rfl
      simp [closeFrom?, Zone.isCode, hescape, hback, ih]
    · rename_i hc
      obtain ⟨hquote, hbackslash⟩ := not_or.1 hc
      have hnext := Zone.next_string (q := '"') rfl hquote hbackslash
      simp [closeFrom?, Zone.isCode, hnext, ih]

theorem closeFrom_append {z : Zone} {depth : Nat} {as : List Char} {cut : Closed}
    (h : closeFrom? z depth as = some cut) (bs : List Char) :
    ∃ cut', closeFrom? z depth (as ++ bs) = some cut' := by
  induction as generalizing z depth cut with
  | nil => cases h
  | cons c as ih =>
    have hpush : ∀ {y : Zone} {n : Nat}, (closeFrom? y n as).map (.push c) = some cut →
        ∃ cut' : Closed, (closeFrom? y n (as ++ bs)).map (.push c) = some cut' := by
      intro y n h
      obtain ⟨found, hfound, -⟩ := Option.map_eq_some_iff.1 h
      obtain ⟨found', hfound'⟩ := ih hfound
      exact ⟨found'.push c, by rw [hfound']; rfl⟩
    rw [List.cons_append]
    unfold closeFrom? at h ⊢
    split at h
    · rename_i hopen
      simpa [hopen] using hpush h
    · rename_i hopen
      split at h
      · rename_i hclose
        split at h
        · simp [hopen, hclose]
        · simpa [hopen, hclose] using hpush h
      · rename_i hclose
        simpa [hopen, hclose] using hpush h

include hkey in
theorem close_unclosed {s cs : List Char} (hcs : cs <+: escaped s) :
    close? ('{' :: (key ++ ':' :: ' ' :: '"' :: cs)) = none := by
  obtain ⟨rest, hrest⟩ := hcs
  rw [close_brace hkey]
  cases hclose : closeFrom? (.literal '"' false) 1 cs with
  | none => rfl
  | some cut =>
    -- the end would be found in the longer text as well
    obtain ⟨cut', hcut'⟩ := closeFrom_append hclose rest
    rw [hrest, closeFrom_escaped] at hcut'
    cases hcut'

end

/-! ## Insertions -/

/-- The text of a query that inserts a document with one string. -/
def insertion (collection key s : List Char) : List Char :=
  "db.".toList ++ collection ++ ".insertOne(\x7b".toList ++ key ++ ": \"".toList ++ escaped s ++
    "\"\x7d)".toList

/-- What stands before the string. -/
def opened (collection key : List Char) : List Char :=
  'd' :: 'b' :: '.' :: (collection ++ '.' :: ("insertOne".toList ++ '(' ::
    '{' :: (key ++ [':', ' ', '"'])))

theorem insertion_eq (collection key s : List Char) :
    insertion collection key s = opened collection key ++ (escaped s ++ closing) := by
  have hdatabase : "db.".toList = ['d', 'b', '.'] := by decide
  have hmethod : ".insertOne(\x7b".toList = '.' :: "insertOne".toList ++ ['(', '{'] := by decide
  have hcolon : ": \"".toList = [':', ' ', '"'] := by decide
  have hclosing : "\"\x7d)".toList = closing := by decide
  delta insertion opened
  rw [hdatabase, hmethod, hcolon, hclosing]
  simp only [List.append_assoc, List.cons_append, List.nil_append]

section
variable (hname : Call.DottedName collection) (hkey : PlainKey key)

include hname hkey in
theorem leads_opened : Leads (opened collection key) where
  line := by
    have hcollection : '\n' ∉ collection := hname.break_not_mem
    have hkey' : '\n' ∉ key := fun hmem => absurd (hkey.char _ hmem) (by decide +kernel)
    have hmethod : '\n' ∉ "insertOne".toList := by decide
    simp only [opened, List.mem_cons, List.mem_append, List.not_mem_nil, hcollection, hkey', hmethod,
      or_false, false_or]
    decide
  first := ⟨'d', rfl, rfl, by decide⟩
  last := by
    have hsplit : opened collection key = ('d' :: 'b' :: '.' :: (collection ++ '.' ::
        ("insertOne".toList ++ '(' :: '{' :: (key ++ [':', ' '])))) ++ ['"'] := by
      simp only [opened, List.cons_append, List.append_assoc, List.nil_append]
    exact ⟨'"', by rw [hsplit]; exact List.getLast?_concat, rfl⟩

include hname in
/-- A text that begins like an insertion is a call whose arguments begin with the document. -/
theorem callOfQuery_opened {cs query : List Char}
    (hquery : cleanQuery query = opened collection key ++ cs) :
    Call.ofQuery query = Call.ofHead (opened collection key ++ cs)
      ⟨.collection, some collection, "insertOne".toList, '{' :: (key ++ ':' :: ' ' :: '"' :: cs)⟩ := by
  have htext : opened collection key ++ cs = 'd' :: 'b' :: '.' :: (collection ++ '.' ::
      ("insertOne".toList ++ '(' :: ('{' :: (key ++ ':' :: ' ' :: '"' :: cs)))) := by
    simp only [opened, List.cons_append, List.append_assoc, List.nil_append]
  have hletters : isNameStart 'i' = true ∧ ∀ d ∈ ['n', 's', 'e', 'r', 't', 'O', 'n', 'e'],
      isNameRest d = true := by
    decide +kernel
  have hmethod : Call.MethodName "insertOne".toList := .name hletters.1 hletters.2
  have hne : collection ≠ [] := by
    rintro rfl
    cases hname
  have hhead := Call.head?_append hname hmethod ('{' :: (key ++ ':' :: ' ' :: '"' :: cs))
  rw [Call.ofQuery, hquery, htext, hhead]
  simp [hne]

include hname hkey in
/-- The plan of a query that is an insertion once its comment lines are dropped. -/
theorem ofQuery_insertion {t query : List Char} (now limit : Int64)
    (hquery : cleanQuery query = opened collection key ++ (escaped t ++ closing)) :
    ∃ plan, Plan.ofQuery now limit query = .ok plan ∧
      plan.operation = .onCollection (.ofList collection)
        (.insertOne [(.ofList key, .string (.ofList t))]) := by
  have hrest : '{' :: (key ++ ':' :: ' ' :: '"' :: (escaped t ++ closing)) =
      argument key t ++ [')'] := by
    simp [argument, Wrapper.quote, closing]
  let call : Call := ⟨.collection, some (.ofList collection), "insertOne", .ofList (argument key t),
    .ofList []⟩
  have hcall : Call.ofQuery query = .ok call := by
    rw [callOfQuery_opened hname hquery, hrest, Call.ofHead, close_argument hkey]
    simp only [String.ofList_toList]
    rfl
  have harguments := parseShellArguments_argument hkey now t
  have hkind : OperationKind.ofCall? .collection "insertOne" = some .insertOne := by decide
  have hchain : Chain.calls now [] = .ok [] := rfl
  have hplan : Plan.ofQuery now limit query = .ok ⟨call, .onCollection (.ofList collection)
      (.insertOne [(.ofList key, .string (.ofList t))]), [], none, false⟩ := by
    rw [Plan.ofQuery, hcall]
    simp only [call, Plan.ofCall, hkind, String.toList_ofList, harguments, hchain,
      CallShape.isAdmin, bind, Except.bind]
    rfl
  exact ⟨_, hplan, rfl⟩

include hname hkey in
/-- A query in which the string is not closed has no plan. -/
theorem ofQuery_unclosed {t cs query : List Char} (now limit : Int64) (hcs : cs <+: escaped t)
    (hquery : cleanQuery query = opened collection key ++ cs) :
    ∃ e, Plan.ofQuery now limit query = .error e := by
  have hcall : ∃ e, Call.ofQuery query = .error e := by
    rw [callOfQuery_opened hname hquery, Call.ofHead, close_unclosed hkey hcs]
    exact ⟨_, rfl⟩
  obtain ⟨e, he⟩ := hcall
  exact ⟨e, by rw [Plan.ofQuery, he]; rfl⟩

/-! ## Fidelity -/

/-- The string of an insertion is what is inserted, if and only if no line of it ends in a carriage
    return and no line after the first is a comment. -/
theorem inserted_iff {collection key : List Char} (hname : Call.DottedName collection)
    (hkey : PlainKey key) (now limit : Int64) (s : List Char) :
    (∃ plan, Plan.ofQuery now limit (insertion collection key s) = .ok plan ∧
      plan.operation = .onCollection (.ofList collection)
        (.insertOne [(.ofList key, .string (.ofList s))])) ↔
      ¬ ['\r', '\n'] <:+: s ∧ ∀ line ∈ (s.splitOn '\n').tail, isCommentLine line = false := by
  have hfront := leads_opened hname hkey
  have hclosed : ∀ t, trim (opened collection key ++ (escaped t ++ closing)) =
      opened collection key ++ (escaped t ++ closing) := by
    intro t
    have hsplit : escaped t ++ closing = (escaped t ++ ['"', '}']) ++ [')'] := by simp [closing]
    rw [trim_front hfront, hsplit, trimEnd_concat rfl]
  rw [insertion_eq, ← kept_front_eq_iff hfront]
  constructor
  · rintro ⟨plan, hplan, hoperation⟩
    obtain ⟨t, ht | ht⟩ := exists_kept_front hfront s
    · -- the query arrives with the string `t`, which is the one that is planned
      obtain ⟨plan', hplan', hoperation'⟩ := ofQuery_insertion (t := t) hname hkey now limit
        (by rw [cleanQuery_eq, ht, List.tail_cons, hclosed])
      cases hplan.symm.trans hplan'
      rw [hoperation] at hoperation'
      simp only [Operation.onCollection.injEq, CollectionOperation.insertOne.injEq, List.cons.injEq,
        Prod.mk.injEq, Value.string.injEq, String.ofList_inj, true_and, and_true] at hoperation'
      rw [ht, hoperation']
    -- nothing closes the string, so there is no plan
    · obtain ⟨e, he⟩ := ofQuery_unclosed hname hkey now limit (isPrefix_of_trimEnd (escaped t))
        (by rw [cleanQuery_eq, ht, List.tail_cons, trim_front hfront])
      cases hplan.symm.trans he
  · intro hkept
    exact ofQuery_insertion hname hkey now limit
      (by rw [cleanQuery_eq, hkept, List.tail_cons, hclosed])

/-- A string of two lines with a quote, a parenthesis, slashes and a backslash. -/
def twoLines : List Char :=
  ['"', '(', '/', '/', '\n', '\\', '/', '/']

theorem inserted_two_lines :
    Call.DottedName ['a', '.', 'b'] ∧ PlainKey ['k'] ∧
      ∃ plan, Plan.ofQuery 0 100 (insertion ['a', '.', 'b'] ['k'] twoLines) = .ok plan ∧
        plan.operation = .onCollection (.ofList ['a', '.', 'b'])
          (.insertOne [(.ofList ['k'], .string (.ofList twoLines))]) := by
  have hname : Call.DottedName ['a', '.', 'b'] :=
    @Call.DottedName.dot 'a' [] ['b'] rfl (by simp) (@Call.DottedName.part 'b' [] rfl (by simp))
  have hkey : PlainKey ['k'] := ⟨by simp, by decide +kernel⟩
  exact ⟨hname, hkey, (inserted_iff hname hkey 0 100 twoLines).2 ⟨by decide, by decide⟩⟩

end

end ShellQuery
