/-
  ShellQuery.Proofs.Spelling

  The two ways to write a call on a collection, `db.name.method(` and
  `db.getCollection("name").method(`. The text after the parenthesis is read alike in both, so the
  two queries come to the same, whatever that text is (`Plan.ofQuery_spellings`).
-/
import ShellQuery.Plan
import ShellQuery.Proofs.Lines
import ShellQuery.Proofs.Opening
import ShellQuery.Proofs.Options.Planning

namespace ShellQuery

open Text

variable {now limit : Int64} {query front rest name method : List Char}

/-! ## Queries that begin with a call on a collection -/

namespace Call

/-- A query that begins with a call on a collection is cut at the delimiter that closes the call, if
    there is one. -/
theorem ofQuery_of_opening {shape : CallShape} (htext : cleanQuery query = front ++ '(' :: rest)
    (hopening : Opening front shape (some name) method) (hname : name ≠ []) :
    ofQuery query = match close? rest with
      | none => .error (.unbalanced (byteLength front))
      | some cut => .ok {
          shape
          collection := some (.ofList name)
          method := .ofList method
          arguments := .ofList cut.inside
          remainder := .ofList (trim cut.after) } := by
  have hhead : head? (cleanQuery query) = some ⟨shape, some name, method, rest⟩ :=
    head?_eq_some_iff.2 ⟨front, hopening, htext⟩
  have hnonempty : cleanQuery query ≠ [] := by
    rw [htext]
    simp
  have hnamed : (some name : Option (List Char)) ≠ some [] := by simpa using hname
  have hfront : (cleanQuery query).take ((cleanQuery query).length - rest.length - 1) = front := by
    have hlength : (cleanQuery query).length - rest.length - 1 = front.length := by
      rw [htext, List.length_append, List.length_cons]
      omega
    rw [hlength, htext, List.take_left]
  simp only [ofQuery, hnonempty, if_false, hhead, hnamed, ofHead, hfront]
  rfl

end Call

/-! ## The two spellings -/

/-- The call `db.name.method`, up to its parenthesis. -/
def dottedFront (name method : List Char) : List Char :=
  'd' :: 'b' :: '.' :: (name ++ '.' :: method)

/-- The call `db.getCollection("name").method`, up to its parenthesis. -/
def quotedFront (name method : List Char) : List Char :=
  'd' :: 'b' :: '.' :: ("getCollection".toList ++
    '(' :: '"' :: (name ++ '"' :: ')' :: '.' :: method))

section
variable (hname : Call.DottedName name) (hmethod : Call.MethodName method)

include hname hmethod in
theorem opening_dottedFront :
    Call.Opening (dottedFront name method) .collection (some name) method := by
  have hdot : Call.Dot ['.'] := .blanks .nil .nil
  have hopening := Call.Opening.collection hdot hname (.called hdot hmethod .nil)
  simpa [dottedFront] using hopening

include hname hmethod in
theorem opening_quotedFront :
    Call.Opening (quotedFront name method) .getCollection (some name) method := by
  have hdot : Call.Dot ['.'] := .blanks .nil .nil
  have hquote : '"' ∉ name := fun hmem => by
    rcases hname.char_cases hmem with hc | hc
    · exact absurd hc (by decide +kernel)
    · cases hc
  have hopening := Call.Opening.getCollection (q := '"') hdot .nil .nil .nil rfl hquote
    (.called hdot hmethod .nil)
  simpa [quotedFront] using hopening

/-- What is called on the database may begin a query, with its parenthesis, if it is one line. -/
theorem leads_call {call : List Char} (h : '\n' ∉ call) : Leads ('d' :: 'b' :: (call ++ ['('])) where
  line := by simp [h]
  first := ⟨'d', rfl, rfl, by decide⟩
  last := by
    refine ⟨'(', ?_, rfl⟩
    rw [← List.cons_append, ← List.cons_append]
    exact List.getLast?_concat

include hname hmethod in
theorem leads_dottedFront : Leads (dottedFront name method ++ ['(']) := by
  refine leads_call ?_
  simp [hname.break_not_mem, hmethod.dottedName.break_not_mem]

include hname hmethod in
theorem leads_quotedFront : Leads (quotedFront name method ++ ['(']) := by
  refine leads_call ?_
  simp [hname.break_not_mem, hmethod.dottedName.break_not_mem]

end

/-! ## Plans of the two -/

namespace Plan

/-- What two queries come to that are the same but for the spelling of the call: plans that differ
    in nothing else, the same error, or primary calls that are not closed, which are found at the
    offsets of their parentheses. -/
inductive Alike (openAt openAt' : Nat) : Except QueryError Plan → Except QueryError Plan → Prop where
  | planned {p p' : Plan} (operation : p.operation = p'.operation)
    (modifiers : p.modifiers = p'.modifiers) (postProcess : p.postProcess = p'.postProcess)
    (defaultLimitApplied : p.defaultLimitApplied = p'.defaultLimitApplied) :
    Alike openAt openAt' (.ok p) (.ok p')
  | refused (e : QueryError) : Alike openAt openAt' (.error e) (.error e)
  | unclosed : Alike openAt openAt' (.error (.unbalanced openAt)) (.error (.unbalanced openAt'))

/-- A call on a collection is planned alike, however its collection is named. -/
theorem ofCall_respelled (call : Call) (openAt openAt' : Nat) :
    Alike openAt openAt' (ofCall now limit { call with shape := .collection })
      (ofCall now limit { call with shape := .getCollection }) := by
  have hrespelled : ofCall now limit { call with shape := .getCollection } =
      (ofCall now limit { call with shape := .collection }).map fun p =>
        { p with call := { p.call with shape := .getCollection } } := by
    simp only [ofCall, OperationKind.ofCall?]
    -- the shape is looked at for the allow-list and for what may follow, and both are the same
    cases OperationKind.collectionMethods.find? (·.name = call.method) with
    | none => rfl
    | some kind =>
      cases parseShellArguments now call.arguments.toList with
      | error e => rfl
      | ok arguments =>
        cases Chain.calls now call.remainder.toList with
        | error e => simp [CallShape.isAdmin, bind, Except.bind, Except.map]
        | ok calls =>
          cases hop : collectionOperation kind arguments (Chain.modifiers calls) limit <;>
            simp [hop, CallShape.isAdmin, bind, Except.bind, Except.map, pure, Except.pure]
  rw [hrespelled]
  cases ofCall now limit { call with shape := .collection } with
  | error e => exact .refused e
  | ok p => exact .planned rfl rfl rfl rfl

/-- The two spellings of a call on a collection agree: for every name of a collection, every method
    and every text after the parenthesis the two queries come to the same. -/
theorem ofQuery_spellings (hname : Call.DottedName name) (hmethod : Call.MethodName method)
    (now limit : Int64) (rest : List Char) :
    Alike (byteLength (dottedFront name method)) (byteLength (quotedFront name method))
      (ofQuery now limit (dottedFront name method ++ '(' :: rest))
      (ofQuery now limit (quotedFront name method ++ '(' :: rest)) := by
  obtain ⟨left, hleft⟩ := exists_cleanQuery_append rest
  have hdotted := hleft (leads_dottedFront hname hmethod)
  have hquoted := hleft (leads_quotedFront hname hmethod)
  simp only [List.append_assoc, List.singleton_append] at hdotted hquoted
  have hne : name ≠ [] := by
    rintro rfl
    cases hname
  rw [ofQuery, ofQuery, Call.ofQuery_of_opening hdotted (opening_dottedFront hname hmethod) hne,
    Call.ofQuery_of_opening hquoted (opening_quotedFront hname hmethod) hne]
  cases close? left with
  | none => exact .unclosed
  | some cut => exact ofCall_respelled ⟨.collection, some (.ofList name), .ofList method,
      .ofList cut.inside, .ofList (trim cut.after)⟩ _ _

/-- A call on a collection whose name is made of the words of other calls. -/
def wordsCall : Call where
  shape := .collection
  collection := some "getCollection.runCommand"
  method := "find"
  arguments := "\x7b\x7d"
  remainder := ".limit(2)"

theorem callOfQuery_words :
    Call.ofQuery "db.getCollection.runCommand.find(\x7b\x7d).limit(2)".toList = .ok wordsCall := by
  rfl

theorem exists_plan_words : ∃ p, ofCall 0 100 wordsCall = .ok p ∧
    p.operation = .onCollection "getCollection.runCommand" (.find ⟨[], none, none, none, 2⟩) := by
  have hkind : OperationKind.ofCall? wordsCall.shape wordsCall.method = some .find := by
    decide
  have harguments : parseShellArguments 0 wordsCall.arguments.toList = .ok [.document []] := rfl
  have hchain : Chain.calls 0 wordsCall.remainder.toList = .ok [⟨"limit", [.int32 2]⟩] := by
    cbv
  have hcall : ofCall 0 100 wordsCall = _ := ofCall_of_calls hkind rfl harguments hchain
  exact ⟨_, hcall, rfl⟩

/-- Both spellings of the call are planned, as one operation. -/
theorem ofQuery_spellings_words : ∃ p p',
    ofQuery 0 100 "db.getCollection.runCommand.find(\x7b\x7d).limit(2)".toList = .ok p ∧
    ofQuery 0 100
      "db.getCollection(\"getCollection.runCommand\").find(\x7b\x7d).limit(2)".toList = .ok p' ∧
    p.operation = .onCollection "getCollection.runCommand" (.find ⟨[], none, none, none, 2⟩) ∧
    p'.operation = p.operation ∧ p'.modifiers = p.modifiers := by
  have hname : Call.DottedName ('g' :: ("etCollection".toList ++ '.' :: 'r' :: "unCommand".toList)) :=
    .dot (by decide +kernel) (by decide +kernel) (.part (by decide +kernel) (by decide +kernel))
  have hmethod : Call.MethodName ('f' :: "ind".toList) :=
    .name (by decide +kernel) (by decide +kernel)
  have halike : Alike 32 49
      (ofQuery 0 100 "db.getCollection.runCommand.find(\x7b\x7d).limit(2)".toList)
      (ofQuery 0 100
        "db.getCollection(\"getCollection.runCommand\").find(\x7b\x7d).limit(2)".toList) :=
    ofQuery_spellings hname hmethod 0 100 "\x7b\x7d).limit(2)".toList
  obtain ⟨p, hp, hop⟩ := exists_plan_words
  have hquery : ofQuery 0 100 "db.getCollection.runCommand.find(\x7b\x7d).limit(2)".toList = .ok p :=
    bind_eq_ok.2 ⟨wordsCall, callOfQuery_words, hp⟩
  rw [hquery] at halike ⊢
  generalize ofQuery 0 100 _ = quoted at halike ⊢
  cases halike with
  | planned operation modifiers => exact ⟨p, _, rfl, rfl, hop, operation.symm, modifiers.symm⟩

end Plan

end ShellQuery
