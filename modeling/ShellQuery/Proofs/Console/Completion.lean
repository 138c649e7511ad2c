/-
  ShellQuery.Proofs.Console.Completion

  The methods that the console offers against the calls that a query may begin with. The console
  cuts an unfinished line at its last dot, the reader of calls looks for names with dots between
  them from the left on. Both find the same collection: what is typed of a method has no dot in it,
  and the name of a method that is offered has none either.
-/
import ShellQuery.Console.Completion
import ShellQuery.Proofs.Spelling

namespace ShellQuery.Console

open Text

variable {name typed method : List Char} {kind : OperationKind} {c : Char}

/-! ## Offers -/

theorem cutAtByte_append (front back : List Char) :
    cutAtByte (byteLength front) (front ++ back) = (front, back) := by
  induction front with
  | nil =>
    cases back with
    | nil => rfl
    | cons c back => exact if_pos c.utf8Size_pos
  | cons c front ih =>
    have hsize : byteLength (c :: front) = c.utf8Size + byteLength front := rfl
    rw [List.cons_append, cutAtByte, hsize, if_neg (Nat.not_lt.2 (Nat.le_add_right ..)),
      Nat.add_sub_cancel_left, ih]

/-- Nothing stands behind a cursor at the end of the line. -/
theorem cutAtByte_end (line : List Char) : cutAtByte (byteLength line) line = (line, []) := by
  have hcut := cutAtByte_append line []
  rwa [List.append_nil] at hcut

/-- A line with the cursor at a byte, after one of the offers for it is taken: it takes the place of
    what stands between the start of the offers and the cursor. -/
def Offer.taken (offer : Offer) (line : List Char) (cursor : Nat) (c : Candidate) : List Char :=
  (cutAtByte offer.start line).1 ++ c.replacement.toList ++ (cutAtByte cursor line).2

/-! ## Methods of a collection -/

theorem methodName_of_mem (h : kind ∈ OperationKind.collectionMethods) :
    Call.MethodName kind.name.toList := by
  have hnames : ∀ kind ∈ OperationKind.collectionMethods,
      (kind.name.toList.head?.any isNameStart && kind.name.toList.all isNameRest) = true := by
    decide +kernel
  have hname := hnames kind h
  cases hcs : kind.name.toList with
  | nil => simp [hcs] at hname
  | cons c cs =>
    simp only [hcs, List.head?_cons, Option.any_some, List.all_cons, Bool.and_eq_true,
      List.all_eq_true] at hname
    exact .name hname.1 hname.2.2

/-- What is allowed on a collection are its methods, each under its own name. -/
theorem ofCall?_collection_eq_some_iff {method : String} :
    OperationKind.ofCall? .collection method = some kind ↔
      kind ∈ OperationKind.collectionMethods ∧ kind.name = method := by
  constructor
  · intro h
    have hfound : OperationKind.collectionMethods.find? (·.name = method) = some kind := h
    exact ⟨List.mem_of_find?_eq_some hfound, by simpa using List.find?_some hfound⟩
  · rintro ⟨hmem, rfl⟩
    have hall : ∀ kind ∈ OperationKind.collectionMethods,
        OperationKind.ofCall? .collection kind.name = some kind := by decide +kernel
    exact hall kind hmem

/-- The methods of a collection that begin with what is typed, as the console lists them. -/
def methodsFrom (typed : List Char) : List String :=
  (OperationKind.collectionMethods.map OperationKind.name).filter (typed.isPrefixOf ·.toList)

theorem mem_methodsFrom_iff {method : String} : method ∈ methodsFrom typed ↔
    typed <+: method.toList ∧ ∃ kind, OperationKind.ofCall? .collection method = some kind := by
  simp only [methodsFrom, List.mem_filter, List.mem_map, List.isPrefixOf_iff_prefix,
    ofCall?_collection_eq_some_iff, and_comm]

theorem ne_dot_of_isAsciiAlphanumeric (h : isAsciiAlphanumeric c = true) : c ≠ '.' := by
  rintro rfl
  exact absurd h (by decide)

/-- An unfinished call on a collection is cut behind the name of the collection. -/
theorem methodOffer?_dottedFront (hname : Call.DottedName name)
    (htyped : ∀ c ∈ typed, isAsciiAlphanumeric c = true) :
    methodOffer? (dottedFront name typed) = some ⟨byteLength (dottedFront name []),
      (methodsFrom typed).map fun method => ⟨method, method ++ "("⟩⟩ := by
  have hcut : cutLast? '.' (dottedFront name typed) = some ('d' :: 'b' :: '.' :: name, typed) :=
    cutLast?_append (fun hdot => ne_dot_of_isAsciiAlphanumeric (htyped _ hdot) rfl)
      ('d' :: 'b' :: '.' :: name)
  -- the three things the console looks at before it offers anything
  have hparen : '(' ∉ name := fun hmem => (hname.char_cases hmem).elim
    (fun hc => Bool.false_ne_true (Call.isCollectionRest_mark.2.1.symm.trans hc)) (by decide)
  have hlength : byteLength ('d' :: 'b' :: '.' :: name) = 3 + byteLength name :=
    byteLength_append ['d', 'b', '.'] name
  have hstart : byteLength (dottedFront name []) = byteLength ('d' :: 'b' :: '.' :: name) + 1 :=
    byteLength_append ('d' :: 'b' :: '.' :: name) ['.']
  have hbegins : beginsWith "db.".toList (dottedFront name typed) = true := by
    simp [beginsWith, dottedFront]
  have hall : typed.all isAsciiAlphanumeric = true := List.all_eq_true.2 htyped
  have hguard : (decide (byteLength ('d' :: 'b' :: '.' :: name) < 3) ||
      ('d' :: 'b' :: '.' :: name).contains '(' || !typed.all isAsciiAlphanumeric) = false := by
    simp [hlength, hparen, hall]
  rw [methodOffer?, hbegins, hcut, hstart]
  simp only [Option.bind_eq_bind, Option.bind_some, hguard]
  rfl

/-! ## What is offered is read -/

/-- The line after a method that is offered for it is taken. -/
theorem taken_method {offer : Offer} (hstart : offer.start = byteLength (dottedFront name []))
    (method : String) :
    offer.taken (dottedFront name typed) (byteLength (dottedFront name typed))
      ⟨method, method ++ "("⟩ = dottedFront name method.toList ++ ['('] := by
  have hline : ∀ cs, dottedFront name cs = dottedFront name [] ++ cs := fun cs => by
    simp [dottedFront]
  have hbefore : (cutAtByte (byteLength (dottedFront name [])) (dottedFront name typed)).1 =
      dottedFront name [] := by
    rw [hline typed, cutAtByte_append]
  rw [Offer.taken, hstart, hbefore, cutAtByte_end, List.append_nil, hline method.toList,
    List.append_assoc, String.toList_append]
  rfl

/-- A call that is closed at once. -/
theorem ofQuery_dottedFront (hname : Call.DottedName name) (hmethod : Call.MethodName method) :
    Call.ofQuery (dottedFront name method ++ ['('] ++ [')']) = .ok {
      shape := .collection
      collection := some (.ofList name)
      method := .ofList method
      arguments := ""
      remainder := "" } := by
  have hne : name ≠ [] := by
    rintro rfl
    cases hname
  have htext : cleanQuery (dottedFront name method ++ ['('] ++ [')']) =
      dottedFront name method ++ '(' :: [')'] := by
    rw [(leads_dottedFront hname hmethod).cleanQuery_append (by decide), List.append_assoc]
    rfl
  rw [Call.ofQuery_of_opening htext (opening_dottedFront hname hmethod) hne]
  rfl

/-- For an unfinished call on a collection the console offers the methods that are allowed on it and
    begin with what is typed, in the order in which they are declared. Each of them makes the line a
    call of that method on that collection, once its parenthesis is closed. -/
theorem methods_offered (targets : List String) (hname : Call.DottedName name)
    (htyped : ∀ c ∈ typed, isAsciiAlphanumeric c = true) :
    ∃ offer, (assist targets (dottedFront name typed) (byteLength (dottedFront name typed))).1 = offer ∧
      offer.start = byteLength (dottedFront name []) ∧
      offer.candidates.map Candidate.display = methodsFrom typed ∧
      (∀ method, method ∈ methodsFrom typed ↔ typed <+: method.toList ∧
        ∃ kind, OperationKind.ofCall? .collection method = some kind) ∧
      ∀ c ∈ offer.candidates,
        Call.ofQuery (offer.taken (dottedFront name typed) (byteLength (dottedFront name typed)) c ++
          [')']) = .ok {
            shape := .collection
            collection := some (.ofList name)
            method := c.display
            arguments := ""
            remainder := "" } ∧
        ∃ kind, OperationKind.ofCall? .collection c.display = some kind ∧ kind.name = c.display := by
  have hassist : (assist targets (dottedFront name typed) (byteLength (dottedFront name typed))).1 =
      ⟨byteLength (dottedFront name []),
        (methodsFrom typed).map fun method => ⟨method, method ++ "("⟩⟩ := by
    -- a line that begins with a letter is none of a command, nor of a target to be selected
    have hcommand : isCommandStart (dottedFront name typed) = false := rfl
    have htarget : beginsWith "/target ".toList (dottedFront name typed) = false := rfl
    simp only [assist, cutAtByte_end, complete, hcommand, htarget, methodOffer?_dottedFront hname htyped]
    rfl
  refine ⟨_, hassist, rfl, ?_, fun _ => mem_methodsFrom_iff, fun c hc => ?_⟩
  · rw [List.map_map]
    exact List.map_id _
  · obtain ⟨method, hmethod, rfl⟩ := List.mem_map.1 hc
    obtain ⟨-, kind, hkind⟩ := mem_methodsFrom_iff.1 hmethod
    obtain ⟨hmem, rfl⟩ := ofCall?_collection_eq_some_iff.1 hkind
    refine ⟨?_, kind, hkind, rfl⟩
    rw [taken_method rfl, ofQuery_dottedFront hname (methodName_of_mem hmem), String.ofList_toList]

/-- A collection whose name has a dot, other marks and letters beyond ASCII in it. -/
theorem methods_offered_marks :
    ∃ offer, (assist [] "db.a$-é.b-ж.findO".toList 19).1 = offer ∧ offer.start = 14 ∧
      offer.candidates.map Candidate.display =
        ["findOne", "findOneAndUpdate", "findOneAndDelete", "findOneAndReplace"] ∧
      ∀ c ∈ offer.candidates,
        Call.ofQuery (offer.taken "db.a$-é.b-ж.findO".toList 19 c ++ [')']) =
          .ok ⟨.collection, some "a$-é.b-ж", c.display, "", ""⟩ := by
  have hname : Call.DottedName ('a' :: ("$-é".toList ++ '.' :: 'b' :: "-ж".toList)) :=
    .dot (by decide +kernel) (by decide +kernel) (.part (by decide +kernel) (by decide +kernel))
  have htyped : ∀ c ∈ "findO".toList, isAsciiAlphanumeric c = true := by decide +kernel
  obtain ⟨offer, hoffer, hstart, hdisplay, -, hread⟩ := methods_offered [] hname htyped
  exact ⟨offer, hoffer, hstart, hdisplay.trans (by decide +kernel), fun c hc => (hread c hc).1⟩

end ShellQuery.Console
