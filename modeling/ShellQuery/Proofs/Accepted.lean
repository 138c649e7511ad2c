/-
  ShellQuery.Proofs.Accepted

  What a query that is accepted is made of. The primary call is cut out of the cleaned text: its
  opening, its arguments, the delimiter that closes it, and the rest (`Call.Cut`). The opening alone
  decides what is run and on which collection, so nothing that stands in the arguments or after them
  can retarget a query (`inspect_of_front`).
-/
import ShellQuery.Preview
import ShellQuery.Proofs.Opening
import ShellQuery.Proofs.Options.Planned

namespace ShellQuery

open Text

variable {now limit : Int64} {query front tail : List Char} {closer : Char} {call : Call}

/-! ## The primary call -/

/-- A query cut into the opening of its primary call, the arguments, the delimiter that closes the
    call, and what comes after it. -/
structure Call.Cut (query : List Char) (call : Call) (front : List Char) (closer : Char)
    (tail : List Char) : Prop where
  text : cleanQuery query = front ++ '(' :: (call.arguments.toList ++ closer :: tail)
  opening : Opening front call.shape (call.collection.map String.toList) call.method.toList
  named : call.collection ≠ some ""
  closed : close? (call.arguments.toList ++ closer :: tail) =
    some ⟨call.arguments.toList, closer, tail⟩
  remainder : call.remainder.toList = trim tail

theorem Call.Cut.head? (h : Call.Cut query call front closer tail) :
    Call.head? (cleanQuery query) = some ⟨call.shape, call.collection.map String.toList,
      call.method.toList, call.arguments.toList ++ closer :: tail⟩ :=
  head?_eq_some_iff.2 ⟨front, h.opening, h.text⟩

theorem Call.ofQuery_eq_ok_iff :
    Call.ofQuery query = .ok call ↔ ∃ front closer tail, Call.Cut query call front closer tail := by
  constructor
  · intro h
    simp only [Call.ofQuery] at h
    split at h
    · cases h
    · split at h
      · cases h
      · rename_i head hhead
        -- the opening stands in the text up to its parenthesis, the cut takes the rest
        obtain ⟨front, hopening, htext⟩ := head?_eq_some_iff.1 hhead
        split at h
        · cases h
        · rename_i hnamed
          simp only [Call.ofHead] at h
          split at h
          · cases h
          · rename_i cut hcut
            cases h
            have hrest := eq_of_closeFrom? hcut
            refine ⟨front, cut.closer, cut.after, ?_, ?_, ?_, ?_, ?_⟩
            · simpa only [String.toList_ofList, ← hrest] using htext
            · cases hcollection : head.collection <;>
                simpa [hcollection, String.toList_ofList] using hcollection ▸ hopening
            · cases hcollection : head.collection with
              | none => simp
              | some name =>
                have hname : name ≠ [] := fun heq => hnamed (heq ▸ hcollection)
                simpa [← String.toList_inj, String.toList_ofList] using hname
            · rw [String.toList_ofList, ← hrest, hcut]
            · exact String.toList_ofList
  · rintro ⟨front, closer, tail, h⟩
    -- a text with a parenthesis in it is not empty
    have hnonempty : cleanQuery query ≠ [] := by
      rw [h.text]
      simp
    have hnamed : call.collection.map String.toList ≠ some [] := by
      intro hempty
      obtain ⟨name, hname, hnil⟩ := Option.map_eq_some_iff.1 hempty
      exact h.named (by rw [hname, String.toList_eq_nil_iff.1 hnil])
    -- the parts of the cut decide every test on the way
    obtain ⟨shape, collection, method, arguments, remainder⟩ := call
    have hremainder : String.ofList (trim tail) = remainder := by
      rw [← h.remainder, String.ofList_toList]
    rw [Call.ofQuery]
    simp only [hnonempty, if_false, h.head?, hnamed, Call.ofHead, h.closed, hremainder]
    cases collection <;> simp [String.ofList_toList]

/-! ## The operation -/

/-- The plans of a call: a command with the path that follows it, or an operation on a collection
    with the calls chained to it. -/
inductive Plan.Made (now limit : Int64) (call : Call) : Plan → Prop where
  | command {kind : OperationKind} {arguments : List Value} {path : Path} {d : Document}
    (hkind : OperationKind.ofCall? call.shape call.method = some kind)
    (harguments : parseShellArguments now call.arguments.toList = .ok arguments)
    (hadmin : call.shape.isAdmin = true) (hpath : Path.parse call.remainder.toList = .ok path)
    (hd : commandDocument kind arguments = .ok d) :
    Made now limit call {
      call
      operation := Plan.command kind d
      modifiers := []
      postProcess := if path.isEmpty then none else some path
      defaultLimitApplied := false }
  | operation {kind : OperationKind} {arguments : List Value} {calls : List ChainedCall}
    {op : CollectionOperation}
    (hkind : OperationKind.ofCall? call.shape call.method = some kind)
    (harguments : parseShellArguments now call.arguments.toList = .ok arguments)
    (hadmin : call.shape.isAdmin = false) (hcalls : Chain.calls now call.remainder.toList = .ok calls)
    (hop : collectionOperation kind arguments (Chain.modifiers calls) limit = .ok op) :
    Made now limit call {
      call
      operation := .onCollection (call.collection.getD "") op
      modifiers := Chain.modifiers calls
      postProcess := none
      defaultLimitApplied := kind = .find && (Chain.modifiers calls).all (·.modifier ≠ .limit) }

theorem Plan.ofCall_eq_ok_iff {plan : Plan} : ofCall now limit call = .ok plan ↔
    Made now limit call plan := by
  constructor
  · intro h
    unfold ofCall at h
    split at h
    · cases h
    · rename_i kind hkind
      obtain ⟨arguments, harguments, h⟩ := bind_eq_ok.1 h
      split at h
      · rename_i hadmin
        obtain ⟨path, hpath, h⟩ := bind_eq_ok.1 h
        obtain ⟨d, hd, h⟩ := bind_eq_ok.1 h
        cases h
        exact .command hkind harguments hadmin hpath hd
      · rename_i hadmin
        obtain ⟨calls, hcalls, h⟩ := bind_eq_ok.1 h
        obtain ⟨op, hop, h⟩ := bind_eq_ok.1 h
        cases h
        exact .operation hkind harguments (Bool.eq_false_iff.2 hadmin) hcalls hop
  · intro h
    cases h with
    | command hkind harguments hadmin hpath hd =>
      simp only [ofCall, hkind]
      refine bind_eq_ok.2 ⟨_, harguments, ?_⟩
      rw [if_pos hadmin]
      exact bind_eq_ok.2 ⟨_, hpath, bind_eq_ok.2 ⟨_, hd, rfl⟩⟩
    | operation hkind harguments hadmin hcalls hop =>
      rw [ofCall_of_calls hkind hadmin harguments hcalls, hop]
      rfl

/-- What a plan runs is what the allow-list has for its call, on the collection of the call. -/
theorem Plan.operation_of_ofCall {plan : Plan} (h : ofCall now limit call = .ok plan) :
    plan.call = call ∧
      OperationKind.ofCall? call.shape call.method = some plan.operation.kind ∧
      plan.operation.collection? =
        if call.shape.isAdmin then none else some (call.collection.getD "") := by
  cases ofCall_eq_ok_iff.1 h with
  | command hkind _ hadmin =>
    rw [if_pos hadmin, hkind]
    cases hshape : call.shape <;> rw [hshape] at hkind hadmin <;> cases hadmin <;> cases hkind <;>
      exact ⟨rfl, rfl, rfl⟩
  | operation hkind _ hadmin _ hop =>
    rw [hkind, hadmin]
    exact ⟨rfl, congrArg some (kind_of_collectionOperation hop).symm, rfl⟩

theorem Call.Opening.isAdmin_iff {shape : CallShape} {collection : Option (List Char)}
    {method : List Char} (h : Opening front shape collection method) :
    shape.isAdmin = true ↔ collection = none := by
  cases h with
  | admin _ hmethod =>
    have hadmin : ∀ x ∈ adminMethods, x.1.isAdmin = true := by decide
    simp [hadmin _ hmethod]
  | getCollection | collection => simp [CallShape.isAdmin]

/-- What a preview shows of a call, its arguments apart. -/
structure Preview.Calls (p : Preview) (shape : CallShape) (collection : Option String)
    (method : String) : Prop where
  shape_eq : p.shape = shape
  collection_eq : p.collection = collection
  kind_eq : OperationKind.ofCall? shape method = some p.kind
  opClass_eq : p.opClass = p.kind.opClass

theorem exists_cut_of_inspect {p : Preview} (h : inspect now limit query = .ok p) :
    ∃ call front closer tail, Call.Cut query call front closer tail ∧
      p.Calls call.shape call.collection call.method := by
  rw [inspect] at h
  cases hplan : Plan.ofQuery now limit query with
  | error e =>
    rw [hplan] at h
    cases h
  | ok plan =>
    rw [hplan] at h
    cases h
    obtain ⟨call, hcall, hplan⟩ := bind_eq_ok.1 hplan
    obtain ⟨front, closer, tail, hcut⟩ := Call.ofQuery_eq_ok_iff.1 hcall
    obtain ⟨rfl, hkind, hcollection⟩ := Plan.operation_of_ofCall hplan
    refine ⟨_, front, closer, tail, hcut, rfl, ?_, hkind, rfl⟩
    have hadmin := hcut.opening.isAdmin_iff
    change plan.operation.collection? = plan.call.collection
    rw [hcollection]
    cases hname : plan.call.collection <;> simp [hname] at hadmin ⊢ <;> simp [hadmin]

/-! ## Nothing in the arguments counts -/

/-- Whether two previews show the same call, with the same operation on the same collection. -/
structure Preview.SameCall (p p' : Preview) : Prop where
  shape : p.shape = p'.shape
  collection : p.collection = p'.collection
  kind : p.kind = p'.kind
  opClass : p.opClass = p'.opClass

theorem Preview.Calls.same {p p' : Preview} {shape : CallShape} {collection : Option String}
    {method : String} (h : p.Calls shape collection method)
    (h' : p'.Calls shape collection method) : p.SameCall p' := by
  have hkind : p.kind = p'.kind := Option.some.inj (h.kind_eq.symm.trans h'.kind_eq)
  refine ⟨h.shape_eq.trans h'.shape_eq.symm, h.collection_eq.trans h'.collection_eq.symm, hkind, ?_⟩
  rw [h.opClass_eq, h'.opClass_eq, hkind]

/-- What is before the parenthesis of a primary call decides what is shown of the call: any query
    that begins with it and is accepted shows the same operation on the same collection, whatever
    its arguments are and whatever follows them. No text matches two of the shapes of a call, so the
    order in which they are tried does not matter. -/
theorem inspect_of_front {p : Preview} (h : inspect now limit query = .ok p) :
    (∃ front head, Call.head? (cleanQuery query) = some head ∧
      cleanQuery query = front ++ '(' :: head.rest ∧
      ∀ {now' limit' : Int64} {query' : List Char} {p' : Preview},
        front ++ ['('] <+: cleanQuery query' → inspect now' limit' query' = .ok p' →
          p.SameCall p') ∧
      Call.readers.Pairwise Call.Apart ∧
      ∀ order : List (List Char → Option Call.Head), order.Perm Call.readers →
        ∀ cs, order.findSome? (· cs) = Call.head? cs := by
  refine ⟨?_, Call.pairwise_readers, fun _ => Call.findSome?_readers⟩
  obtain ⟨call, front, closer, tail, hcut, hcalls⟩ := exists_cut_of_inspect h
  refine ⟨front, _, hcut.head?, hcut.text, ?_⟩
  rintro now' limit' query' p' ⟨rest', hrest'⟩ h'
  obtain ⟨call', front', closer', tail', hcut', hcalls'⟩ := exists_cut_of_inspect h'
  -- the other query has the opening of this one, and a text has one opening only
  have htext : front ++ '(' :: rest' =
      front' ++ '(' :: (call'.arguments.toList ++ closer' :: tail') := by
    rw [← hcut'.text, ← hrest', List.append_assoc]
    rfl
  obtain ⟨-, hshape, hcollection, hmethod⟩ := hcut.opening.unique hcut'.opening htext
  have hinj : Function.Injective String.toList := fun _ _ => String.toList_inj.1
  rw [← hshape, ← Option.map_injective hinj hcollection, ← hinj hmethod] at hcalls'
  exact hcalls.same hcalls'

/-- Two queries that begin alike, the second one with a filter and a chained call. -/
theorem inspect_of_front_find : ∃ p p', inspect 0 100 "db.users.find(\x7b\x7d)".toList = .ok p ∧
    inspect 0 100 "db.users.find(\x7ba: 1\x7d).limit(2)".toList = .ok p' ∧ p.SameCall p' := by
  obtain ⟨p, hp⟩ := exists_of_isOk (x := inspect 0 100 "db.users.find(\x7b\x7d)".toList)
    (by decide +kernel)
  obtain ⟨p', hp'⟩ := exists_of_isOk
    (x := inspect 0 100 "db.users.find(\x7ba: 1\x7d).limit(2)".toList) (by decide +kernel)
  obtain ⟨⟨front, head, hhead, htext, hsame⟩, -, -⟩ := inspect_of_front hp
  have hread : Call.head? (cleanQuery "db.users.find(\x7b\x7d)".toList) =
      some ⟨.collection, some "users".toList, "find".toList, "\x7b\x7d)".toList⟩ := by
    decide +kernel
  obtain rfl := Option.some.inj (hread.symm.trans hhead)
  have hclean : cleanQuery "db.users.find(\x7b\x7d)".toList =
      "db.users.find".toList ++ '(' :: "\x7b\x7d)".toList := by
    decide +kernel
  obtain rfl : "db.users.find".toList = front := List.append_cancel_right (hclean.symm.trans htext)
  refine ⟨p, p', hp, hp', hsame ⟨"\x7ba: 1\x7d).limit(2)".toList, ?_⟩ hp'⟩
  decide +kernel

end ShellQuery
