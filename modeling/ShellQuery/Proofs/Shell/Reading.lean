/-
  ShellQuery.Proofs.Shell.Reading

  The plain text of a list of arguments is accepted. Every tree is read to its end, by induction on
  the tree, at any depth of at least twice its length.
-/
import ShellQuery.Proofs.Shell.Literals

namespace ShellQuery

open Text Argument Shell

variable {now : Int64} {depth : Nat} {cs front left right body back rest : List Char} {v : Value}

/-! ## Where a value or a key begins -/

/-- A character that is no blank and closes no bracket. -/
def isFirst (c : Char) : Bool :=
  !isBlank c && c ≠ ']' && c ≠ '}' && c ≠ ','

theorem isFirst_of_class {p : Char → Bool} (hblank : ∀ c, isBlank c = true → p c = false)
    (hmark : [']', '}', ','].all (fun c => !p c) = true) {c : Char} (hc : p c = true) :
    isFirst c = true := by
  have hne : ∀ d ∈ [']', '}', ','], c ≠ d := by
    rintro d hd rfl
    have hd := List.all_eq_true.1 hmark _ hd
    simp [hc] at hd
  have hb : isBlank c = false := by
    cases hb : isBlank c with
    | false => rfl
    | true => simp [hblank c hb] at hc
  simp [isFirst, hb, hne ']' (by simp), hne '}' (by simp), hne ',' (by simp)]

/-- A value begins with something that is no blank and closes no bracket. -/
theorem isFirst_of_value (h : value now depth cs = .ok (v, rest)) :
    ∃ c tail, cs = c :: tail ∧ isFirst c = true := by
  cases depth with
  | zero => simp [value] at h
  | succ depth =>
    cases cs with
    | nil => simp [value] at h
    | cons c tail =>
      refine ⟨c, tail, rfl, ?_⟩
      simp only [value] at h
      split at h
      · rename_i hc
        rw [hc]; decide
      split at h
      · rename_i hc
        rw [hc]; decide
      split at h
      · rename_i hc
        simp only [Bool.or_eq_true, decide_eq_true_eq] at hc
        rcases hc with rfl | rfl <;> decide
      split at h
      · rename_i hc
        rw [hc]; decide
      split at h
      · rename_i hc
        simp only [Bool.or_eq_true, decide_eq_true_eq] at hc
        rcases hc with ((hc | rfl) | rfl) | rfl
        · exact isFirst_of_class (fun _ => isAsciiDigit_of_isBlank) (by decide) hc
        all_goals decide
      split at h
      · rename_i hc
        exact isFirst_of_class (fun _ => isIdentStart_of_isBlank) (by decide +kernel) hc
      · cases h

theorem isFirst_of_key {name : String} (h : key cs = .ok (name, rest)) :
    ∃ c tail, cs = c :: tail ∧ isFirst c = true := by
  cases cs with
  | nil => cases h
  | cons c tail =>
    refine ⟨c, tail, rfl, ?_⟩
    simp only [key] at h
    split at h
    · rename_i hc
      simp only [Bool.or_eq_true, decide_eq_true_eq] at hc
      rcases hc with rfl | rfl <;> decide
    split at h
    · rename_i hc
      exact isFirst_of_class (fun _ => isKeyChar_of_isBlank) (by decide +kernel) hc
    · cases h

theorem trimStart_mark {c : Char} (hfront : Blanks front) (hc : isBlank c = false) (cs : List Char) :
    trimStart (front ++ c :: cs) = c :: cs := by
  rw [trimStart_blanks_append hfront, trimStart_cons hc]

theorem trimStart_first {c : Char} (hfront : Blanks front) (hc : isFirst c = true) (cs : List Char) :
    trimStart (front ++ c :: cs) = c :: cs ∧ c ≠ ']' ∧ c ≠ '}' := by
  simp only [isFirst, Bool.and_eq_true, Bool.not_eq_true', decide_eq_true_eq] at hc
  exact ⟨trimStart_mark hfront hc.1.1.1 cs, hc.1.1.2, hc.1.2⟩

/-! ## Items -/

theorem items_end {read : List Value} (hfront : Blanks front) :
    items now (depth + 1) read (front ++ ']' :: rest) = .ok (.array read, rest) := by
  simp [items, trimStart_mark hfront (c := ']') rfl]

/-- An item and the mark after it are read. -/
theorem items_step (read : List Value) {c : Char} (hfront : Blanks front)
    (hvalue : value now depth body = .ok (v, back ++ c :: rest)) (hback : Blanks back)
    (hc : c = ',' ∨ c = ']') :
    items now (depth + 1) read (front ++ body) =
      if c = ',' then items now depth (read ++ [v]) rest else .ok (.array (read ++ [v]), rest) := by
  obtain ⟨d, tail, rfl, hd⟩ := isFirst_of_value hvalue
  obtain ⟨htrim, hne, -⟩ := trimStart_first hfront hd tail
  have hafter : trimStart (back ++ c :: rest) = c :: rest :=
    trimStart_mark hback (by rcases hc with rfl | rfl <;> rfl) rest
  simp only [items, htrim, List.head?_cons, Option.some.injEq, hne, if_false, hvalue, bind,
    Except.bind, hafter]
  rcases hc with rfl | rfl <;> rfl

/-! ## Fields -/

theorem fields_end {read : Document} (hfront : Blanks front) :
    fields now (depth + 1) read (front ++ '}' :: rest) = .ok (.document read, rest) := by
  simp [fields, trimStart_mark hfront (c := '}') rfl]

/-- A field and the mark after it are read. -/
theorem fields_step (read : Document) {name : String} {c : Char} {k : List Char}
    (hfront : Blanks front) (hkey : key k = .ok (name, left ++ ':' :: (right ++ body)))
    (hleft : Blanks left) (hright : Blanks right)
    (hvalue : value now depth body = .ok (v, back ++ c :: rest)) (hback : Blanks back)
    (hc : c = ',' ∨ c = '}') :
    fields now (depth + 1) read (front ++ k) =
      if c = ',' then fields now depth (read.insert name v) rest
      else .ok (.document (read.insert name v), rest) := by
  obtain ⟨d, tail, rfl, hd⟩ := isFirst_of_key hkey
  obtain ⟨htrim, -, hne⟩ := trimStart_first hfront hd tail
  obtain ⟨e, tail', rfl, he⟩ := isFirst_of_value hvalue
  have hcolon : trimStart (left ++ ':' :: (right ++ e :: tail')) = ':' :: (right ++ e :: tail') :=
    trimStart_mark hleft rfl _
  have hbody := (trimStart_first hright he tail').1
  have hafter : trimStart (back ++ c :: rest) = c :: rest :=
    trimStart_mark hback (by rcases hc with rfl | rfl <;> rfl) rest
  simp only [fields, htrim, List.head?_cons, Option.some.injEq, hne, if_false, hkey, bind,
    Except.bind, hcolon, expect, if_true, hbody, hvalue, hafter]
  rcases hc with rfl | rfl <;> rfl

/-! ## Trees -/

theorem stops_mark {c : Char} (hc : c ∈ [',', ':', ']', '}', ')']) (rest : List Char) :
    Stops (c :: rest) := by
  intro d hd
  obtain rfl : c = d := by simpa using hd
  exact .inr hc

theorem exists_value_digits (now : Int64) (depth : Nat) (n : Digits) (hrest : Stops rest) :
    ∃ v, value now (depth + 1) (n.text ++ rest) = .ok (v, rest) := by
  obtain ⟨v, hread⟩ := value_whole now 0 ⟨none, false, n, by simp⟩
  exact ⟨v, value_append hrest hread⟩

/-- A field of a timestamp and the mark after it are read. -/
theorem exists_fields_digits (now : Int64) (depth : Nat) (read : Document) {c m : Char}
    (hfront : Blanks front) (hc : c = 't' ∨ c = 'i') (n : Digits) (hm : m = ',' ∨ m = '}')
    (rest : List Char) :
    ∃ v, fields now (depth + 2) read (front ++ '"' :: c :: '"' :: ':' :: ' ' :: (n.text ++ m :: rest))
      = if m = ',' then fields now (depth + 1) (read.insert (.ofList [c]) v) rest
        else .ok (.document (read.insert (.ofList [c]) v), rest) := by
  have hstops : Stops (m :: rest) := stops_mark (by rcases hm with rfl | rfl <;> decide) rest
  obtain ⟨v, hread⟩ := exists_value_digits now depth n hstops
  have hplain : ∀ d ∈ [c], Wrapper.isQuote d = false ∧ d ≠ '\\' := by
    rcases hc with rfl | rfl <;> decide
  have hkey : key ('"' :: c :: '"' :: ':' :: ' ' :: (n.text ++ m :: rest)) =
      .ok (.ofList [c], [] ++ ':' :: ([' '] ++ (n.text ++ m :: rest))) := by
    simpa [Wrapper.quote, key] using
      string_append (string_quote hplain) (':' :: ' ' :: (n.text ++ m :: rest))
  have hvalue : value now (depth + 1) (n.text ++ m :: rest) = .ok (v, [] ++ m :: rest) := hread
  exact ⟨v, fields_step read hfront hkey .nil .space hvalue .nil hm⟩

/-- The object that stands for a timestamp is read. -/
theorem exists_value_timestampOf (seconds increment : Digits) (hdepth : 4 ≤ depth)
    (rest : List Char) :
    ∃ v, value now depth (Call.timestampOf seconds.text increment.text ++ rest) = .ok (v, rest) := by
  obtain ⟨depth, rfl⟩ := Nat.exists_eq_add_of_le' hdepth
  obtain ⟨s, hseconds⟩ := exists_fields_digits now (depth + 1) [] (c := 't') (m := ',') .nil (.inl rfl)
    seconds (.inl rfl) (' ' :: '"' :: 'i' :: '"' :: ':' :: ' ' :: (increment.text ++ '}' :: rest))
  obtain ⟨i, hincrement⟩ := exists_fields_digits now depth (Document.insert (.ofList ['t']) s [])
    (c := 'i') (m := '}') .space (.inr rfl) increment (.inr rfl) rest
  rw [if_pos rfl] at hseconds
  rw [if_neg (by decide)] at hincrement
  refine ⟨.document (Document.insert (.ofList ['i']) i (Document.insert (.ofList ['t']) s [])), ?_⟩
  simpa [Call.timestampOf, value] using hseconds.trans hincrement

/-- The literal of a call is read at any depth of at least twice its length. -/
theorem exists_value_literal (x : Shell.Call) (hrest : Stops rest) (hdepth : 2 * x.literal.length ≤ depth) :
    ∃ v, value now depth (x.literal ++ rest) = .ok (v, rest) := by
  by_cases hx : x.wrapper = .timestamp
  · cases x with
    | timestamp seconds left right increment =>
      refine exists_value_timestampOf seconds increment ?_ rest
      simp only [Call.literal, Call.timestampOf, List.length_append, List.length_cons] at hdepth
      omega
    | _ => cases hx
  · obtain ⟨v, hread⟩ := value_literal now 0 x hx
    obtain ⟨c, tail, hliteral, -⟩ := isFirst_of_value hread
    rw [hliteral, List.length_cons] at hdepth
    obtain ⟨depth, rfl⟩ := Nat.exists_eq_add_of_le' (show 1 ≤ depth by omega)
    exact ⟨v, value_append hrest hread⟩

mutual

/-- A value is read in front of what may follow it. -/
theorem exists_value_tree (depth : Nat) {rest : List Char} (v : Tree) (hrest : Stops rest)
    (hdepth : 2 * (v.text fun _ => true).length ≤ depth) :
    ∃ x, value now depth ((v.text fun _ => true) ++ rest) = .ok (x, rest) := by
  match v with
  | .scalar s =>
    obtain ⟨x, hread⟩ := s.read now
    obtain ⟨c, tail, hs, -⟩ := isFirst_of_value hread
    rw [Tree.text, hs, List.length_cons] at hdepth
    obtain ⟨depth, rfl⟩ := Nat.exists_eq_add_of_le' (show 1 ≤ depth by omega)
    exact ⟨x, value_append hrest hread⟩
  | .call s =>
    simp only [Tree.text, Site.written, if_true] at hdepth ⊢
    exact exists_value_literal s.call hrest hdepth
  | .array items =>
    simp only [Tree.text, List.length_append, List.length_cons, List.length_nil] at hdepth
    obtain ⟨depth, rfl⟩ := Nat.exists_eq_add_of_le' (show 1 ≤ depth by omega)
    obtain ⟨x, hread⟩ := exists_items_tree depth rest items (by omega) []
    exact ⟨x, by simpa [Tree.text, value] using hread⟩
  | .object fields =>
    simp only [Tree.text, List.length_append, List.length_cons, List.length_nil] at hdepth
    obtain ⟨depth, rfl⟩ := Nat.exists_eq_add_of_le' (show 1 ≤ depth by omega)
    obtain ⟨x, hread⟩ := exists_fields_tree depth rest fields (by omega) []
    exact ⟨x, by simpa [Tree.text, value] using hread⟩

/-- The items of an array are read up to and with its closing bracket. -/
theorem exists_items_tree (depth : Nat) (rest : List Char) (vs : Items)
    (hdepth : 2 * (vs.text fun _ => true).length + 1 ≤ depth) (read : List Value) :
    ∃ x, items now depth read ((vs.text fun _ => true) ++ ']' :: rest) = .ok (x, rest) := by
  obtain ⟨depth, rfl⟩ := Nat.exists_eq_add_of_le' (show 1 ≤ depth by omega)
  match vs with
  | .none gap => exact ⟨_, items_end gap.blank⟩
  | .last before v after =>
    simp only [Items.text, List.length_append] at hdepth
    obtain ⟨x, hread⟩ := exists_value_tree depth v
      ((stops_mark (c := ']') (by decide) rest).append after.blank) (by omega)
    have hstep := items_step read before.blank hread after.blank (.inr rfl)
    rw [if_neg (by decide)] at hstep
    exact ⟨_, by simpa [Items.text] using hstep⟩
  | .more before v after vs =>
    simp only [Items.text, List.length_append, List.length_cons] at hdepth
    obtain ⟨x, hread⟩ := exists_value_tree depth v
      ((stops_mark (c := ',') (by decide) ((vs.text fun _ => true) ++ ']' :: rest)).append
        after.blank) (by omega)
    obtain ⟨y, hmore⟩ := exists_items_tree depth rest vs (by omega)
      (read ++ [x])
    have hstep := items_step read before.blank hread after.blank (.inl rfl)
    rw [if_pos rfl, hmore] at hstep
    exact ⟨y, by simpa [Items.text] using hstep⟩

/-- The fields of an object are read up to and with its closing brace. -/
theorem exists_fields_tree (depth : Nat) (rest : List Char) (vs : Fields)
    (hdepth : 2 * (vs.text fun _ => true).length + 1 ≤ depth) (read : Document) :
    ∃ x, fields now depth read ((vs.text fun _ => true) ++ '}' :: rest) = .ok (x, rest) := by
  obtain ⟨depth, rfl⟩ := Nat.exists_eq_add_of_le' (show 1 ≤ depth by omega)
  match vs with
  | .none gap => exact ⟨_, fields_end gap.blank⟩
  | .last before k left right v after =>
    simp only [Fields.text, List.length_append, List.length_cons] at hdepth
    obtain ⟨x, hread⟩ := exists_value_tree depth v
      ((stops_mark (c := '}') (by decide) rest).append after.blank) (by omega)
    obtain ⟨name, hname⟩ := k.read
    have hkey := key_append ((stops_mark (c := ':') (by decide) (right.text ++
      ((v.text fun _ => true) ++ (after.text ++ '}' :: rest)))).append left.blank) hname
    have hstep := fields_step read before.blank hkey left.blank right.blank hread
      after.blank (.inr rfl)
    rw [if_neg (by decide)] at hstep
    exact ⟨_, by simpa [Fields.text] using hstep⟩
  | .more before k left right v after vs =>
    simp only [Fields.text, List.length_append, List.length_cons] at hdepth
    obtain ⟨x, hread⟩ := exists_value_tree depth v
      ((stops_mark (c := ',') (by decide) ((vs.text fun _ => true) ++ '}' :: rest)).append
        after.blank) (by omega)
    obtain ⟨name, hname⟩ := k.read
    have hkey := key_append ((stops_mark (c := ':') (by decide) (right.text ++
      ((v.text fun _ => true) ++ (after.text ++ ',' :: ((vs.text fun _ => true) ++ '}' :: rest))))).append
        left.blank) hname
    obtain ⟨y, hmore⟩ := exists_fields_tree depth rest vs (by omega)
      (read.insert name x)
    have hstep := fields_step read before.blank hkey left.blank right.blank hread
      after.blank (.inl rfl)
    rw [if_pos rfl, hmore] at hstep
    exact ⟨y, by simpa [Fields.text] using hstep⟩

end

/-! ## Lists -/

theorem values_end {steps : Nat} {read : List Value} (hfront : Blanks front) :
    values now (steps + 1) read front = .ok read := by
  have htrim : trimStart front = [] := List.dropWhile_eq_nil_iff.2 hfront
  simp [values, htrim]

theorem values_last {steps : Nat} {read : List Value} (hfront : Blanks front)
    (hvalue : readValue now body = .ok (v, back)) (hback : Blanks back) :
    values now (steps + 1) read (front ++ body) = .ok (read ++ [v]) := by
  obtain ⟨c, tail, rfl, hc⟩ := isFirst_of_value hvalue
  have hafter : trimStart back = [] := List.dropWhile_eq_nil_iff.2 hback
  simp [values, (trimStart_first hfront hc tail).1, hvalue, bind, Except.bind, hafter]

theorem values_more (steps : Nat) (read : List Value) (hfront : Blanks front)
    (hvalue : readValue now body = .ok (v, back ++ ',' :: rest)) (hback : Blanks back) :
    values now (steps + 1) read (front ++ body) = values now steps (read ++ [v]) rest := by
  obtain ⟨c, tail, rfl, hc⟩ := isFirst_of_value hvalue
  have hafter : trimStart (back ++ ',' :: rest) = ',' :: rest := trimStart_mark hback rfl rest
  simp [values, (trimStart_first hfront hc tail).1, hvalue, bind, Except.bind, hafter, expect]

theorem exists_readValue_tree (now : Int64) (v : Tree) (hrest : Stops rest) :
    ∃ x, readValue now ((v.text fun _ => true) ++ rest) = .ok (x, rest) := by
  refine exists_value_tree _ v hrest ?_
  rw [List.length_append]
  omega

theorem exists_values_tree (vs : Items) (steps : Nat)
    (hsteps : (vs.text fun _ => true).length < steps) (read : List Value) :
    ∃ ws, values now steps read (vs.text fun _ => true) = .ok ws := by
  obtain ⟨steps, rfl⟩ := Nat.exists_eq_add_of_le' (show 1 ≤ steps by omega)
  match vs with
  | .none gap => exact ⟨read, values_end gap.blank⟩
  | .last before v after =>
    obtain ⟨x, hread⟩ := exists_readValue_tree now v
      (by simpa using Stops.nil.append after.blank)
    exact ⟨_, values_last before.blank hread after.blank⟩
  | .more before v after vs =>
    simp only [Items.text, List.length_append, List.length_cons] at hsteps
    obtain ⟨x, hread⟩ := exists_readValue_tree now v
      ((stops_mark (c := ',') (by decide) (vs.text fun _ => true)).append after.blank)
    obtain ⟨ws, hmore⟩ := exists_values_tree vs steps (by omega) (read ++ [x])
    exact ⟨ws, (values_more steps read before.blank hread after.blank).trans hmore⟩

/-- The plain text of a list of arguments is accepted. -/
theorem exists_parseArguments_plain (now : Int64) (vs : Items) :
    ∃ ws, parseArguments now vs.plain = .ok ws :=
  exists_values_tree vs _ (Nat.lt_succ_self _) []

end ShellQuery
