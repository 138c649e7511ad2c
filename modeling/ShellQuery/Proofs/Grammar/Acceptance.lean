/-
  ShellQuery.Proofs.Grammar.Acceptance

  The reader of argument lists accepts exactly the texts that derive from the grammar, and reads
  from them what the derivation denotes. That what is read derives goes by induction on the depth
  of the readers that call each other. That what derives is read goes by induction on the
  derivation, at any depth of at least twice the length of the text.
-/
import Mathlib.Data.List.Induction
import ShellQuery.Proofs.Grammar.Scalar

namespace ShellQuery

open Text Argument

/-! ## Documents -/

namespace Document

theorem get?_eq_none {key : String} {d : Document} (h : key ∉ d.keys) : d.get? key = none := by
  induction d with
  | nil => rfl
  | cons field d ih =>
    simp only [keys, List.map_cons, List.mem_cons, not_or] at h
    rw [get?, if_neg (Ne.symm h.1), ih h.2]

theorem nodup_insert (key : String) (value : Value) {d : Document} (h : d.keys.Nodup) :
    (d.insert key value).keys.Nodup := by
  rw [keys_insert]
  split
  · exact h
  · rename_i hkey
    rw [List.nodup_append]
    refine ⟨h, by simp, fun a ha b hb => ?_⟩
    rintro rfl
    exact hkey (List.mem_singleton.1 hb ▸ ha)

theorem nodup_merge {target : Document} (h : target.keys.Nodup) (extra : Document) :
    (target.merge extra).keys.Nodup := by
  induction extra generalizing target with
  | nil => exact h
  | cons field extra ih => exact ih (nodup_insert field.1 field.2 h)

/-- A document is its keys in order and the value at each. -/
theorem ext_of_get? {a b : Document} (hnodup : a.keys.Nodup) (hkeys : a.keys = b.keys)
    (hget : ∀ key, a.get? key = b.get? key) : a = b := by
  induction a generalizing b with
  | nil =>
    cases b with
    | nil => rfl
    | cons field b => cases hkeys
  | cons field a ih =>
    obtain ⟨k, v⟩ := field
    cases b with
    | nil => cases hkeys
    | cons field b =>
      obtain ⟨k', v'⟩ := field
      simp only [keys, List.map_cons, List.cons.injEq, List.nodup_cons] at hkeys hnodup
      obtain ⟨rfl, htail⟩ := hkeys
      have hv : v = v' := by simpa [get?] using hget k
      rw [hv, ih hnodup.2 htail]
      intro key
      by_cases hkey : k = key
      · subst hkey
        rw [get?_eq_none hnodup.1, get?_eq_none (by rw [keys, ← htail]; exact hnodup.1)]
      · simpa [get?, hkey] using hget key

end Document

namespace Grammar

theorem Settles.merge (written : Document) : Settles written (Document.merge [] written) := by
  induction written using List.reverseRecOn with
  | nil => exact ⟨rfl, fun _ => rfl⟩
  | append_singleton written field ih =>
    obtain ⟨k, v⟩ := field
    have hmerge : Document.merge [] (written ++ [(k, v)]) =
        (Document.merge [] written).insert k v := by
      simp [Document.merge]
    rw [hmerge]
    constructor
    · rw [Document.keys_insert, ih.keys, Document.keys, Document.keys, List.map_append,
        List.eraseDups_append]
      by_cases hmem : k ∈ written.map Prod.fst
      · simp [hmem, List.removeAll]
      · simp [hmem, List.removeAll, List.eraseDups_cons]
    · intro key
      rw [List.reverse_append, List.reverse_singleton, List.singleton_append, Document.get?]
      by_cases hkey : k = key
      · rw [if_pos hkey, ← hkey, Document.get?_insert_self]
      · rw [if_neg hkey, Document.get?_insert_of_ne v _ (Ne.symm hkey), ih.last]

/-- Written members make up one document. -/
theorem Settles.eq_merge {written settled : Document} (h : Settles written settled) :
    settled = Document.merge [] written := by
  have hmerge := Settles.merge written
  refine Document.ext_of_get? ?_ (h.keys.trans hmerge.keys.symm) fun key =>
    (h.last key).trans (hmerge.last key).symm
  have hempty : Document.keys [] = [] := rfl
  rw [h.keys, ← hmerge.keys]
  exact Document.nodup_merge (hempty ▸ List.nodup_nil) written

/-! ## Lists with one more -/

section
variable {now : Int64} {depth : Nat} {front k left right cs back rest body tail : List Char}
  {name : String} {v : Value} {vs : List Value} {written : Document}

theorem Arguments.cons (hfront : Blanks front) (h : Literal now cs v) (hback : Blanks back)
    (hrest : Arguments now rest vs) :
    Arguments now (front ++ (cs ++ (back ++ ',' :: rest))) (v :: vs) := by
  cases hrest with
  | empty hgap => simpa using Arguments.items (.one hfront h hback) (.comma hgap)
  | items hitems htail => simpa using Arguments.items (.more hfront h hback hitems) htail

theorem Arguments.single (hfront : Blanks front) (h : Literal now cs v) (hback : Blanks back) :
    Arguments now (front ++ (cs ++ back)) [v] := by
  simpa using Arguments.items (.one hfront h hback) .absent

theorem Fields.cons (hfront : Blanks front) (hkey : Key k name) (hleft : Blanks left)
    (hright : Blanks right) (h : Literal now cs v) (hback : Blanks back)
    (hrest : Fields now rest written) :
    Fields now (front ++ (k ++ (left ++ ':' :: (right ++ (cs ++ (back ++ ',' :: rest))))))
      ((name, v) :: written) := by
  cases hrest with
  | empty hgap =>
    simpa using Fields.members (.one hfront hkey hleft hright h hback) (.comma hgap)
  | members hmembers htail =>
    simpa using Fields.members (.more hfront hkey hleft hright h hback hmembers) htail

theorem Fields.single (hfront : Blanks front) (hkey : Key k name) (hleft : Blanks left)
    (hright : Blanks right) (h : Literal now cs v) (hback : Blanks back) :
    Fields now (front ++ (k ++ (left ++ ':' :: (right ++ (cs ++ back))))) [(name, v)] := by
  simpa using Fields.members (.one hfront hkey hleft hright h hback) .absent

/-! ## What is read derives -/

/-- The reader of values takes what derives. -/
def LiteralsDerive (now : Int64) (depth : Nat) : Prop :=
  ∀ cs v rest, value now depth cs = .ok (v, rest) → ∃ taken, cs = taken ++ rest ∧ Literal now taken v

/-- The reader of items takes what derives, after the items that were read before. -/
def ItemsDerive (now : Int64) (depth : Nat) : Prop :=
  ∀ read cs v rest, items now depth read cs = .ok (v, rest) →
    ∃ body vs, cs = body ++ ']' :: rest ∧ Arguments now body vs ∧ v = .array (read ++ vs)

/-- The reader of fields takes what derives, after the fields that were read before. -/
def FieldsDerive (now : Int64) (depth : Nat) : Prop :=
  ∀ read cs v rest, fields now depth read cs = .ok (v, rest) →
    ∃ body written, cs = body ++ '}' :: rest ∧ Fields now body written ∧
      v = .document (read.merge written)

theorem literalsDerive_succ (hitems : ItemsDerive now depth) (hfields : FieldsDerive now depth) :
    LiteralsDerive now (depth + 1) := by
  intro cs v rest h
  by_cases hbrace : cs.head? = some '{'
  · obtain ⟨tail, rfl⟩ := List.head?_eq_some_iff.1 hbrace
    obtain ⟨body, written, rfl, hderives, rfl⟩ := hfields [] tail v rest (by simpa [value] using h)
    exact ⟨_, by simp, .object hderives (.merge written)⟩
  by_cases hbracket : cs.head? = some '['
  · -- An array is what stands between its brackets, like the text of a list.
    obtain ⟨tail, rfl⟩ := List.head?_eq_some_iff.1 hbracket
    obtain ⟨body, vs, rfl, hderives, rfl⟩ := hitems [] tail v rest (by simpa [value] using h)
    exact ⟨_, by simp, .array hderives⟩
  obtain ⟨taken, hcs, hscalar⟩ := Scalar.of_read hbrace hbracket h
  exact ⟨taken, hcs, .scalar hscalar⟩

theorem itemsDerive_succ (hvalue : LiteralsDerive now depth) (hitems : ItemsDerive now depth) :
    ItemsDerive now (depth + 1) := by
  intro read cs v rest h
  obtain ⟨front, hfront, rfl, rfl⟩ | ⟨front, body, w, back, c, after, hfront, rfl, hw, hback, hc⟩ :=
    items_eq_ok h
  · exact ⟨front, [], rfl, .empty hfront, by simp⟩
  obtain ⟨taken, rfl, hliteral⟩ := hvalue _ _ _ hw
  -- A comma goes on with what the rest derives from, which may be nothing: then it trails.
  rcases hc with ⟨rfl, hmore⟩ | ⟨rfl, rfl, rfl⟩
  · obtain ⟨body, vs, rfl, hderives, rfl⟩ := hitems _ _ _ _ hmore
    exact ⟨_, w :: vs, by simp, .cons hfront hliteral hback hderives, by simp⟩
  · exact ⟨_, [w], by simp, .single hfront hliteral hback, rfl⟩

theorem fieldsDerive_succ (hvalue : LiteralsDerive now depth) (hfields : FieldsDerive now depth) :
    FieldsDerive now (depth + 1) := by
  intro read cs v rest h
  obtain ⟨front, hfront, rfl, rfl⟩ | ⟨front, text, name, left, right, body, w, back, c, after,
    hfront, rfl, hkey, hleft, hright, hw, hback, hc⟩ := fields_eq_ok h
  · exact ⟨front, [], rfl, .empty hfront, rfl⟩
  obtain ⟨k, rfl, hderivesKey⟩ := Key.of_read hkey
  obtain ⟨taken, rfl, hliteral⟩ := hvalue _ _ _ hw
  rcases hc with ⟨rfl, hmore⟩ | ⟨rfl, rfl, rfl⟩
  · obtain ⟨body, written, rfl, hderives, rfl⟩ := hfields _ _ _ _ hmore
    exact ⟨_, (name, w) :: written, by simp,
      .cons hfront hderivesKey hleft hright hliteral hback hderives, rfl⟩
  · exact ⟨_, [(name, w)], by simp, .single hfront hderivesKey hleft hright hliteral hback, rfl⟩

theorem derive_of_read (now : Int64) (depth : Nat) :
    LiteralsDerive now depth ∧ ItemsDerive now depth ∧ FieldsDerive now depth := by
  induction depth with
  | zero =>
    refine ⟨fun cs v rest h => ?_, fun read cs v rest h => ?_, fun read cs v rest h => ?_⟩
    · simp [value] at h
    · simp [items] at h
    · simp [fields] at h
  | succ depth ih =>
    obtain ⟨hvalue, hitems, hfields⟩ := ih
    exact ⟨literalsDerive_succ hitems hfields, itemsDerive_succ hvalue hitems,
      fieldsDerive_succ hvalue hfields⟩

theorem Literal.of_read (h : readValue now cs = .ok (v, rest)) :
    ∃ taken, cs = taken ++ rest ∧ Literal now taken v :=
  (derive_of_read now _).1 cs v rest h

/-- The values that are read up to the end of a text derive, after those that were read before. -/
theorem Arguments.of_read {steps : Nat} {read : List Value}
    (h : values now steps read cs = .ok vs) : ∃ ws, vs = read ++ ws ∧ Arguments now cs ws := by
  induction steps generalizing read cs with
  | zero => simp [values] at h
  | succ steps ih =>
    obtain ⟨hblank, rfl⟩ | ⟨front, body, w, back, after, hfront, rfl, hw, hback, hafter⟩ :=
      values_eq_ok h
    · exact ⟨[], by simp, .empty hblank⟩
    obtain ⟨taken, rfl, hliteral⟩ := Literal.of_read hw
    rcases hafter with ⟨rfl, rfl⟩ | ⟨tail, rfl, hmore⟩
    · exact ⟨[w], rfl, by simpa using Arguments.single hfront hliteral hback⟩
    · obtain ⟨ws, rfl, hderives⟩ := ih hmore
      exact ⟨w :: ws, by simp, .cons hfront hliteral hback hderives⟩

/-! ## What derives is read -/

theorem Key.read_before (h : Key k name) (hleft : Blanks left) (rest : List Char) :
    key (k ++ (left ++ ':' :: rest)) = .ok (name, left ++ ':' :: rest) :=
  key_append ((stops_mark (by decide) rest).append hleft) h.read

mutual

/-- A value is read in front of what may follow it. -/
theorem Literal.read {cs : List Char} {v : Value} (h : Literal now cs v) (depth : Nat)
    {rest : List Char} (hrest : Stops rest) (hdepth : 2 * cs.length ≤ depth) :
    value now depth (cs ++ rest) = .ok (v, rest) := by
  match h with
  | .scalar hscalar =>
    -- A scalar has a first character, so that the depth is at least two.
    have hread : value now 1 cs = .ok (v, []) := hscalar.read
    obtain ⟨c, tail, rfl, -⟩ := isFirst_of_value hread
    rw [List.length_cons] at hdepth
    obtain ⟨depth, rfl⟩ := Nat.exists_eq_add_of_le' (show 1 ≤ depth by omega)
    exact value_append hrest hread
  | .array hitems =>
    simp only [List.length_cons, List.length_append, List.length_nil] at hdepth
    obtain ⟨depth, rfl⟩ := Nat.exists_eq_add_of_le' (show 1 ≤ depth by omega)
    have hread := hitems.read depth [] rest (by omega)
    simpa [value] using hread
  | .object hfields hsettles =>
    simp only [List.length_cons, List.length_append, List.length_nil] at hdepth
    obtain ⟨depth, rfl⟩ := Nat.exists_eq_add_of_le' (show 1 ≤ depth by omega)
    have hread := hfields.read depth [] rest (by omega)
    rw [hsettles.eq_merge]
    simpa [value] using hread

/-- What stands between brackets is read up to and with the closing bracket. -/
theorem Arguments.read {cs : List Char} {vs : List Value} (h : Arguments now cs vs) (depth : Nat)
    (read : List Value) (rest : List Char) (hdepth : 2 * cs.length + 1 ≤ depth) :
    items now depth read (cs ++ ']' :: rest) = .ok (.array (read ++ vs), rest) := by
  match h with
  | .empty hgap =>
    obtain ⟨depth, rfl⟩ := Nat.exists_eq_add_of_le' (show 1 ≤ depth by omega)
    rw [items_end hgap, List.append_nil]
  | .items hitems htail =>
    rw [List.append_assoc]
    exact hitems.read htail depth read rest hdepth

/-- Items are read up to and with the closing bracket after them. -/
theorem Items.read {cs : List Char} {vs : List Value} (h : Items now cs vs) {tail : List Char}
    (htail : Trailing tail) (depth : Nat) (read : List Value) (rest : List Char)
    (hdepth : 2 * (cs ++ tail).length + 1 ≤ depth) :
    items now depth read (cs ++ (tail ++ ']' :: rest)) = .ok (.array (read ++ vs), rest) := by
  obtain ⟨depth, rfl⟩ := Nat.exists_eq_add_of_le' (show 1 ≤ depth by omega)
  match h with
  | @Items.one _ front cs back v hfront hv hback =>
    simp only [List.length_append] at hdepth
    -- After the last item stands the closing bracket, or a comma and then the bracket.
    cases htail with
    | absent =>
      have hvalue : value now depth (cs ++ (back ++ ']' :: rest)) = .ok (v, back ++ ']' :: rest) :=
        hv.read depth ((stops_mark (by decide) rest).append hback) (by omega)
      simpa using items_step read hfront hvalue hback (.inr rfl)
    | @comma gap hgap =>
      have hvalue : value now depth (cs ++ (back ++ ',' :: (gap ++ ']' :: rest))) =
          .ok (v, back ++ ',' :: (gap ++ ']' :: rest)) :=
        hv.read depth ((stops_mark (by decide) _).append hback) (by omega)
      rw [List.length_cons] at hdepth
      obtain ⟨depth, rfl⟩ := Nat.exists_eq_add_of_le' (show 1 ≤ depth by omega)
      simpa [items_end hgap] using items_step read hfront hvalue hback (.inl rfl)
  | @Items.more _ front cs back others v vs hfront hv hback hmore =>
    simp only [List.length_append, List.length_cons] at hdepth
    have hvalue : value now depth (cs ++ (back ++ ',' :: (others ++ (tail ++ ']' :: rest)))) =
        .ok (v, back ++ ',' :: (others ++ (tail ++ ']' :: rest))) :=
      hv.read depth ((stops_mark (by decide) _).append hback) (by omega)
    have hitems := hmore.read htail depth (read ++ [v]) rest (by simp; omega)
    simpa [hitems] using items_step read hfront hvalue hback (.inl rfl)

/-- What stands between braces is read up to and with the closing brace. -/
theorem Fields.read {cs : List Char} {written : Document} (h : Fields now cs written)
    (depth : Nat) (read : Document) (rest : List Char) (hdepth : 2 * cs.length + 1 ≤ depth) :
    fields now depth read (cs ++ '}' :: rest) = .ok (.document (read.merge written), rest) := by
  match h with
  | .empty hgap =>
    obtain ⟨depth, rfl⟩ := Nat.exists_eq_add_of_le' (show 1 ≤ depth by omega)
    rw [fields_end hgap]
    rfl
  | .members hmembers htail =>
    rw [List.append_assoc]
    exact hmembers.read htail depth read rest hdepth

/-- Members are read up to and with the closing brace after them. -/
theorem Members.read {cs : List Char} {written : Document} (h : Members now cs written)
    {tail : List Char} (htail : Trailing tail) (depth : Nat) (read : Document) (rest : List Char)
    (hdepth : 2 * (cs ++ tail).length + 1 ≤ depth) :
    fields now depth read (cs ++ (tail ++ '}' :: rest)) =
      .ok (.document (read.merge written), rest) := by
  obtain ⟨depth, rfl⟩ := Nat.exists_eq_add_of_le' (show 1 ≤ depth by omega)
  -- on the derivation, by structural recursion: it is one of three that are mutual
  match h with
  | @Members.one _ front k left right cs back name v hfront hkey hleft hright hv hback =>
    simp only [List.length_append, List.length_cons] at hdepth
    cases htail with
    -- the last member, and the brace behind it
    | absent =>
      have hvalue : value now depth (cs ++ (back ++ '}' :: rest)) = .ok (v, back ++ '}' :: rest) :=
        hv.read depth ((stops_mark (by decide) rest).append hback) (by omega)
      have hname := hkey.read_before hleft (right ++ (cs ++ (back ++ '}' :: rest)))
      simpa [Document.merge] using
        fields_step read hfront hname hleft hright hvalue hback (.inr rfl)
    -- the last member, a comma, and the brace behind it
    | @comma gap hgap =>
      have hvalue : value now depth (cs ++ (back ++ ',' :: (gap ++ '}' :: rest))) =
          .ok (v, back ++ ',' :: (gap ++ '}' :: rest)) :=
        hv.read depth ((stops_mark (by decide) _).append hback) (by omega)
      have hname := hkey.read_before hleft (right ++ (cs ++ (back ++ ',' :: (gap ++ '}' :: rest))))
      rw [List.length_cons] at hdepth
      obtain ⟨depth, rfl⟩ := Nat.exists_eq_add_of_le' (show 1 ≤ depth by omega)
      simpa [fields_end hgap, Document.merge] using
        fields_step read hfront hname hleft hright hvalue hback (.inl rfl)
  | @Members.more _ front k left right cs back others name v written hfront hkey hleft hright hv hback
      hmore =>
    simp only [List.length_append, List.length_cons] at hdepth
    -- the first of several: the others are read into the document that has it
    have hvalue : value now depth (cs ++ (back ++ ',' :: (others ++ (tail ++ '}' :: rest)))) =
        .ok (v, back ++ ',' :: (others ++ (tail ++ '}' :: rest))) :=
      hv.read depth ((stops_mark (by decide) _).append hback) (by omega)
    have hname := hkey.read_before hleft
      (right ++ (cs ++ (back ++ ',' :: (others ++ (tail ++ '}' :: rest)))))
    have hfields := hmore.read htail depth (read.insert name v) rest (by simp; omega)
    simpa [hfields, Document.merge] using
      fields_step read hfront hname hleft hright hvalue hback (.inl rfl)

end

/-- A value is read at the depth that its text grants. -/
theorem Literal.readValue (h : Literal now cs v) (hrest : Stops rest) :
    readValue now (cs ++ rest) = .ok (v, rest) :=
  h.read _ hrest (by simp; omega)

/-- Items that take up a text are read to its end. -/
theorem Items.values {cs : List Char} {vs : List Value} (h : Items now cs vs) {tail : List Char}
    (htail : Trailing tail) (steps : Nat) (read : List Value)
    (hsteps : (cs ++ tail).length < steps) :
    values now steps read (cs ++ tail) = .ok (read ++ vs) := by
  obtain ⟨steps, rfl⟩ := Nat.exists_eq_add_of_le' (show 1 ≤ steps by omega)
  match h with
  | @Items.one _ front cs back v hfront hv hback =>
    cases htail with
    | absent =>
      have hstops : Stops back := by simpa using Stops.nil.append hback
      simpa using values_last hfront (hv.readValue hstops) hback
    | @comma gap hgap =>
      have hvalue := hv.readValue ((stops_mark (c := ',') (by decide) gap).append hback)
      simp only [List.length_append, List.length_cons] at hsteps
      obtain ⟨steps, rfl⟩ := Nat.exists_eq_add_of_le' (show 1 ≤ steps by omega)
      simpa [values_end hgap] using values_more (steps + 1) read hfront hvalue hback
  | @Items.more _ front cs back others v vs hfront hv hback hmore =>
    have hvalue := hv.readValue ((stops_mark (c := ',') (by decide) (others ++ tail)).append hback)
    simp only [List.length_append, List.length_cons] at hsteps
    have hvalues := hmore.values htail steps (read ++ [v]) (by simp; omega)
    simpa [hvalues] using values_more steps read hfront hvalue hback

theorem Arguments.values {cs : List Char} {vs : List Value} (h : Arguments now cs vs) :
    parseArguments now cs = .ok vs := by
  cases h with
  | empty hgap => exact values_end hgap
  | items hitems htail => exact hitems.values htail _ [] (Nat.lt_succ_self _)

end

end Grammar

/-! ## Acceptance -/

/-- A list of values is read from a text just in case the text derives from the grammar and the
    derivation denotes the list. -/
theorem parseArguments_eq_ok_iff (now : Int64) (cs : List Char) (vs : List Value) :
    parseArguments now cs = .ok vs ↔ Grammar.Arguments now cs vs := by
  constructor
  · intro h
    obtain ⟨ws, rfl, hderives⟩ := Grammar.Arguments.of_read h
    exact hderives
  · exact Grammar.Arguments.values

end ShellQuery
