/-
  ShellQuery.Proofs.Options.Reading

  What a reader of options does with an object. It takes some keys, each with the values that it may
  have, and sets what the object has at these keys; the first entry with another value is an error
  that names its key (`Reads`). The readers of the methods are put together from those of single
  keys by one rule (`Reads.bind`): as no key is taken twice, what is read at a key is what the whole
  object has there.
-/
import ShellQuery.Proofs.Options.Listed

namespace ShellQuery

/-! ## Documents -/

namespace Document

variable {d d' : Document} {key k : String} {v : Value}

@[simp] theorem get?_erase_of_ne (d : Document) (h : key ≠ k) :
    (d.erase k).get? key = d.get? key := by
  induction d with
  | nil => rfl
  | cons field d ih =>
    by_cases hk : field.1 = k
    · simp [erase, get?, hk, h.symm]
    · simp [erase, get?, hk, ih]

@[simp] theorem returnsAfter_erase (d : Document) (h : "returnDocument" ≠ k)
    (h' : "returnNewDocument" ≠ k) : (d.erase k).returnsAfter = d.returnsAfter := by
  rw [returnsAfter, returnsAfter, get?_erase_of_ne d h, get?_erase_of_ne d h']

theorem erase_eq_filter (h : d.keys.Nodup) (key : String) :
    d.erase key = d.filter fun e => decide (e.1 ≠ key) := by
  induction d with
  | nil => rfl
  | cons field d ih =>
    obtain ⟨k, v⟩ := field
    simp only [keys, List.map_cons, List.nodup_cons, List.mem_map, not_exists, not_and] at h
    by_cases hk : k = key
    · have hrest : d.filter (fun e => decide (e.1 ≠ key)) = d :=
        List.filter_eq_self.2 fun e he => by simpa using fun hkey => h.1 e he (hkey.trans hk.symm)
      rw [erase, if_pos hk, List.filter_cons_of_neg (by simpa using hk), hrest]
    · rw [erase, if_neg hk, List.filter_cons_of_pos (by simpa using hk), ih h.2]

theorem get?_eq_some_iff (h : d.keys.Nodup) : d.get? key = some v ↔ (key, v) ∈ d := by
  induction d with
  | nil => simp [get?]
  | cons field d ih =>
    obtain ⟨k, w⟩ := field
    simp only [keys, List.map_cons, List.nodup_cons, List.mem_map, not_exists, not_and] at h
    by_cases hk : k = key
    · subst hk
      have hnot : (k, v) ∉ d := fun hmem => h.1 _ hmem rfl
      simp [get?, hnot, eq_comm]
    · simp [get?, hk, Ne.symm hk, ih h.2]

/-- What a document has at its keys does not depend on their order. -/
theorem get?_perm (h : d.keys.Nodup) (hperm : d'.Perm d) (key : String) :
    d'.get? key = d.get? key := by
  have hnodup : d'.keys.Nodup := (hperm.map Prod.fst).nodup_iff.2 h
  refine Option.ext fun v => ?_
  rw [get?_eq_some_iff hnodup, get?_eq_some_iff h, hperm.mem_iff]

/-- A document without some keys. -/
def without {α : Type} (d : Document) (keys : List (String × α)) : Document :=
  keys.foldl (fun d e => d.erase e.1) d

@[simp] theorem without_nil {α : Type} (d : Document) :
    d.without ([] : List (String × α)) = d := rfl

@[simp] theorem without_cons {α : Type} (d : Document) (e : String × α)
    (taken : List (String × α)) : d.without (e :: taken) = (d.erase e.1).without taken := rfl

theorem get?_without {α : Type} {taken : List (String × α)} (h : key ∉ taken.map Prod.fst)
    (d : Document) : (d.without taken).get? key = d.get? key := by
  induction taken generalizing d with
  | nil => rfl
  | cons e taken ih =>
    simp only [List.map_cons, List.mem_cons, not_or] at h
    exact (ih h.2 _).trans (get?_erase_of_ne d h.1)

theorem without_eq_filter {α : Type} (h : d.keys.Nodup) (taken : List (String × α)) :
    d.without taken = d.filter fun e => decide (e.1 ∉ taken.map Prod.fst) := by
  induction taken generalizing d with
  | nil => simp [without]
  | cons e taken ih =>
    have hnodup : (d.erase e.1).keys.Nodup := by
      rw [erase_eq_filter h]
      exact h.sublist (List.filter_sublist.map _)
    refine (ih hnodup).trans ?_
    rw [erase_eq_filter h, List.filter_filter]
    refine List.filter_congr fun e' _ => ?_
    rw [← Bool.decide_and, decide_eq_decide]
    simp only [List.map_cons, List.mem_cons, not_or, ne_eq]
    exact and_comm

end Document

/-! ## Readers -/

/-- The values that an option is read from: those that it may have, and every count that a double
    is. -/
def OptionRange.Takes (range : OptionRange) (v : Value) : Prop :=
  range.includes v = true ∨
    range = .typed .count ∧ ∃ n, v.integer? = some n ∧ 2 ^ (63 : Nat) ≤ n

/-- Whether the text at which a fault was found, or its wording, has a key in it. -/
def ArgumentFault.Names (fault : ArgumentFault) (fragment key : String) : Prop :=
  key.toList <:+: fragment.toList ∨ key.toList <:+: fault.message.toList

theorem infix_toList (before text after : String) :
    text.toList <:+: (before ++ text ++ after).toList :=
  ⟨before.toList, after.toList, by simp only [String.toList_append]⟩

/-- Whether an object has at each of some keys nothing, null, or a value that it may have. -/
def Document.Fits (d : Document) (taken : List (String × OptionRange)) : Prop :=
  ∀ key range v, (key, range) ∈ taken → d.get? key = some v → v = .null ∨ range.Takes v

/-- A reader takes some keys of an object, and sets what the object has there or names a key with
    a value that it may not have. -/
structure Reads {α : Type} (reader : OptionReader α) (taken : List (String × OptionRange))
    (value : Document → α) : Prop where
  ok : ∀ d, d.Fits taken → StateT.run reader d = .ok (value d, d.without taken)
  error : ∀ d, ¬ d.Fits taken → ∃ fragment fault key range v,
    StateT.run reader d = .error (.argument fragment fault) ∧ (key, range) ∈ taken ∧
      d.get? key = some v ∧ v ≠ .null ∧ ¬ range.Takes v ∧ fault.Names fragment key

namespace Reads

variable {α β : Type} {r : OptionReader α} {taken taken' : List (String × OptionRange)}
  {value : Document → α}

theorem pure (a : α) : Reads (Pure.pure a) [] fun _ => a := by
  refine ⟨fun d _ => rfl, fun d h => absurd ?_ h⟩
  intro key range v hmem
  cases hmem

theorem bind {f : α → OptionReader β} {w : α → Document → β} (h : Reads r taken value)
    (hf : ∀ a, Reads (f a) taken' (w a)) (hfresh : ∀ e ∈ taken', e.1 ∉ taken.map Prod.fst)
    (hlocal : ∀ a d, w a (d.without taken) = w a d) :
    Reads (r >>= f) (taken ++ taken') fun d => w (value d) d := by
  -- the second reader is given what the first has left, where its own keys are untouched
  have hkept (d : Document) {key : String} {range : OptionRange} (hmem : (key, range) ∈ taken') :
      (d.without taken).get? key = d.get? key := Document.get?_without (hfresh _ hmem) d
  constructor
  · intro d hd
    have hfirst : d.Fits taken := fun key range v hmem =>
      hd key range v (List.mem_append_left _ hmem)
    have hrest : (d.without taken).Fits taken' := fun key range v hmem hget =>
      hd key range v (List.mem_append_right _ hmem) (hkept d hmem ▸ hget)
    have hrun := (hf (value d)).ok _ hrest
    simp only [StateT.run_bind, h.ok d hfirst]
    refine hrun.trans ?_
    rw [hlocal, Document.without, Document.without, Document.without, List.foldl_append]
  · intro d hd
    -- the error is that of the first reader that finds something unfit
    by_cases hfirst : d.Fits taken
    · have hrest : ¬ (d.without taken).Fits taken' := fun hrest => hd fun key range v hmem hget =>
        (List.mem_append.1 hmem).elim (fun hmem => hfirst key range v hmem hget) fun hmem =>
          hrest key range v hmem ((hkept d hmem).trans hget)
      obtain ⟨fragment, fault, key, range, v, hrun, hmem, hget, hnot⟩ :=
        (hf (value d)).error _ hrest
      refine ⟨fragment, fault, key, range, v, ?_, List.mem_append_right _ hmem,
        (hkept d hmem).symm.trans hget, hnot⟩
      simp only [StateT.run_bind, h.ok d hfirst]
      exact hrun
    · obtain ⟨fragment, fault, key, range, v, hrun, hmem, hnot⟩ := h.error d hfirst
      refine ⟨fragment, fault, key, range, v, ?_, List.mem_append_left _ hmem, hnot⟩
      simp only [StateT.run_bind, hrun]
      rfl

end Reads

/-! ## Counts -/

/-- The nearest integer that 64 bits with a sign can hold. -/
def clamp (n : Int) : Int :=
  max (-2 ^ (63 : Nat)) (min (2 ^ (63 : Nat) - 1) n)

theorem clamp_of_mem {n : Int} (hlow : -2 ^ (63 : Nat) ≤ n) (hhigh : n < 2 ^ (63 : Nat)) :
    clamp n = n := by
  simp only [clamp]
  omega

theorem Value.toInt64?_eq (v : Value) : v.toInt64?.map Int64.toInt = v.integer?.map clamp := by
  -- integers fit as they are, and only a double has to be clamped
  cases v with
  | int32 n =>
    have hlow := n.le_toInt
    have hhigh := n.toInt_lt
    have hn : (Int64.ofInt n.toInt).toInt = n.toInt :=
      Int64.toInt_ofInt_of_le (by omega) (by omega)
    simp only [toInt64?, integer?, Option.map_some, hn, clamp]
    congr 1
    omega
  | int64 n =>
    have hlow := n.le_toInt
    have hhigh := n.toInt_lt
    simp only [toInt64?, integer?, Option.map_some, clamp]
    congr 1
    omega
  | double x =>
    have hn : (Int64.ofInt (clamp x.truncate)).toInt = clamp x.truncate :=
      Int64.toInt_ofInt_of_le (by simp only [clamp]; omega) (by simp only [clamp]; omega)
    by_cases hx : x.isIntegral = true
    · simp only [toInt64?, integer?, hx, if_true, Option.map_some]
      exact congrArg some hn
    · simp [toInt64?, integer?, hx]
  | _ => rfl

/-- A number is read as the nearest integer that 64 bits with a sign can hold. -/
theorem Value.toInt64?_eq_map (v : Value) :
    v.toInt64? = v.integer?.map fun n => Int64.ofInt (clamp n) := by
  have hread := v.toInt64?_eq
  cases hv : v.toInt64? with
  | none =>
    rw [hv] at hread
    rw [Option.map_eq_none_iff.1 hread.symm]
    rfl
  | some m =>
    rw [hv] at hread
    obtain ⟨n, hn, hm⟩ := Option.map_eq_some_iff.1 hread.symm
    rw [hn, Option.map_some, hm, Int64.ofInt_toInt]

/-- A count is read from the nearest 64-bit integer. -/
theorem OptionReader.count?_eq (bound : Nat) (v : Value) :
    count? bound v = v.integer?.bind fun n =>
      if 0 ≤ clamp n ∧ (clamp n).toNat < bound then some (clamp n).toNat else none := by
  have hclamp := v.toInt64?_eq
  cases hv : v.toInt64? with
  | none =>
    rw [hv] at hclamp
    have hnone : v.integer? = none := Option.map_eq_none_iff.1 hclamp.symm
    simp [count?, hv, hnone]
  | some m =>
    rw [hv] at hclamp
    obtain ⟨n, hn, hm⟩ := Option.map_eq_some_iff.1 hclamp.symm
    simp [count?, hv, hn, hm]

/-- A count is read of every number that is no negative one. -/
theorem OptionReader.count?_of_integer? {v : Value} {n : Int} (hn : v.integer? = some n) :
    count? (2 ^ (64 : Nat)) v = if 0 ≤ n then some (clamp n).toNat else none := by
  have hnonneg : 0 ≤ clamp n ↔ 0 ≤ n := by
    simp only [clamp]
    omega
  have hlt : (clamp n).toNat < 2 ^ (64 : Nat) := by
    simp only [clamp]
    omega
  rw [count?_eq, hn, Option.bind_some]
  simp only [hnonneg, hlt, and_true]

/-- A count is exact, but for a double that 64 bits with a sign cannot hold. -/
theorem OptionReader.count?_eq_natural? {bound : Nat} {v : Value}
    (h : bound < 2 ^ (63 : Nat) ∨ ∀ n, v.integer? = some n → n < 2 ^ (63 : Nat)) :
    count? bound v = v.natural? bound := by
  rw [count?_eq, Value.natural?]
  cases hv : v.integer? with
  | none => rfl
  | some n =>
    simp only [Option.bind_some]
    by_cases hn : n < 2 ^ (63 : Nat)
    · by_cases hnonneg : 0 ≤ n
      · rw [clamp_of_mem (by omega) hn]
      · have hnegative : clamp n < 0 := by
          simp only [clamp]
          omega
        rw [if_neg (by omega), if_neg (by omega)]
    · have hbound : bound < 2 ^ (63 : Nat) := h.resolve_right fun h => hn (h n hv)
      have hgreat : clamp n = 2 ^ (63 : Nat) - 1 := by
        simp only [clamp]
        omega
      rw [if_neg (by omega), if_neg (by omega)]

/-- A double that 64 bits with a sign cannot hold is read as the greatest integer that they can. -/
theorem OptionReader.count?_of_ge {v : Value} {n : Int} (hv : v.integer? = some n)
    (hn : 2 ^ (63 : Nat) ≤ n) : count? (2 ^ (64 : Nat)) v = some (2 ^ (63 : Nat) - 1) := by
  have hclamp : clamp n = 2 ^ (63 : Nat) - 1 := by
    simp only [clamp]
    omega
  rw [count?_eq, hv, Option.bind_some, hclamp]
  rfl

/-! ## Single keys -/

namespace OptionReader

variable {d : Document} {key : String} {v : Value}

/-- A reader that begins with the entry of a key goes on with the value there, if it is set. -/
theorem run_entry_of_value {α : Type} (f : Option Value → OptionReader α)
    (hget : d.get? key = some v) (hv : v ≠ .null) :
    StateT.run (entry key >>= f) d = StateT.run (f (some v)) (d.erase key) := by
  have hentry : StateT.run (entry key) d = .ok (some v, d.erase key) := by
    simp only [entry, StateT.run, hget]
    split
    · rename_i hnull
      cases hnull
      exact absurd rfl hv
    · rfl
  rw [StateT.run_bind, hentry]
  rfl

theorem run_entry_of_unset {α : Type} (f : Option Value → OptionReader α)
    (hunset : d.get? key = none ∨ d.get? key = some .null) :
    StateT.run (entry key >>= f) d = StateT.run (f none) (d.erase key) := by
  have hentry : StateT.run (entry key) d = .ok (none, d.erase key) := by
    rcases hunset with hget | hget <;> simp only [entry, StateT.run, hget]
  rw [StateT.run_bind, hentry]
  rfl

section
variable {α : Type} (kind : OperationKind) (wanted : OptionType) {read? : Value → Option α}

theorem run_typed_of_unset (hunset : d.get? key = none ∨ d.get? key = some .null) :
    StateT.run (typed kind key wanted read?) d = .ok (none, d.erase key) := by
  rw [typed, run_entry_of_unset _ hunset]
  rfl

theorem run_typed_of_some {a : α} (hget : d.get? key = some v) (hv : v ≠ .null)
    (ha : read? v = some a) :
    StateT.run (typed kind key wanted read?) d = .ok (some a, d.erase key) := by
  rw [typed, run_entry_of_value _ hget hv]
  simp only [ha]
  rfl

theorem run_typed_of_none (hget : d.get? key = some v) (hv : v ≠ .null) (hnone : read? v = none) :
    StateT.run (typed kind key wanted read?) d = .error (wrongType kind key wanted v) := by
  rw [typed, run_entry_of_value _ hget hv]
  simp only [hnone]
  rfl

end

theorem string_eq (kind : OperationKind) (key : String) :
    string kind key = typed kind key .string Value.string? := rfl

end OptionReader

/-- The fault of an option with a value of another type is found at the key. -/
theorem ArgumentFault.names_of_wrongType (fault : ArgumentFault) (key : String) (v : Value) :
    fault.Names (key ++ ": " ++ v.shown) key := by
  have hinfix := infix_toList "" key (": " ++ v.shown)
  rw [String.empty_append, ← String.append_assoc] at hinfix
  exact .inl hinfix

namespace Reads

open OptionReader

variable {α : Type} (kind : OperationKind) (key : String)

/-- A reader of one key, by what it does with an object that sets nothing there, one that sets a
    value that the option may have, and one that sets another. -/
theorem of_key {r : OptionReader α} {range : OptionRange} {value : Document → α}
    (hunset : ∀ d, d.get? key = none ∨ d.get? key = some .null →
      StateT.run r d = .ok (value d, d.erase key))
    (hset : ∀ d v, d.get? key = some v → v ≠ .null → range.Takes v →
      StateT.run r d = .ok (value d, d.erase key))
    (hother : ∀ d v, d.get? key = some v → v ≠ .null → ¬ range.Takes v →
      ∃ fragment fault, StateT.run r d = .error (.argument fragment fault) ∧
        fault.Names fragment key) : Reads r [(key, range)] value := by
  constructor
  · intro d hd
    cases hget : d.get? key with
    | none => exact hunset d (.inl hget)
    | some v =>
      by_cases hv : v = .null
      · exact hunset d (.inr (hv ▸ hget))
      · exact hset d v hget hv ((hd key range v (.head _) hget).resolve_left hv)
  · intro d hd
    obtain ⟨v, hget, hv, hv'⟩ : ∃ v, d.get? key = some v ∧ v ≠ .null ∧ ¬ range.Takes v := by
      refine Classical.byContradiction fun hnone => hd fun k range' v hmem hget => ?_
      cases List.mem_singleton.1 hmem
      by_cases hv : v = .null
      · exact .inl hv
      · exact .inr (Classical.byContradiction fun hv' => hnone ⟨v, hget, hv, hv'⟩)
    obtain ⟨fragment, fault, hrun, hnames⟩ := hother d v hget hv hv'
    exact ⟨fragment, fault, key, range, v, hrun, .head _, hget, hv, hv', hnames⟩

/-- An option of a type is read at its key. -/
theorem typed (wanted : OptionType) {read? : Value → Option α} (hnull : read? .null = none)
    (hrange : ∀ v, v ≠ .null → ((OptionRange.typed wanted).Takes v ↔ (read? v).isSome = true)) :
    Reads (OptionReader.typed kind key wanted read?) [(key, .typed wanted)]
      fun d => (d.get? key).bind read? := by
  refine of_key key (fun d h => ?_) (fun d v hget hv hv' => ?_) fun d v hget hv hv' => ?_
  · have hnone : (d.get? key).bind read? = none := by
      rcases h with h | h <;> simp [h, hnull]
    rw [hnone, run_typed_of_unset kind wanted h]
  · obtain ⟨a, ha⟩ := Option.isSome_iff_exists.1 ((hrange v hv).1 hv')
    rw [hget, Option.bind_some, ha, run_typed_of_some kind wanted hget hv ha]
  · have hnone : read? v = none := by
      simpa using fun h => hv' ((hrange v hv).2 h)
    exact ⟨_, _, run_typed_of_none kind wanted hget hv hnone, ArgumentFault.names_of_wrongType ..⟩

theorem boolean : Reads (OptionReader.boolean kind key) [(key, .typed .boolean)]
    fun d => (d.get? key).bind Value.boolean? :=
  typed kind key .boolean rfl fun v _ => by
    cases v <;> simp [OptionRange.Takes, OptionRange.includes, Value.boolean?]

theorem string : Reads (OptionReader.string kind key) [(key, .typed .string)]
    fun d => (d.get? key).bind Value.string? :=
  typed kind key .string rfl fun v _ => by
    cases v <;> simp [OptionRange.Takes, OptionRange.includes, Value.string?]

theorem document : Reads (OptionReader.document kind key) [(key, .typed .object)]
    fun d => (d.get? key).bind Value.object? :=
  typed kind key .object rfl fun v _ => by
    cases v <;> simp [OptionRange.Takes, OptionRange.includes, Value.object?]

theorem index : Reads (OptionReader.index kind key) [(key, .typed .indexReference)]
    fun d => (d.get? key).bind Value.index? :=
  typed kind key .indexReference rfl fun v _ => by
    cases v <;> simp [OptionRange.Takes, OptionRange.includes, Value.index?]

theorem count : Reads (OptionReader.count kind key) [(key, .typed .count)]
    fun d => (d.get? key).bind (OptionReader.count? (2 ^ (64 : Nat))) := by
  refine typed kind key .count rfl fun v _ => ?_
  by_cases hgreat : ∃ n, v.integer? = some n ∧ 2 ^ (63 : Nat) ≤ n
  · have htakes : (OptionRange.typed .count).Takes v := .inr ⟨rfl, hgreat⟩
    obtain ⟨n, hn, hle⟩ := hgreat
    have hsome : (OptionReader.count? (2 ^ (64 : Nat)) v).isSome = true := by
      rw [OptionReader.count?_of_ge hn hle]
      rfl
    exact iff_of_true htakes hsome
  · have hexact : OptionReader.count? (2 ^ (64 : Nat)) v = v.natural? (2 ^ (64 : Nat)) :=
      OptionReader.count?_eq_natural? <| .inr fun n hn =>
        Int.not_le.1 fun hle => hgreat ⟨n, hn, hle⟩
    simp only [OptionRange.Takes, hgreat, and_false, or_false, hexact]
    rfl

theorem count32 : Reads (OptionReader.count32 kind key) [(key, .typed .count32)]
    fun d => (d.get? key).bind (Value.natural? (2 ^ (32 : Nat))) := by
  have hexact : OptionReader.count? (2 ^ (32 : Nat)) = Value.natural? (2 ^ (32 : Nat)) :=
    funext fun v => OptionReader.count?_eq_natural? (.inl (by decide))
  rw [OptionReader.count32, hexact]
  exact typed kind key .count32 rfl fun v _ => by simp [OptionRange.Takes, OptionRange.includes]

end Reads

/-! ## Lists of objects -/

namespace OperationKind

variable (kind : OperationKind) (name : String)

theorem documentsOf_of_objects {items : List Value} {ds : List Document}
    (h : items.mapM Value.object? = some ds) : kind.documentsOf name items = .ok ds := by
  induction items generalizing ds with
  | nil =>
    cases h
    rfl
  | cons v items ih =>
    rw [List.mapM_cons] at h
    obtain ⟨d, hd, h⟩ := Option.bind_eq_some_iff.1 h
    obtain ⟨rest, hrest, h⟩ := Option.bind_eq_some_iff.1 h
    cases h
    cases v <;> cases hd
    rw [documentsOf, ih hrest]
    rfl

theorem documentsOf_of_other {items : List Value} (h : items.mapM Value.object? = none) :
    ∃ v : Value,
      kind.documentsOf name items = .error (.argument v.shown (.notObjects kind name)) := by
  induction items with
  | nil => cases h
  | cons v items ih =>
    cases hd : v.object? with
    | none =>
      refine ⟨v, ?_⟩
      cases v with
      | document => cases hd
      | _ => rfl
    | some d =>
      rw [List.mapM_cons, hd] at h
      have hrest : items.mapM Value.object? = none := by
        cases hitems : items.mapM Value.object? with
        | none => rfl
        | some ds => simp [hitems] at h
      obtain ⟨w, hw⟩ := ih hrest
      refine ⟨w, ?_⟩
      cases v <;> cases hd
      rw [documentsOf, hw]
      rfl

/-- The argument that is no list of objects is named in the wording. -/
theorem documentArray_of_other {v : Value} (hv : v ≠ .null) (h : v.objects? = none) :
    ∃ fragment fault, kind.documentArray (some v) name = .error (.argument fragment fault) ∧
      fault.Names fragment name := by
  cases v with
  | null => exact absurd rfl hv
  | array items =>
    have hitems : items.mapM Value.object? = none := h
    obtain ⟨w, hw⟩ := documentsOf_of_other kind name hitems
    refine ⟨w.shown, .notObjects kind name, ?_, .inr (infix_toList (kind.name ++ " expects ") ..)⟩
    rw [documentArray, hw]
    rfl
  | _ => exact ⟨_, .notArray kind name, rfl, .inr (infix_toList (kind.name ++ " expects ") ..)⟩

end OperationKind

namespace Reads

open OptionReader

variable (kind : OperationKind) (key : String)

theorem documents : Reads (OptionReader.documents kind key) [(key, .objects)]
    fun d => (d.get? key).bind Value.objects? := by
  refine of_key key (fun d h => ?_) (fun d v hget hv hv' => ?_) fun d v hget hv hv' => ?_
  · have hnone : (d.get? key).bind Value.objects? = none := by
      rcases h with h | h <;> rw [h] <;> rfl
    rw [OptionReader.documents, run_entry_of_unset _ h, hnone]
    rfl
  · have hlist : v.objects?.isSome = true := hv'.resolve_right fun h => nomatch h.1
    obtain ⟨ds, hds⟩ := Option.isSome_iff_exists.1 hlist
    have harray : kind.documentArray (some v) key = .ok (some ds) := by
      cases v <;> simp only [Value.objects?, reduceCtorEq] at hds
      rw [OperationKind.documentArray, kind.documentsOf_of_objects key hds]
      rfl
    rw [OptionReader.documents, run_entry_of_value _ hget hv, hget, Option.bind_some, harray, hds]
    rfl
  · have hlist : v.objects? = none := by
      simpa [OptionRange.Takes, OptionRange.includes] using hv'
    obtain ⟨fragment, fault, harray, hnames⟩ :=
      kind.documentArray_of_other key hv hlist
    refine ⟨fragment, fault, ?_, hnames⟩
    rw [OptionReader.documents, run_entry_of_value _ hget hv, harray]
    rfl

/-- Whether the changed document is asked for, by the word at `returnDocument` if there is one. -/
theorem returnDocument (returnNew : Option Bool) :
    Reads (OptionReader.string kind "returnDocument" >>= fun word? =>
        match word? with
        | none => Pure.pure (returnNew.getD false)
        | some word =>
          if word = "after" then Pure.pure true
          else if word = "before" then Pure.pure false
          else throw (.argument word .badReturnDocument))
      [("returnDocument", .moment)]
      fun d => ((d.get? "returnDocument").bind Value.after?).getD (returnNew.getD false) := by
  refine of_key _ (fun d h => ?_) (fun d v hget hv hv' => ?_) fun d v hget hv hv' => ?_
  · -- without the key the default of the method stands
    have hnone : (d.get? "returnDocument").bind Value.after? = none := by
      rcases h with h | h <;> rw [h] <;> rfl
    rw [StateT.run_bind, string_eq, run_typed_of_unset kind .string h, hnone]
    rfl
  · -- with a word that is allowed, the word decides
    have hword : v.after?.isSome = true := hv'.resolve_right fun h => nomatch h.1
    cases v with
    | string word =>
      have hread : Value.string? (.string word) = some word := rfl
      rw [StateT.run_bind, string_eq, run_typed_of_some kind .string hget hv hread, hget]
      by_cases hafter : word = "after"
      · subst hafter
        rfl
      by_cases hbefore : word = "before"
      · subst hbefore
        rfl
      simp [Value.after?, hafter, hbefore] at hword
    | _ => cases hword
  · -- anything else is refused, and both refusals name the key
    have hword : v.after? = none := by
      simpa [OptionRange.Takes, OptionRange.includes] using hv'
    cases hread : v.string? with
    | none =>
      refine ⟨_, .badOption kind "returnDocument" .string, ?_,
        ArgumentFault.names_of_wrongType _ "returnDocument" v⟩
      rw [StateT.run_bind, string_eq, run_typed_of_none kind .string hget hv hread]
      rfl
    | some word =>
      obtain rfl : v = .string word := by
        cases v <;> cases hread
        rfl
      obtain ⟨hafter, hbefore⟩ : word ≠ "after" ∧ word ≠ "before" := by
        constructor <;> rintro rfl <;> cases hword
      refine ⟨word, .badReturnDocument, ?_,
        .inr (infix_toList "" "returnDocument" " must be \"before\" or \"after\"")⟩
      rw [StateT.run_bind, string_eq, run_typed_of_some kind .string hget hv hread]
      simp only [Bind.bind, Except.bind, hafter, hbefore, if_false]
      rfl

/-! ## The options of each method -/

theorem returnAfter : Reads (OptionReader.returnAfter kind)
    [("returnNewDocument", .typed .boolean), ("returnDocument", .moment)]
    Document.returnsAfter :=
  (boolean kind "returnNewDocument").bind (returnDocument kind) (by simp)
    (by simp)

theorem findOneSpec : Reads (OptionReader.findOneSpec kind)
    [("projection", .typed .object), ("sort", .typed .object), ("skip", .typed .count)]
    (FindOneSpec.ofOptions (count? (2 ^ (64 : Nat)))) :=
  (document kind "projection").bind (fun _ => (document kind "sort").bind (fun _ =>
    (count kind "skip").bind (fun _ => .pure _)
    (by simp) (by simp)) (by simp) (by simp)) (by simp) (by simp)

theorem aggregateSpec : Reads (OptionReader.aggregateSpec kind)
    [("allowDiskUse", .typed .boolean), ("batchSize", .typed .count32),
      ("maxTimeMS", .typed .count), ("comment", .typed .string), ("hint", .typed .indexReference)]
    (AggregateSpec.ofOptions (count? (2 ^ (64 : Nat)))) :=
  (boolean kind "allowDiskUse").bind (fun _ => (count32 kind "batchSize").bind (fun _ =>
    (count kind "maxTimeMS").bind (fun _ => (string kind "comment").bind (fun _ =>
    (index kind "hint").bind (fun _ => .pure _)
    (by simp) (by simp)) (by simp) (by simp)) (by simp) (by simp)) (by simp) (by simp))
    (by simp) (by simp)

theorem countSpec : Reads (OptionReader.countSpec kind)
    [("limit", .typed .count), ("skip", .typed .count), ("maxTimeMS", .typed .count),
      ("hint", .typed .indexReference)]
    (CountSpec.ofOptions (count? (2 ^ (64 : Nat)))) :=
  (count kind "limit").bind (fun _ => (count kind "skip").bind (fun _ =>
    (count kind "maxTimeMS").bind (fun _ => (index kind "hint").bind (fun _ => .pure _)
    (by simp) (by simp)) (by simp) (by simp)) (by simp) (by simp)) (by simp) (by simp)

theorem updateSpec : Reads (OptionReader.updateSpec kind)
    [("upsert", .typed .boolean), ("arrayFilters", .objects), ("hint", .typed .indexReference)]
    WriteSpec.ofOptions :=
  (boolean kind "upsert").bind (fun _ => (documents kind "arrayFilters").bind (fun _ =>
    (index kind "hint").bind (fun _ => .pure _)
    (by simp) (by simp)) (by simp) (by simp)) (by simp) (by simp)

theorem deleteSpec : Reads (OptionReader.deleteSpec kind) [("hint", .typed .indexReference)]
    WriteSpec.ofDeletion :=
  (index kind "hint").bind (fun _ => .pure _) (by simp) (by simp)

theorem findOneAndUpdateSpec : Reads (OptionReader.findOneAndUpdateSpec kind)
    [("projection", .typed .object), ("sort", .typed .object), ("upsert", .typed .boolean),
      ("returnNewDocument", .typed .boolean), ("returnDocument", .moment),
      ("arrayFilters", .objects)]
    FindAndModifySpec.ofOptions :=
  (document kind "projection").bind (fun _ => (document kind "sort").bind (fun _ =>
    (boolean kind "upsert").bind (fun _ => (returnAfter kind).bind (fun _ =>
    (documents kind "arrayFilters").bind (fun _ => .pure _)
    (by simp) (by simp)) (by simp) (by simp)) (by simp) (by simp)) (by simp) (by simp))
    (by simp) (by simp)

theorem findOneAndReplaceSpec : Reads (OptionReader.findOneAndReplaceSpec kind)
    [("projection", .typed .object), ("sort", .typed .object), ("upsert", .typed .boolean),
      ("returnNewDocument", .typed .boolean), ("returnDocument", .moment)]
    fun d => { FindAndModifySpec.ofOptions d with arrayFilters := none } :=
  (document kind "projection").bind (fun _ => (document kind "sort").bind (fun _ =>
    (boolean kind "upsert").bind (fun _ => (returnAfter kind).bind (fun _ => .pure _)
    (by simp) (by simp)) (by simp) (by simp)) (by simp) (by simp)) (by simp) (by simp)

theorem findOneAndDeleteSpec : Reads (OptionReader.findOneAndDeleteSpec kind)
    [("projection", .typed .object), ("sort", .typed .object)] FindAndModifySpec.ofDeletion :=
  (document kind "projection").bind (fun _ => (document kind "sort").bind (fun _ => .pure _)
    (by simp) (by simp)) (by simp) (by simp)

theorem indexSpec : Reads (OptionReader.indexSpec kind)
    [("name", .typed .string), ("unique", .typed .boolean), ("sparse", .typed .boolean),
      ("expireAfterSeconds", .typed .count), ("partialFilterExpression", .typed .object),
      ("background", .typed .boolean)]
    (IndexSpec.ofOptions (count? (2 ^ (64 : Nat)))) :=
  (string kind "name").bind (fun _ => (boolean kind "unique").bind (fun _ =>
    (boolean kind "sparse").bind (fun _ => (count kind "expireAfterSeconds").bind (fun _ =>
    (document kind "partialFilterExpression").bind (fun _ =>
    (boolean kind "background").bind (fun _ => .pure _)
    (by simp) (by simp)) (by simp) (by simp)) (by simp) (by simp)) (by simp) (by simp))
    (by simp) (by simp)) (by simp) (by simp)

end Reads

/-! ## Whole objects -/

/-- Whether an entry is at one of some keys, with null or a value that it may have. -/
def Taken (taken : List (String × OptionRange)) (entry : String × Value) : Prop :=
  ∃ range, (entry.1, range) ∈ taken ∧ (entry.2 = .null ∨ range.Takes entry.2)

/-- The entries of an object are taken if what it has at the keys fits and nothing is left over. -/
theorem forall_taken_iff {d : Document} {taken : List (String × OptionRange)}
    (hnodup : d.keys.Nodup) (hkeys : (taken.map Prod.fst).Nodup) :
    (∀ entry ∈ d, Taken taken entry) ↔ d.Fits taken ∧ d.without taken = [] := by
  have hleft : d.without taken = [] ↔ ∀ entry ∈ d, entry.1 ∈ taken.map Prod.fst := by
    rw [Document.without_eq_filter hnodup, List.filter_eq_nil_iff]
    simp only [decide_eq_true_eq, not_not]
  rw [hleft]
  constructor
  · intro h
    refine ⟨fun key range v hmem hget => ?_, fun entry hmem => ?_⟩
    · obtain ⟨range', hmem', hv⟩ := h _ ((Document.get?_eq_some_iff hnodup).1 hget)
      obtain rfl : range' = range :=
        congrArg Prod.snd (List.inj_on_of_nodup_map hkeys hmem' hmem rfl)
      exact hv
    · obtain ⟨range, hrange, -⟩ := h entry hmem
      exact List.mem_map_of_mem hrange
  · rintro ⟨hfits, hmem⟩ entry hentry
    obtain ⟨⟨key, range⟩, hrange, hkey⟩ := List.mem_map.1 (hmem entry hentry)
    obtain rfl : key = entry.1 := hkey
    exact ⟨range, hrange, hfits _ range _ hrange ((Document.get?_eq_some_iff hnodup).2 hentry)⟩

namespace Reads

variable {α : Type} {reader : OptionReader α} {taken : List (String × OptionRange)}
  {value : Document → α} {d : Document}

/-- What is read of an object depends on no more than what it has at the keys that are taken. -/
theorem run_eq_ok (h : Reads reader taken value) {kind : OperationKind} {a : α}
    (hrun : OptionReader.run kind reader d = .ok a) : a = value d := by
  obtain ⟨⟨b, rest⟩, hreader, hrest⟩ := bind_eq_ok.1 hrun
  by_cases hfits : d.Fits taken
  · cases hreader.symm.trans (h.ok d hfits)
    cases hwithout : d.without taken <;> rw [hwithout] at hrest <;> cases hrest
    rfl
  · obtain ⟨_, _, _, _, _, herror, -⟩ := h.error d hfits
    cases hreader.symm.trans herror

/-- An object is read if its entries are taken. -/
theorem run_of_taken (h : Reads reader taken value) (hkeys : (taken.map Prod.fst).Nodup)
    (hnodup : d.keys.Nodup) (kind : OperationKind) (hd : ∀ entry ∈ d, Taken taken entry) :
    OptionReader.run kind reader d = .ok (value d) := by
  obtain ⟨hfits, hnone⟩ := (forall_taken_iff hnodup hkeys).1 hd
  rw [OptionReader.run, h.ok d hfits, hnone]
  rfl

/-- The error of any other object names the key of an entry that is not taken. -/
theorem run_of_not_taken (h : Reads reader taken value) (hkeys : (taken.map Prod.fst).Nodup)
    (hnodup : d.keys.Nodup) (kind : OperationKind) (hd : ¬ ∀ entry ∈ d, Taken taken entry) :
    ∃ fragment fault, OptionReader.run kind reader d = .error (.argument fragment fault) ∧
      ∃ entry ∈ d, ¬ Taken taken entry ∧ fault.Names fragment entry.1 := by
  by_cases hfits : d.Fits taken
  · -- the first entry that is left over has a key that is not taken
    obtain ⟨entry, rest, hrest⟩ : ∃ entry rest, d.without taken = entry :: rest := by
      refine List.exists_cons_of_ne_nil fun hnone => hd ?_
      exact (forall_taken_iff hnodup hkeys).2 ⟨hfits, hnone⟩
    have hmem : entry ∈ d.without taken := hrest ▸ .head _
    rw [Document.without_eq_filter hnodup, List.mem_filter] at hmem
    refine ⟨entry.1, .unknownOption kind entry.1, ?_, entry, hmem.1, ?_, .inl List.infix_rfl⟩
    · rw [OptionReader.run, h.ok d hfits, hrest]
      rfl
    · rintro ⟨range, hrange, -⟩
      have hnot : entry.1 ∉ taken.map Prod.fst := by simpa using hmem.2
      exact hnot (List.mem_map_of_mem hrange)
  · obtain ⟨fragment, fault, key, range, v, hrun, hmem, hget, hv, hother, hnames⟩ := h.error d hfits
    refine ⟨fragment, fault, ?_, (key, v), (Document.get?_eq_some_iff hnodup).1 hget, ?_, hnames⟩
    · rw [OptionReader.run, hrun]
      rfl
    · rintro ⟨range', hmem', hnull | htakes⟩
      · exact hv hnull
      · obtain rfl : range' = range :=
          congrArg Prod.snd (List.inj_on_of_nodup_map hkeys hmem' hmem rfl)
        exact hother htakes

end Reads

end ShellQuery
