/-
  ShellQuery.Proofs.Draft.Normalization

  The normalizer on drafts. Every rule leaves a draft a draft: whatever it replaces and whatever it
  misses, the text that it returns is still that of the draft, with some calls replaced. A rule may
  meet what earlier rules put in, so what is put in is looked at first.
-/
import ShellQuery.Proofs.Draft.Site
import ShellQuery.Proofs.Shell.Normalization

namespace ShellQuery.Draft

open Text Wrapper
open Shell (Gap)

variable {w : Wrapper} {cs rest : List Char}

/-! ## What is put in the place of a call -/

/-- What a rule puts in the place of a call: a string, a date, or a payload without its quotes. -/
inductive Replacement : List Char → Prop where
  | string {content : List Char} (h : ∀ c ∈ content, isQuote c = false ∧ c ≠ '\\') :
    Replacement (quote content)
  | date {content : List Char} (h : ∀ c ∈ content, isQuote c = false ∧ c ≠ '\\') :
    Replacement (Shell.Call.dateOf (quote content))
  | now : Replacement (Shell.Call.dateOf [])
  | bare {cs : List Char} (h : Bare cs) : Replacement cs

theorem bare_of_class {p : Char → Bool} (hblank : ∀ c, isBlank c = true → p c = false)
    (hmark : (',' :: marks).all (fun m => !p m) = true) (hne : cs ≠ []) (hcs : ∀ c ∈ cs, p c = true) :
    Bare cs := by
  obtain ⟨c, tail, rfl⟩ := List.exists_cons_of_ne_nil hne
  rw [List.all_cons, Bool.and_eq_true] at hmark
  refine ⟨⟨c, .head _, ?_⟩, fun d hd => ⟨isInert_of_class hmark.2 (hcs d hd), ?_⟩⟩
  · cases hc : isBlank c with
    | false => rfl
    | true => simp [hblank c hc] at hcs
  · rintro rfl
    simp [hcs _ hd] at hmark

/-- A minus sign or a digit of any script. -/
def isIntegerChar (c : Char) : Bool :=
  c = '-' || isWordDigit c

theorem isIntegerChar_of_integer? {digits : List Char} (h : integer? cs = some (digits, rest)) :
    digits ≠ [] ∧ ∀ c ∈ digits, isIntegerChar c = true := by
  have hrun : ∀ {cs taken}, run? isWordDigit cs = some (taken, rest) →
      taken ≠ [] ∧ ∀ c ∈ taken, isIntegerChar c = true := by
    intro cs taken hrun
    obtain ⟨htaken, hne, -⟩ := run?_eq_some hrun
    refine ⟨hne, fun c hc => ?_⟩
    have hdigit : isWordDigit c = true := List.mem_takeWhile_imp (htaken ▸ hc)
    simp [isIntegerChar, hdigit]
  simp only [integer?] at h
  split at h
  · obtain ⟨⟨ds, rest'⟩, hread, heq⟩ := Option.map_eq_some_iff.1 h
    cases heq
    refine ⟨List.cons_ne_nil _ _, ?_⟩
    simp only [List.mem_cons, forall_eq_or_imp]
    exact ⟨rfl, (hrun hread).2⟩
  · exact hrun h

theorem bare_of_amount {n : Amount} (h : cs ∈ n.literal?) : Bare cs := by
  have hblank : ∀ c, isBlank c = true → isIntegerChar c = false := by
    intro c hc
    simp [isIntegerChar, isWordDigit_of_isBlank hc, ne_of_isBlank hc (d := '-') rfl]
  have hbare : ∀ {cs}, cs ≠ [] → (∀ c ∈ cs, isIntegerChar c = true) → Bare cs :=
    bare_of_class hblank (by decide +kernel)
  cases n with
  | whole n =>
    cases h
    obtain ⟨c, tail, hn, -⟩ := exists_cons_of_whole n
    refine hbare (by simp [hn]) fun c hc => ?_
    rcases List.mem_append.1 hc with hc | hc
    · split at hc
      · rw [List.mem_singleton.1 hc]; rfl
      · cases hc
    · simp [isIntegerChar, isWordDigit_of_isAsciiDigit (n.digits.digit c hc)]
  | quoted x =>
    obtain ⟨⟨digits, after⟩, hread, htaken⟩ := Option.bind_eq_some_iff.1 h
    simp only at htaken
    split at htaken
    · cases htaken
      obtain ⟨hne, hdigits⟩ := isIntegerChar_of_integer? hread
      exact hbare hne hdigits
    · cases htaken

theorem content_of_mem {x : Payload} (h : cs ∈ x.content?) : cs = x.content ∧ x.content ≠ [] := by
  simp only [Payload.content?, Option.mem_def] at h
  split at h
  · cases h
  · rename_i hne
    exact ⟨(Option.some.inj h).symm, hne⟩

theorem replacement_of_literal? {x : Call} (hx : x.Sound) (h : cs ∈ x.literal?) :
    Replacement cs := by
  cases x with
  | objectId x | uuid x | binData kind left right x =>
    obtain ⟨content, hcontent, rfl⟩ := Option.map_eq_some_iff.1 h
    obtain ⟨rfl, -⟩ := content_of_mem hcontent
    exact .string x.plain
  | newObjectId =>
    cases h
    exact .string (by simp)
  | isoDate x =>
    obtain ⟨content, hcontent, rfl⟩ := Option.map_eq_some_iff.1 h
    obtain ⟨rfl, -⟩ := content_of_mem hcontent
    exact .date x.plain
  | isoNow =>
    cases h
    exact .now
  | numberLong n | numberInt n => exact .bare (bare_of_amount h)
  | numberDecimal x =>
    obtain ⟨rfl, hne⟩ := content_of_mem h
    exact .bare (hx hne)

theorem Replacement.lexeme (h : Replacement cs) : Lexeme cs ∧ cs.head? ≠ some '/' := by
  have hdate : ∀ {argument}, Atom argument → Lexeme (Shell.Call.dateOf argument) := by
    intro argument hargument
    simpa [Shell.Call.dateOf] using
      Lexeme.date (.construct .space) .nil .nil hargument .nil
  cases h with
  | string h => exact ⟨.atom (atom_quoted rfl h), by simp [quote]⟩
  | date h => exact ⟨hdate (atom_quoted rfl h), by simp [Shell.Call.dateOf]⟩
  | now => exact ⟨hdate (.inert (by simp)), by simp [Shell.Call.dateOf]⟩
  | bare h =>
    refine ⟨.atom (.inert fun c hc => (h.plain c hc).1), fun hslash => ?_⟩
    cases (h.plain _ (List.mem_of_mem_head? hslash)).1

/-! ## One rule -/

mutual

/-- A value and the blanks before it, where a value may start. -/
theorem turns_tree (last b : Option Char) {cs rest : List Char} {P : List Char → Prop} (gap : Gap)
    (v : Tree) (hv : ∀ leaf ∈ v.leaves gap, leaf.Sound) (hcs : v.Written cs)
    (hlast : Zone.valueMayStart last = true) (hb : b.any isWord = false)
    (h : ∀ cs', v.Written cs' → Resumes w rest fun out => P (gap.text ++ (cs' ++ out))) :
    Turns w (.code last) b (gap.text ++ (cs ++ rest)) P := by
  -- after narrow blanks a value may still start, and a slash needs that
  refine .blanks gap.blank (fun _ => hb) fun b' hb' => ?_
  obtain ⟨last', hrun, hlast', -⟩ := Zone.run_blanks gap.blank last
  rw [hrun]
  match v with
  | .scalar s =>
    obtain rfl : cs = s.text := hcs
    have hs : (Leaf.scalar gap s).Sound := hv _ (by simp [Tree.leaves])
    exact .lexeme (lexeme_of_scalar s) (fun hslash => by rwa [hlast' (hs hslash)]) (h _ rfl)
  | .call s =>
    have hs : s.call.Sound := hv (.call s) (by simp [Tree.leaves])
    -- as it was typed, or replaced by an earlier rule
    rcases hcs with rfl | hliteral
    · exact turns_site s hs hb' fun cs' hcs' => (h cs' hcs').turns
    · obtain ⟨hlexeme, hslash⟩ := (replacement_of_literal? hs hliteral).lexeme
      exact .lexeme hlexeme (fun hhead => absurd hhead hslash) (h cs (.inr hliteral))
  | .array items =>
    obtain ⟨inside, hinside, rfl⟩ := hcs
    have hitems : Turns w (.code (some '[')) (some '[') (inside ++ ']' :: rest) fun out =>
        P (gap.text ++ '[' :: out) :=
      turns_items (some '[') (some '[') items (by simpa [Tree.leaves] using hv) hinside rfl
        (by decide +kernel) fun inside' hinside' => .mark (by decide)
          (by simpa using (h _ ⟨inside', hinside', rfl⟩).turns (some ']') (some ']'))
    simpa using (Resumes.mark (c := '[') (by decide) hitems).turns last' b'
  | .object fields =>
    obtain ⟨inside, hinside, rfl⟩ := hcs
    have hfields : Resumes w (inside ++ '}' :: rest) fun out => P (gap.text ++ '{' :: out) :=
      resumes_fields fields (by simpa [Tree.leaves] using hv) hinside
        fun inside' hinside' => .mark (by decide)
          (by simpa using (h _ ⟨inside', hinside', rfl⟩).turns (some '}') (some '}'))
    simpa using (Resumes.mark (c := '{') (by decide) (hfields.turns _ _)).turns last' b'

/-- The items of an array, or of a list. -/
theorem turns_items (last b : Option Char) {cs rest : List Char} {P : List Char → Prop}
    (items : Items) (hitems : ∀ leaf ∈ items.leaves, leaf.Sound) (hcs : items.Written cs)
    (hlast : Zone.valueMayStart last = true) (hb : b.any isWord = false)
    (h : ∀ cs', items.Written cs' → Resumes w rest fun out => P (cs' ++ out)) :
    Turns w (.code last) b (cs ++ rest) P := by
  match items with
  | .none gap =>
    obtain rfl : cs = gap.text := hcs
    exact ((h gap.text rfl).blanks gap.blank).turns last b
  | .last before v after =>
    obtain ⟨body, hbody, rfl⟩ := hcs
    have hvalue : Turns w (.code last) b (before.text ++ (body ++ (after.text ++ rest))) P :=
      turns_tree last b before v hitems hbody hlast hb fun body' hbody' =>
        .blanks after.blank (by simpa using h _ ⟨body', hbody', rfl⟩)
    simpa using hvalue
  | .more before v after items =>
    obtain ⟨body, tail, hbody, htail, rfl⟩ := hcs
    simp only [Items.leaves, List.mem_append, or_imp, forall_and] at hitems
    have hvalue : Turns w (.code last) b
        (before.text ++ (body ++ (after.text ++ ',' :: (tail ++ rest)))) P :=
      turns_tree last b before v hitems.1 hbody hlast hb fun body' hbody' =>
        .blanks after.blank (.mark (by decide) (turns_items (some ',') (some ',') items hitems.2
          htail rfl (by decide +kernel) fun tail' htail' => by
            simpa using h _ ⟨body', tail', hbody', htail', rfl⟩))
    simpa using hvalue

/-- The fields of an object. -/
theorem resumes_fields {cs rest : List Char} {P : List Char → Prop} (fields : Fields)
    (hfields : ∀ leaf ∈ fields.leaves, leaf.Sound) (hcs : fields.Written cs)
    (h : ∀ cs', fields.Written cs' → Resumes w rest fun out => P (cs' ++ out)) :
    Resumes w (cs ++ rest) P := by
  -- from the right: what follows a value is passed on to the continuation of the one before
  match fields with
  | .none gap =>
    obtain rfl : cs = gap.text := hcs
    exact (h gap.text rfl).blanks gap.blank
  | .last before k left right v after =>
    obtain ⟨body, hbody, rfl⟩ := hcs
    have hvalue : Turns w (.code (some ':')) (some ':')
        (right.text ++ (body ++ (after.text ++ rest))) fun out =>
          P (before.text ++ (k.text ++ (left.text ++ ':' :: out))) :=
      turns_tree (some ':') (some ':') right v hfields hbody rfl (by decide +kernel)
        fun body' hbody' => .blanks after.blank (by simpa using h _ ⟨body', hbody', rfl⟩)
    have hfield : Resumes w (before.text ++ (k.text ++ (left.text ++ ':' :: (right.text ++
        (body ++ (after.text ++ rest)))))) P :=
      .blanks before.blank (.atom (atom_of_written_key k) (.blanks left.blank
        (.mark (by decide) hvalue)))
    simpa using hfield
  | .more before k left right v after fields =>
    obtain ⟨body, tail, hbody, htail, rfl⟩ := hcs
    simp only [Fields.leaves, List.mem_append, or_imp, forall_and] at hfields
    have hvalue : Turns w (.code (some ':')) (some ':')
        (right.text ++ (body ++ (after.text ++ ',' :: (tail ++ rest)))) fun out =>
          P (before.text ++ (k.text ++ (left.text ++ ':' :: out))) :=
      turns_tree (some ':') (some ':') right v hfields.1 hbody rfl (by decide +kernel)
        fun body' hbody' => .blanks after.blank (.mark (c := ',') (by decide)
          ((resumes_fields fields hfields.2 htail fun tail' htail' => by
            simpa using h _ ⟨body', tail', hbody', htail', rfl⟩).turns _ _))
    have hfield : Resumes w (before.text ++ (k.text ++ (left.text ++ ':' :: (right.text ++
        (body ++ (after.text ++ ',' :: (tail ++ rest))))))) P :=
      .blanks before.blank (.atom (atom_of_written_key k) (.blanks left.blank
        (.mark (by decide) hvalue)))
    simpa using hfield

end

/-! ## All rules -/

/-- One rule leaves a draft a draft. -/
theorem written_unwrap {items : Items} (hitems : ∀ leaf ∈ items.leaves, leaf.Sound)
    (hcs : items.Written cs) (w : Wrapper) : items.Written (w.unwrap cs) := by
  have hturns : Turns w .start none (cs ++ []) items.Written :=
    turns_items none none items hitems hcs rfl rfl fun cs' hcs' => .nil (by simpa using hcs')
  rw [List.append_nil] at hturns
  exact hturns 0 (.zero cs)

/-- The normalizer leaves a draft a draft. -/
theorem written_normalize {items : Items} (hitems : ∀ leaf ∈ items.leaves, leaf.Sound) :
    items.Written (normalize items.text) := by
  -- by induction on the rules that are still to come
  have hfold : ∀ (ws : List Wrapper) {cs}, items.Written cs →
      items.Written (ws.foldl (fun text w => w.unwrap text) cs) := by
    intro ws
    induction ws with
    | nil => exact id
    | cons w ws ih => exact fun hcs => ih (written_unwrap hitems hcs w)
  exact hfold all items.written_text

end ShellQuery.Draft
