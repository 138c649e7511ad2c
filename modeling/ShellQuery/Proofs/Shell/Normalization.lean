/-
  ShellQuery.Proofs.Shell.Normalization

  The normalizer on argument lists. Each rule replaces the calls of its wrapper and nothing else, by
  induction on the tree; so all of them together turn the text that was typed into the plain one.

  Two things can go wrong with a literal. A regular expression after a wide blank is not seen for
  what it is, and a match that begins in a literal may swallow a call after it. Leaves with which
  neither happens are `Harmless`.
-/
import ShellQuery.Proofs.Shell.Pieces

namespace ShellQuery.Wrapper

open Text Shell

variable {w : Wrapper} {m : Prop} {replaced : Wrapper → Bool}

/-- The wrappers that are replaced already, and one more. -/
def also (replaced : Wrapper → Bool) (w : Wrapper) : Wrapper → Bool :=
  fun x => replaced x || decide (x = w)

/-! ## Leaves -/

/-- A leaf that does not get in the way of a rule. -/
structure Harmless (w : Wrapper) (m : Prop) (leaf : Leaf) : Prop where
  seen : leaf.Seen
  not_closes : m → ¬ leaf.Closes w
  not_opens : m ∨ ¬ Opens w leaf.quoted

theorem lexeme_of_scalar (s : Scalar) : Lexeme s.text := by
  obtain ⟨v, hread⟩ := s.read 0
  obtain ⟨hbrace, hbracket⟩ := head?_of_value hread
  obtain ⟨taken, htaken, hlexeme⟩ := lexeme_of_value hbrace hbracket hread
  rw [List.append_nil] at htaken
  exact htaken ▸ hlexeme

theorem atom_of_written_key (k : Key) : Atom k.text := by
  obtain ⟨name, hread⟩ := k.read
  obtain ⟨taken, htaken, hatom⟩ := atom_of_key hread
  rw [List.append_nil] at htaken
  exact htaken ▸ hatom

theorem Settled.written {last b : Option Char} {rest rest' : List Char} (s : Site)
    (hs : Harmless w m (.call s)) (hb : b.any isWord = false) (h : Ready w m rest rest') :
    Settled w m (.code last) b (s.written replaced ++ rest) (s.written (also replaced w) ++ rest') := by
  cases hreplaced : replaced s.call.wrapper with
  | true =>
    have hliteral : Settled w m (.code last) b (s.call.literal ++ rest) (s.call.literal ++ rest') :=
      .literal s.call hs.not_opens h
    simpa [Site.written, also, hreplaced] using hliteral
  | false =>
    by_cases hw : s.call.wrapper = w
    · subst hw
      have hsite : Settled s.call.wrapper m (.code last) b (s.text ++ rest)
          (s.call.literal ++ rest') := .site s hs.not_closes hb h
      simpa [Site.written, also, hreplaced] using hsite
    · have hsite : Settled w m (.code last) b (s.text ++ rest) (s.text ++ rest') :=
        .site_of_ne s (Ne.symm hw) hs.not_opens hb h
      simpa [Site.written, also, hreplaced, hw] using hsite

/-! ## Trees -/

mutual

/-- A value and the blanks before it, where a value may start. -/
theorem settled_tree (last b : Option Char) {rest rest' : List Char} (gap : Gap)
    (v : Tree) (hv : ∀ leaf ∈ v.leaves gap, Harmless w m leaf)
    (hlast : Zone.valueMayStart last = true) (hb : b.any isWord = false)
    (h : Ready w m rest rest') :
    Settled w m (.code last) b (gap.text ++ (v.text replaced ++ rest))
      (gap.text ++ (v.text (also replaced w) ++ rest')) := by
  refine .blanks gap.blank (fun _ => hb) fun b' hb' => ?_
  obtain ⟨last', hrun, hlast', -⟩ := Zone.run_blanks gap.blank last
  rw [hrun]
  match v with
  | .scalar s =>
    have hs := hv (.scalar gap s) (by simp [Tree.leaves])
    simp only [Tree.text]
    refine .lexeme (lexeme_of_scalar s) (fun hslash => ?_) hs.not_opens h
    rwa [hlast' (hs.seen hslash)]
  | .call s =>
    simp only [Tree.text]
    exact .written s (hv (.call s) (by simp [Tree.leaves])) hb' h
  | .array items =>
    have hinside := settled_items (some '[') (some '[') items
      (by simpa [Tree.leaves] using hv) rfl (by decide +kernel) (.mark (c := ']') (by decide)
        (h.settled _ _))
    simpa [Tree.text] using (Ready.mark (c := '[') (by decide) hinside).settled last' b'
  | .object fields =>
    have hinside := ready_fields fields (by simpa [Tree.leaves] using hv)
      (.mark (c := '}') (by decide) (h.settled _ _))
    simpa [Tree.text] using (Ready.mark (c := '{') (by decide) (hinside.settled _ _)).settled last' b'

/-- The items of an array, or of a list. -/
theorem settled_items (last b : Option Char) {rest rest' : List Char} (items : Items)
    (hitems : ∀ leaf ∈ items.leaves, Harmless w m leaf)
    (hlast : Zone.valueMayStart last = true) (hb : b.any isWord = false)
    (h : Ready w m rest rest') :
    Settled w m (.code last) b (items.text replaced ++ rest)
      (items.text (also replaced w) ++ rest') := by
  match items with
  | .none gap => exact (h.blanks gap.blank).settled last b
  | .last before v after =>
    simpa [Items.text] using settled_tree last b before v hitems hlast hb (h.blanks after.blank)
  | .more before v after items =>
    simp only [Items.leaves, List.mem_append, or_imp, forall_and] at hitems
    have hmore := settled_items (some ',') (some ',') items hitems.2 rfl
      (by decide +kernel) h
    have hafter := (Ready.mark (c := ',') (by decide) hmore).blanks after.blank
    simpa [Items.text] using settled_tree last b before v hitems.1 hlast hb hafter

/-- The fields of an object. -/
theorem ready_fields {rest rest' : List Char} (fields : Fields)
    (hfields : ∀ leaf ∈ fields.leaves, Harmless w m leaf)
    (h : Ready w m rest rest') :
    Ready w m (fields.text replaced ++ rest) (fields.text (also replaced w) ++ rest') := by
  match fields with
  | .none gap => exact h.blanks gap.blank
  | .last before k left right v after =>
    simp only [Fields.leaves, List.mem_cons, forall_eq_or_imp] at hfields
    have hvalue := settled_tree (some ':') (some ':') right v hfields.2 rfl
      (by decide +kernel) (h.blanks after.blank)
    have hkey := ((Ready.mark (c := ':') (by decide) hvalue).blanks left.blank).atom
      (atom_of_written_key k) hfields.1.not_opens
    simpa [Fields.text] using hkey.blanks before.blank
  | .more before k left right v after fields =>
    simp only [Fields.leaves, List.mem_cons, List.mem_append, or_imp, forall_and,
      forall_eq] at hfields
    have hmore := ready_fields fields hfields.2.2 h
    have hafter := (Ready.mark (c := ',') (by decide) (hmore.settled _ _)).blanks after.blank
    have hvalue := settled_tree (some ':') (some ':') right v hfields.2.1 rfl
      (by decide +kernel) hafter
    have hkey := ((Ready.mark (c := ':') (by decide) hvalue).blanks left.blank).atom
      (atom_of_written_key k) hfields.1.not_opens
    simpa [Fields.text] using hkey.blanks before.blank

end

/-! ## Lists -/

/-- One rule replaces the calls of its wrapper. -/
theorem unwrap_items {items : Items} (hseen : ∀ leaf ∈ items.leaves, leaf.Seen)
    (hsafe : items.Safe w) (replaced : Wrapper → Bool) :
    w.unwrap (items.text replaced) = items.text (also replaced w) := by
  have hunwrap : ∀ {m : Prop}, (∀ leaf ∈ items.leaves, Harmless w m leaf) →
      w.unwrap (items.text replaced) = items.text (also replaced w) := by
    intro m hitems
    have hsettled : Settled w m (.code none) none (items.text replaced ++ [])
        (items.text (also replaced w) ++ []) := settled_items none none items hitems rfl rfl .nil
    rw [List.append_nil, List.append_nil] at hsettled
    exact hsettled.unwrap_eq
  rcases hsafe with hcloses | hopens
  · exact hunwrap (m := True) fun leaf hleaf =>
      ⟨hseen leaf hleaf, fun _ => hcloses leaf hleaf, .inl trivial⟩
  · exact hunwrap (m := False) fun leaf hleaf =>
      ⟨hseen leaf hleaf, False.elim, .inr (hopens leaf hleaf)⟩

theorem foldl_unwrap {items : Items} (hseen : ∀ leaf ∈ items.leaves, leaf.Seen)
    (hsafe : ∀ w, items.Safe w) (ws : List Wrapper) :
    ws.foldl (fun text w => w.unwrap text) (items.text replaced) =
      items.text fun w => replaced w || decide (w ∈ ws) := by
  induction ws generalizing replaced with
  | nil => simp
  | cons w ws ih =>
    rw [List.foldl_cons, unwrap_items hseen (hsafe w), ih]
    congr 1
    funext x
    simp [also, Bool.or_assoc]

/-- The normalizer turns the text that was typed into the plain one. -/
theorem normalize_typed {items : Items} (hseen : ∀ leaf ∈ items.leaves, leaf.Seen)
    (hsafe : ∀ w, items.Safe w) : normalize items.typed = items.plain := by
  have hall : ∀ w, w ∈ all := by
    intro w
    cases w <;> decide
  rw [normalize, Items.typed, foldl_unwrap hseen hsafe]
  simp [Items.plain, hall]

end ShellQuery.Wrapper
