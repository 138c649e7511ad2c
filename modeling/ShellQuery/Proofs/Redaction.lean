/-
  ShellQuery.Proofs.Redaction

  What is shown of a target whose address has a user and a password in it. The host is looked for
  between the scheme and the first slash after it, so a user and a password without a slash are not
  shown: targets that differ in nothing else look alike (`Target.redaction_of_logins`). A slash in
  them ends the search before the host is reached, and then everything from it on is shown.
-/
import Mathlib.Data.List.Infix
import ShellQuery.Proofs.Locality
import ShellQuery.Target

namespace ShellQuery

open Text

variable {mark : Char} {before after scheme secret host tail : List Char}

/-! ## Cutting an address -/

/-- The mark between the scheme and the rest of an address. -/
def schemeMark : List Char :=
  [':', '/', '/']

/-- A scheme ends at the first mark: none begins in the scheme and ends after it. -/
theorem not_schemeMark_begins {c : Char} (h : ¬ schemeMark <:+: c :: scheme) (rest : List Char) :
    ¬ schemeMark <+: c :: (scheme ++ schemeMark ++ rest) := by
  intro hbegins
  simp only [schemeMark, List.cons_prefix_cons] at hbegins
  obtain ⟨rfl, hbegins⟩ := hbegins
  rcases scheme with _ | ⟨a, _ | ⟨b, scheme⟩⟩
  · simp at hbegins
  · simp at hbegins
  · simp only [List.cons_append, List.cons_prefix_cons] at hbegins
    obtain ⟨rfl, rfl, -⟩ := hbegins
    exact h ⟨[], scheme, rfl⟩

theorem cutScheme?_of_prefix (rest : List Char) :
    cutScheme? (schemeMark ++ rest) = some (schemeMark, rest) := rfl

theorem cutScheme?_cons {c : Char} {cs : List Char} (h : ¬ schemeMark <+: c :: cs) :
    cutScheme? (c :: cs) = (cutScheme? cs).map fun (scheme, rest) => (c :: scheme, rest) := by
  rw [cutScheme?]
  rintro rest rfl rfl
  exact h (List.prefix_append schemeMark rest)

theorem cutScheme?_append (h : ¬ schemeMark <:+: scheme) (rest : List Char) :
    cutScheme? (scheme ++ schemeMark ++ rest) = some (scheme ++ schemeMark, rest) := by
  induction scheme with
  | nil => exact cutScheme?_of_prefix rest
  | cons c scheme ih =>
    have hscheme : ¬ schemeMark <:+: scheme := fun hwithin =>
      h (hwithin.trans (List.suffix_cons c scheme).isInfix)
    rw [List.cons_append, List.cons_append, cutScheme?_cons (not_schemeMark_begins h rest),
      ih hscheme]
    rfl

/-- What comes before the first slash, and the rest. -/
theorem cut_at_slash {server path : List Char} (hserver : '/' ∉ server)
    (hpath : ∀ c ∈ path.head?, c = '/') :
    (server ++ path).takeWhile (· ≠ '/') = server ∧ (server ++ path).dropWhile (· ≠ '/') = path := by
  have hfree : ∀ c ∈ server, decide (c ≠ '/') = true := fun c hc => by
    simpa using fun heq : c = '/' => hserver (heq ▸ hc)
  have hends : ∀ c ∈ path.head?, decide (c ≠ '/') = false := fun c hc => by simp [hpath c hc]
  obtain ⟨htake, hdrop⟩ := takeWhile_append server hends
  rw [htake, hdrop, List.takeWhile_eq_self_iff.2 hfree, List.dropWhile_eq_nil_iff.2 hfree]
  exact ⟨rfl, rfl⟩

/-! ## Redacted addresses -/

/-- What stands for a user and a password. -/
def stars : List Char :=
  ['*', '*', '*']

section
variable (hscheme : ¬ schemeMark <:+: scheme)

include hscheme in
theorem redact_append {server path : List Char} (hserver : '/' ∉ server)
    (hpath : ∀ c ∈ path.head?, c = '/') :
    redact (scheme ++ schemeMark ++ (server ++ path)) =
      scheme ++ schemeMark ++ (match cutLast? '@' server with
        | none => server
        | some (_, host) => stars ++ '@' :: host) ++ path := by
  obtain ⟨htake, hdrop⟩ := cut_at_slash hserver hpath
  rw [redact, cutScheme?_append hscheme]
  simp only [htake, hdrop]
  cases cutLast? '@' server with
  | none => simp only [List.append_assoc]
  | some parts => simp [stars]

include hscheme in
/-- Without a slash in it, what stands before the host gives way to stars. -/
theorem redact_sealed (h : '/' ∉ secret) (hat : '@' ∉ host) (hslash : '/' ∉ host)
    (htail : ∀ c ∈ tail.head?, c = '/') :
    redact (scheme ++ schemeMark ++ (secret ++ '@' :: host ++ tail)) =
      scheme ++ schemeMark ++ (stars ++ '@' :: host) ++ tail := by
  have hserver : '/' ∉ secret ++ '@' :: host := by simp [h, hslash]
  rw [redact_append hscheme hserver htail, cutLast?_append hat]

include hscheme in
/-- From its first slash on, what stands before the host is shown. -/
theorem redact_unsealed (h : '/' ∈ secret) :
    ∃ shown, redact (scheme ++ schemeMark ++ (secret ++ '@' :: host ++ tail)) =
      scheme ++ schemeMark ++ shown ++ secret.dropWhile (· ≠ '/') ++ '@' :: host ++ tail := by
  obtain ⟨server, rest, rfl, hserver⟩ := List.eq_append_cons_of_mem h
  have hpath : ∀ c ∈ ('/' :: (rest ++ '@' :: host ++ tail)).head?, c = '/' := by simp
  have htext : server ++ '/' :: rest ++ '@' :: host ++ tail =
      server ++ '/' :: (rest ++ '@' :: host ++ tail) := by simp
  -- the search for the host ends at the slash
  rw [(cut_at_slash hserver (by simp)).2, htext, redact_append hscheme hserver hpath]
  generalize (match cutLast? '@' server with
    | none => server
    | some (_, host) => stars ++ '@' :: host) = shown
  exact ⟨shown, by simp⟩

end

/-! ## Targets with a user and a password -/

/-- An address around its user and password. -/
structure AddressFrame where
  scheme : String
  host : String
  /-- The path, if there is one. -/
  tail : String
  scheme_ends : ¬ schemeMark <:+: scheme.toList
  at_not_mem_host : '@' ∉ host.toList
  slash_not_mem_host : '/' ∉ host.toList
  tail_begins : ∀ c ∈ tail.toList.head?, c = '/'

/-- What is not to be shown of a target: the user and the password in its address, and the password
    of its credentials. -/
structure Login where
  user : String
  password : String
  stored : String

/-- The user and the password as they stand in an address. -/
def Login.inline (login : Login) : String :=
  login.user ++ ":" ++ login.password

/-- What an address has of a user and a password from their first slash on. -/
def Login.exposed (login : Login) : String :=
  .ofList (login.inline.toList.dropWhile (· ≠ '/'))

/-- Whether there is no slash in a user and a password. -/
def Login.Sealed (login : Login) : Prop :=
  '/' ∉ login.inline.toList

instance (login : Login) : Decidable login.Sealed :=
  inferInstanceAs (Decidable (_ ∉ _))

theorem slash_mem_exposed {login : Login} (h : ¬ login.Sealed) : '/' ∈ login.exposed.toList := by
  obtain ⟨server, rest, hinline, hserver⟩ := List.eq_append_cons_of_mem (not_not.1 h)
  rw [Login.exposed, String.toList_ofList, hinline, (cut_at_slash hserver (by simp)).2]
  exact .head _

/-- The address with a user and a password. -/
def AddressFrame.address (f : AddressFrame) (login : Login) : String :=
  f.scheme ++ "://" ++ login.inline ++ "@" ++ f.host ++ f.tail

theorem AddressFrame.toList_address (f : AddressFrame) (login : Login) :
    (f.address login).toList = f.scheme.toList ++ schemeMark ++
      (login.inline.toList ++ '@' :: f.host.toList ++ f.tail.toList) := by
  simp [AddressFrame.address, schemeMark]

namespace Target

variable {f : AddressFrame} {login : Login}

/-- A target whose address has the given user and password, and whose credentials, if it has any,
    have the given password. -/
def withLogin (t : Target) (f : AddressFrame) (login : Login) : Target :=
  { t with
    address := f.address login
    credentials := t.credentials.map fun c => { c with password := login.stored } }

theorem redactedAddress_of_sealed (t : Target) (h : login.Sealed) :
    (t.withLogin f login).redactedAddress = f.scheme ++ "://***@" ++ f.host ++ f.tail := by
  rw [redactedAddress, withLogin, f.toList_address login,
    redact_sealed f.scheme_ends h f.at_not_mem_host f.slash_not_mem_host f.tail_begins,
    ← String.toList_inj]
  simp [schemeMark, stars]

theorem redactedAddress_of_not_sealed (t : Target) (h : ¬ login.Sealed) :
    ∃ shown, (t.withLogin f login).redactedAddress =
      f.scheme ++ "://" ++ shown ++ login.exposed ++ "@" ++ f.host ++ f.tail := by
  obtain ⟨shown, hshown⟩ := redact_unsealed f.scheme_ends (not_not.1 h)
  refine ⟨.ofList shown, ?_⟩
  rw [redactedAddress, withLogin, f.toList_address login, hshown, ← String.toList_inj]
  simp [Login.exposed, schemeMark]

/-- A description is made of the redacted address, the described credentials and the rest. -/
theorem describe_congr {t t' : Target} (haddress : t.redactedAddress = t'.redactedAddress)
    (hcredentials : t.credentials.map describeCredentials = t'.credentials.map describeCredentials)
    (hnamespace : t.defaultNamespace = t'.defaultNamespace) (hactive : t.active = t'.active) :
    t.describe = t'.describe := by
  delta describe
  rw [haddress, hcredentials, hnamespace, hactive]

/-- A description shows no more of a user and a password than the redacted address does. -/
theorem describe_withLogin_congr (t : Target) {login' : Login}
    (h : (t.withLogin f login).redactedAddress = (t.withLogin f login').redactedAddress) :
    (t.withLogin f login).describe = (t.withLogin f login').describe := by
  refine describe_congr h ?_ rfl rfl
  -- the described credentials have stars for every password
  rw [withLogin, withLogin, Option.map_map, Option.map_map]
  rfl

/-- Targets that differ in the user and the password of their addresses and in the password of their
    credentials, and in nothing else, are shown alike, in listings and in logs, as long as there is
    no slash in user and password. One with a slash is told apart from these: its redacted address
    has everything from the first slash on. -/
theorem redaction_of_logins (t : Target) (f : AddressFrame) :
    (∀ login login' : Login, login.Sealed → login'.Sealed →
      (t.withLogin f login).redactedAddress = (t.withLogin f login').redactedAddress ∧
        (t.withLogin f login).describe = (t.withLogin f login').describe) ∧
    ∀ login : Login, ¬ login.Sealed →
      (∃ shown, (t.withLogin f login).redactedAddress =
        f.scheme ++ "://" ++ shown ++ login.exposed ++ "@" ++ f.host ++ f.tail) ∧
      ∀ login' : Login, login'.Sealed →
        (t.withLogin f login).redactedAddress ≠ (t.withLogin f login').redactedAddress := by
  refine ⟨fun login login' h h' => ?_, fun login h => ⟨redactedAddress_of_not_sealed t h, ?_⟩⟩
  · have hsame : (t.withLogin f login).redactedAddress = (t.withLogin f login').redactedAddress := by
      rw [redactedAddress_of_sealed t h, redactedAddress_of_sealed t h']
    exact ⟨hsame, describe_withLogin_congr t hsame⟩
  · intro login' h' hsame
    obtain ⟨shown, hshown⟩ := redactedAddress_of_not_sealed t h
    rw [hshown, redactedAddress_of_sealed t h', ← String.toList_inj] at hsame
    have hrest : shown.toList ++ login.exposed.toList ++ '@' :: (f.host.toList ++ f.tail.toList) =
        stars ++ '@' :: (f.host.toList ++ f.tail.toList) := by
      simpa [stars] using hsame
    have hstars : shown.toList ++ login.exposed.toList = stars := List.append_cancel_right hrest
    have hslash : '/' ∈ stars := hstars ▸ List.mem_append_right _ (slash_mem_exposed h)
    exact absurd hslash (by decide)

/-- A target with credentials. -/
def shop : Target where
  address := ""
  credentials := some { username := "reader", password := "" }
  defaultNamespace := "shop"

/-- An address with room for a user and a password. -/
def shopFrame : AddressFrame where
  scheme := "mongodb"
  host := "db1:27017"
  tail := "/shop"
  scheme_ends := by decide
  at_not_mem_host := by decide
  slash_not_mem_host := by decide
  tail_begins := by simp

/-- Of the marks that are looked for, the slash alone shows a password. -/
theorem redaction_of_logins_shop :
    (shop.withLogin shopFrame ⟨"u", "p", "x"⟩).redactedAddress =
        (shop.withLogin shopFrame ⟨"u:", "p@:", "y"⟩).redactedAddress ∧
      (shop.withLogin shopFrame ⟨"u", "p", "x"⟩).describe =
        (shop.withLogin shopFrame ⟨"u:", "p@:", "y"⟩).describe ∧
      (∃ shown, (shop.withLogin shopFrame ⟨"u", "p/w", "x"⟩).redactedAddress =
        "mongodb://" ++ shown ++ "/w@db1:27017/shop") ∧
      (shop.withLogin shopFrame ⟨"u", "p/w", "x"⟩).redactedAddress ≠
        (shop.withLogin shopFrame ⟨"u", "p", "x"⟩).redactedAddress := by
  have hplain : Login.Sealed ⟨"u", "p", "x"⟩ := by decide
  have hmarked : Login.Sealed ⟨"u:", "p@:", "y"⟩ := by decide
  have hslashed : ¬ Login.Sealed ⟨"u", "p/w", "x"⟩ := by decide
  obtain ⟨hsealed, hunsealed⟩ := redaction_of_logins shop shopFrame
  obtain ⟨⟨shown, hshown⟩, hdiffers⟩ := hunsealed _ hslashed
  refine ⟨(hsealed _ _ hplain hmarked).1, (hsealed _ _ hplain hmarked).2, ⟨shown, ?_⟩,
    hdiffers _ hplain⟩
  have hexposed : Login.exposed ⟨"u", "p/w", "x"⟩ = "/w" := by decide
  rw [hshown, hexposed, ← String.toList_inj]
  simp [shopFrame]

end Target

end ShellQuery
