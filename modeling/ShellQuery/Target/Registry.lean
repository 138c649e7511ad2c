/-
  ShellQuery.Target.Registry

  The registered targets, in the order of their names, and the files that list them.
-/
import ShellQuery.Json.Record
import ShellQuery.Target

namespace ShellQuery

open Json

/-! ## Registries -/

/-- Targets by their names, in ascending order of the names. -/
abbrev Registry : Type := List (String × Target)

namespace Registry

/-- The target with the given name. -/
def find? (id : String) : Registry → Option Target
  | [] => none
  | (name, t) :: rest => if name = id then some t else find? id rest

/-- Registers a target, in place of one of the same name. -/
def insert (id : String) (t : Target) : Registry → Registry
  | [] => [(id, t)]
  | (name, u) :: rest =>
    if id = name then (id, t) :: rest
    else if id < name then (id, t) :: (name, u) :: rest
    else (name, u) :: insert id t rest

/-- The names, in order. -/
def ids (r : Registry) : List String :=
  r.map Prod.fst

/-! ## Finding what was registered -/

theorem find?_insert_self (id : String) (t : Target) (r : Registry) :
    (r.insert id t).find? id = some t := by
  induction r with
  | nil => simp [insert, find?]
  | cons entry rest ih =>
    obtain ⟨name, u⟩ := entry
    by_cases h : id = name
    · simp [insert, find?, h]
    · by_cases hlt : id < name
      · simp [insert, find?, h, hlt]
      · simp [insert, find?, h, hlt, Ne.symm h, ih]

theorem find?_insert_of_ne {id other : String} (t : Target) (r : Registry) (h : other ≠ id) :
    (r.insert id t).find? other = r.find? other := by
  induction r with
  | nil => simp [insert, find?, h.symm]
  | cons entry rest ih =>
    obtain ⟨name, u⟩ := entry
    by_cases hn : id = name
    · subst hn
      simp [insert, find?, h.symm]
    · by_cases hlt : id < name
      · simp [insert, find?, hn, hlt, h.symm]
      · simp only [insert, if_neg hn, if_neg hlt, find?, ih]

end Registry

/-! ## Target files -/

/-- Credentials as a file gives them. -/
def Credentials.inFiles : RecordType Credentials where
  title := "Credentials"
  blank := { username := "", password := "" }
  fields := [
    { name := "username", required := true
      put := fun c => return { c with username := ← Reader.string } },
    { name := "password", required := true
      put := fun c => return { c with password := ← Reader.string } },
    { name := "auth_source"
      put := fun c => return { c with authSource := ← Reader.optional Reader.string } }]

/-- A target as a file gives it. Its namespace may go by the name of `database`. -/
def Target.inFiles : RecordType Target where
  title := "TargetDescriptor"
  blank := { address := "", defaultNamespace := "" }
  fields := [
    { name := "address", required := true
      put := fun t => return { t with address := ← Reader.string } },
    { name := "credentials"
      put := fun t => return { t with
        credentials := ← Reader.optional Credentials.inFiles.read } },
    { name := "default_namespace", otherNames := ["database"], required := true
      put := fun t => return { t with defaultNamespace := ← Reader.string } },
    { name := "active"
      put := fun t => return { t with active := ← Reader.bool } }]

namespace Registry

/-- The targets by their names, a repeated name counting the last time. -/
def ofMap : Reader Registry :=
  Reader.map (fun r id => return insert id (← Target.inFiles.read) r) []

/-- A file that lists targets. -/
def inFiles : RecordType Registry where
  title := "TargetFile"
  blank := []
  fields := [{ name := "targets", put := fun _ => ofMap }]

/-- The targets that a file lists. -/
def parse (cs : List Char) : Except Json.Fault Registry :=
  Reader.ofWhole inFiles.read cs

end Registry

end ShellQuery
