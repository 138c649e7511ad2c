/-
  ShellQuery.Proofs.Options.Planned

  What holds of every operation that is planned, whatever its query: it is of the kind of its method,
  and its options are those that some object sets (`Plan.collectionOperation_cases`). So an option
  that its method does not have is not set (`CollectionOperation.Planned`).
-/
import ShellQuery.Proofs.Options.Planning

namespace ShellQuery

/-- Whether the options of an operation are those that some object sets, so that what is no option
    of its method is not set. -/
def CollectionOperation.Planned (op : CollectionOperation) : Prop :=
  ∃ d : Document, op.withOptionsBy (OptionReader.count? (2 ^ 64)) d = op

namespace Plan

variable {kind : OperationKind} {arguments : List Value} {modifiers : List ChainedModifier}
  {defaultLimit : Int64} {op : CollectionOperation}

/-- What each modifier keeps of a `find`, all of them keep. -/
theorem modifiers_induction {P : FindSpec → Prop}
    (hstep : ∀ m ∈ modifiers, ∀ {spec spec'}, P spec → modify spec m = .ok spec' → P spec')
    {spec spec' : FindSpec} (hspec : P spec) (h : modifiers.foldlM modify spec = .ok spec') :
    P spec' := by
  induction modifiers generalizing spec with
  | nil =>
    cases h
    exact hspec
  | cons m modifiers ih =>
    rw [List.foldlM_cons] at h
    obtain ⟨spec₁, hm, h⟩ := bind_eq_ok.1 h
    exact ih (fun m' hm' => hstep m' (.tail _ hm')) (hstep m (.head _) hspec hm) h

/-- Whatever a method plans is of its kind, with the options that some object sets. -/
theorem collectionOperation_cases
    (h : collectionOperation kind arguments modifiers defaultLimit = .ok op) :
    op.kind = kind ∧ op.Planned := by
  cases hat : kind.optionsAt? with
  | some i =>
    have htakes : TakesOptions kind i fun arguments =>
        collectionOperation kind arguments modifiers defaultLimit := takesOptions hat
    obtain ⟨α, β, reader, taken, value, others, build, hreads, -, -, hplan, -, hkind, hbuild⟩ :=
      htakes
    replace h := (hplan arguments).symm.trans h
    obtain ⟨b, -, h⟩ := bind_eq_ok.1 h
    obtain ⟨a, ha, h⟩ := bind_eq_ok.1 h
    obtain ⟨d, -, hrun⟩ := bind_eq_ok.1 ha
    obtain rfl := hreads.run_eq_ok hrun
    cases h
    exact ⟨hkind b (value d), d, hbuild b _ d⟩
  | none =>
    cases kind with
    | find | insertOne =>
      obtain ⟨spec, -, h⟩ := bind_eq_ok.1 h
      cases h
      exact ⟨rfl, [], rfl⟩
    | insertMany =>
      obtain ⟨documents, -, h⟩ := bind_eq_ok.1 h
      split at h <;> cases h
      exact ⟨rfl, [], rfl⟩
    | distinct =>
      unfold collectionOperation at h
      dsimp only at h
      split at h
      · split at h
        · cases h
        · obtain ⟨filter, -, h⟩ := bind_eq_ok.1 h
          cases h
          exact ⟨rfl, [], rfl⟩
      · cases h
    | dropIndex =>
      unfold collectionOperation at h
      dsimp only at h
      split at h
      · split at h <;> cases h
        exact ⟨rfl, [], rfl⟩
      · cases h
        exact ⟨rfl, [], rfl⟩
      · cases h
    | estimatedDocumentCount | indexes | stats =>
      cases h
      exact ⟨rfl, [], rfl⟩
    | runCommand | adminCommand | currentOp => cases h
    | _ => cases hat

theorem kind_of_collectionOperation
    (h : collectionOperation kind arguments modifiers defaultLimit = .ok op) : op.kind = kind :=
  (collectionOperation_cases h).1

theorem planned_of_collectionOperation
    (h : collectionOperation kind arguments modifiers defaultLimit = .ok op) : op.Planned :=
  (collectionOperation_cases h).2

end Plan

end ShellQuery
