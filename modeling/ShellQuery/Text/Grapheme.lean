/-
  ShellQuery.Text.Grapheme

  Grapheme clusters, the groups of characters that are seen as one: a letter with its accents, the
  two halves of a flag, pictures joined into one. `graphemes` splits a text into its extended
  clusters.

  Whether a character joins the cluster before it depends on that cluster alone. What was read of a
  cluster is kept with its last character first.
-/
import ShellQuery.Text.Grapheme.Class

namespace ShellQuery.Text

namespace Grapheme

/-! ## Borders -/

/-- Whether a letter or syllable of Hangul goes on with another one. -/
def hangulJoins : Class → Class → Bool
  | .leadingJamo, .leadingJamo | .leadingJamo, .vowelJamo => true
  | .leadingJamo, .openSyllable | .leadingJamo, .closedSyllable => true
  | .vowelJamo, .vowelJamo | .vowelJamo, .trailingJamo => true
  | .openSyllable, .vowelJamo | .openSyllable, .trailingJamo => true
  | .closedSyllable, .trailingJamo | .trailingJamo, .trailingJamo => true
  | _, _ => false

/-- Whether what was read ends with a picture and characters that extend it. -/
def endsWithPicture : List Char → Bool
  | [] => false
  | c :: earlier =>
    match Class.ofChar c with
    | .picture => true
    | .extending | .nonJoiner | .linker => endsWithPicture earlier
    | _ => false

/-- Whether what was read ends with a consonant and a linker, with nothing else after the consonant
    than characters that extend it. -/
def endsWithLinked (linked : Bool) : List Char → Bool
  | [] => false
  | c :: earlier =>
    match Class.ofChar c with
    | .consonant => linked
    | .linker => endsWithLinked true earlier
    | .extending | .joiner => endsWithLinked linked earlier
    | _ => false

/-- Whether what was read ends with half a flag that has no other half yet. -/
def endsWithHalfFlag : List Char → Bool
  | [] => false
  | c :: earlier => Class.ofChar c = .regional && !endsWithHalfFlag earlier

/-- Whether a character belongs to the cluster before it. -/
def joins (cluster : List Char) (next : Char) : Bool :=
  match cluster with
  | [] => false
  | last :: earlier =>
    match Class.ofChar last, Class.ofChar next with
    | .carriageReturn, .lineFeed => true
    | .carriageReturn, _ | .lineFeed, _ | .control, _ => false
    | _, .carriageReturn | _, .lineFeed | _, .control => false
    | _, .extending | _, .nonJoiner | _, .linker | _, .joiner | _, .spacing => true
    | .prepended, _ => true
    | .joiner, .picture => endsWithPicture earlier
    | .regional, .regional => endsWithHalfFlag cluster
    | _, .consonant => endsWithLinked false cluster
    | before, after => hangulJoins before after

/-! ## Clusters -/

/-- Splits a text that goes on after a cluster of which the characters in `cluster` were read. -/
def clustersAfter (cluster : List Char) : List Char → List (List Char)
  | [] => [cluster.reverse]
  | c :: cs =>
    if joins cluster c then clustersAfter (c :: cluster) cs
    else cluster.reverse :: clustersAfter [c] cs

end Grapheme

open Grapheme

/-- The grapheme clusters of a text. -/
def graphemes : List Char → List (List Char)
  | [] => []
  | c :: cs => clustersAfter [c] cs

end ShellQuery.Text
