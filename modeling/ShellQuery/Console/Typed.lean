/-
  ShellQuery.Console.Typed

  What is left of a line when its backspaces are obeyed. A backspace takes back the grapheme cluster
  typed last, and does nothing where none is left. Clusters are those of the line as it was typed:
  a mark after a backspace does not join the cluster that has become the last one.

  What was typed is kept with its last character first, beside the sizes of its clusters.
-/
import ShellQuery.Bracket
import ShellQuery.Text.Grapheme

namespace ShellQuery.Console

open Text

/-- Takes bytes of UTF-8 away from the front of a text. A character of which one is taken goes. -/
def dropBytes : Nat → List Char → List Char
  | 0, cs => cs
  | _, [] => []
  | n, c :: cs => dropBytes (n - c.utf8Size) cs

/-- A line as far as it was typed. -/
structure Typed where
  /-- What is left of it, the last character first. -/
  kept : List Char := []
  /-- The sizes of the clusters in bytes, the last one first. A size is a byte itself, so that one
      of a longer cluster is known modulo 256 only. -/
  sizes : List UInt8 := []

namespace Typed

/-- Types one more cluster. -/
def press (t : Typed) (cluster : List Char) : Typed :=
  if cluster = ['\x08'] then
    match t.sizes with
    | [] => t
    | size :: sizes => { kept := dropBytes size.toNat t.kept, sizes }
  else
    { kept := cluster.reverse ++ t.kept
      sizes := .ofNat (byteLength cluster) :: t.sizes }

end Typed

/-- A line without its end. A carriage return before the line feed is part of the end. -/
def withoutEnd (line : List Char) : List Char :=
  match line.reverse with
  | '\n' :: '\r' :: cs | '\n' :: cs => cs.reverse
  | _ => line

/-- What is left of a line when its backspaces are obeyed. -/
def typed (line : List Char) : List Char :=
  ((graphemes (withoutEnd line)).foldl Typed.press {}).kept.reverse

end ShellQuery.Console
