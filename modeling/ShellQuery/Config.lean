/-
  ShellQuery.Config

  The settings of an executor: how long connecting and running may take, and how many documents a
  `find` without a limit returns.
-/
import ShellQuery.Json.Record
import ShellQuery.Plan

namespace ShellQuery

open Json

/-- Settings of an executor. The times are in milliseconds. -/
structure Config where
  connectTimeout : Nat := 5000
  deadline : Nat := 30000
  findLimit : Int64 := defaultFindLimit
deriving DecidableEq, Repr, Inhabited

namespace Config

/-- Settings as a file gives them. Those that are missing have their usual values. -/
def inFiles : RecordType Config where
  title := "ExecutorConfig"
  blank := {}
  fields := [
    { name := "connect_timeout_ms"
      put := fun c => return { c with connectTimeout := ← Reader.unsigned64 } },
    { name := "execution_deadline_ms"
      put := fun c => return { c with deadline := ← Reader.unsigned64 } },
    { name := "default_find_limit"
      put := fun c => return { c with findLimit := ← Reader.signed64 } }]

/-- The settings that a text gives. -/
def parse (cs : List Char) : Except Json.Fault Config :=
  Reader.ofWhole inFiles.read cs

end Config

end ShellQuery
