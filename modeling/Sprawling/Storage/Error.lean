import Sprawling.Base.Text
import Sprawling.Kernel.Event

namespace Sprawling

/-- A file's name inside one directory. -/
abbrev FileName := List Char

/-- What the modelled modules say when persistence refuses; a directory is named by no file. -/
inductive StorageError where
  | io (op : String) (path : FileName)
  | versionAhead (path : FileName) (v : Nat)
  | envelope (path : FileName) (line : Nat) (source : AxError)
  | draft (source : AxError)
  | ledgerBroken (seq : Seq)
  | casMissing (hash : List Char)
  | casCorrupt (hash : List Char) (path : FileName)
  | rangeOutOfBounds (hash : List Char)
deriving DecidableEq

end Sprawling
