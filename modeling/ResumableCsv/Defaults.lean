import ResumableCsv.NulBytes.Policy

/-!
Settings that readers and writers start from when their own options say nothing.
-/

namespace ResumableCsv

structure Defaults where
  prebuffer : Option Nat := none
  readNuls : NulPolicy := .keep
  writeNuls : NulPolicy := .keep
deriving DecidableEq, Repr

end ResumableCsv
