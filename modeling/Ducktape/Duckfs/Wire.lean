import Std.Data.ExtTreeMap
import Ducktape.Sdk.Types

/-! # The duckfs wire surface

The consensus caps that objects and references are checked against. -/

namespace Ducktape.Duckfs

/-! ## Caps -/

def maxNameBytes : Nat := 255
def maxDirEntries : Nat := 65536
def maxMetaEntries : Nat := 16
def maxMetaKeyBytes : Nat := 64
def maxMetaValueBytes : Nat := 256
def maxChunksPerFile : Nat := 4194304
def maxPinNameBytes : Nat := 128
def maxWatchModuleIdBytes : Nat := 128

/-- A module-owned immutable snapshot reference. -/
structure RetentionReference where
  snapshot : String
  revision : Nat
  deriving DecidableEq

end Ducktape.Duckfs
