import ClassAtlas.ClassFile.Attribute

namespace ClassAtlas

/-!
# Choices for a scan

* `ScanConfig` — the choices, with `sequential` and `strict` beside the default;
* `ScanConfig.decodeOptions` — those about class files.
-/

/-- The choices for a scan. -/
structure ScanConfig where
  /-- How many workers there are; 0 leaves that open. -/
  workers : Nat := 0
  /-- Whether annotations that are kept from the running program are read too. -/
  invisible : Bool := true
  /-- The newest version accepted. -/
  maxMajor : UInt16 := 70
  /-- Whether references to classes that are not there are reported. -/
  reportUnresolved : Bool := true
  deriving DecidableEq, Repr

namespace ScanConfig

/-- One worker. -/
def sequential : ScanConfig := { workers := 1 }

/-- Only what the running program can see. -/
def strict : ScanConfig := { invisible := false, reportUnresolved := true }

/-- The choices in reading class files. -/
def decodeOptions (config : ScanConfig) : DecodeOptions where
  invisible := config.invisible
  maxMajor := config.maxMajor

end ScanConfig

end ClassAtlas
