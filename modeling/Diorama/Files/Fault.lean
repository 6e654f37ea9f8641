/-! # File faults -/

namespace Diorama

/-- What a file system can refuse. -/
inductive FileFault where
  | notFound
  | notADirectory
  | isADirectory
  | invalidData
  | invalidInput
  | invalidFilename
  | resourceBusy
  | permissionDenied
  | filesystemLoop
  | other
deriving DecidableEq, Repr

def FileFault.name : FileFault → String
  | .notFound => "NotFound"
  | .notADirectory => "NotADirectory"
  | .isADirectory => "IsADirectory"
  | .invalidData => "InvalidData"
  | .invalidInput => "InvalidInput"
  | .invalidFilename => "InvalidFilename"
  | .resourceBusy => "ResourceBusy"
  | .permissionDenied => "PermissionDenied"
  | .filesystemLoop => "FilesystemLoop"
  | .other => "Other"

end Diorama
