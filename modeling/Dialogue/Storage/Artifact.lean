import Dialogue.Storage.Disk
import Dialogue.Storage.StoredScript
/-!
Scripts in files.
-/

namespace Dialogue.Storage

/-- Why a script could not be saved or loaded. -/
inductive ArtifactError
  /-- The file could not be read or written. -/
  | disk (path : String) (fault : DiskFault)
  /-- The bytes are no script. -/
  | decode (fault : Fault)
deriving DecidableEq

/-- What a person is told about an error. -/
def ArtifactError.message : ArtifactError → String
  | disk path fault => "I/O error on '" ++ path ++ "': " ++ fault.message
  | decode fault => "Deserialization failed: " ++ fault.message

/-- The script that bytes stand for. -/
def ofBytes (bytes : List UInt8) : Except ArtifactError Script :=
  (decodeScript bytes).mapError .decode

/-- Saves a script. -/
def Disk.save (disk : Disk) (path : String) (s : Script) : Except ArtifactError Disk :=
  (disk.write path (writeScript s)).mapError (.disk path)

/-- Loads a script. -/
def Disk.load (disk : Disk) (path : String) : Except ArtifactError Script :=
  match disk.read path with
  | .ok bytes => ofBytes bytes
  | .error fault => .error (.disk path fault)

end Dialogue.Storage
