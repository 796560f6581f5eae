import OpenUnion.Code.Storage
import OpenUnion.Text.Paths

/-!
# Storage keys and files

`presignUploads` and `presignVerifierUploads` give each file an artifact id and a storage key that
ends in the sanitised file name.  Uploads, downloads, scans and deletions find the file by
`path.resolve` of the root directory and the key, and refuse what does not begin with the root
directory.
-/

namespace OpenUnion.Storage

open Text

/-- `s.split(sep).pop()`. -/
def lastPart (sep : Char) (s : List Char) : List Char :=
  (s.splitOn sep).getLast (List.splitOn_ne_nil sep s)

/-- `sanitizeFilename`; `none` where it throws. -/
def sanitizeFilename (filename : String) : Option String :=
  let base := String.ofList (lastPart '\\' (lastPart '/' (trimmed filename).toList))
  if base = "" then none
  else if 200 < utf16Length base then none
  else some base

/-- The storage key of an artifact. -/
def storageKeyOf (artifactId filename : String) : String :=
  "artifacts/" ++ artifactId ++ "/" ++ filename

/-- A file of a request, with the id that is drawn for it. -/
structure PresignedFile where
  artifactId : String
  filename : String

/-- The storage key a presigned file gets; `none` where its name is refused. -/
def PresignedFile.key (f : PresignedFile) : Option String :=
  (sanitizeFilename f.filename).map (storageKeyOf f.artifactId)

/-- `path.resolve` for an absolute base. -/
def pathResolve (base path : String) : String := String.ofList (resolve base.toList path.toList)

/-- The settings with the directories of a process: `process.cwd()` and `STORAGE_LOCAL_DIR`. -/
def StorageEnv.inDirectory (env : StorageEnv) (cwd localDir : String) : StorageEnv :=
  let rootDir := pathResolve cwd localDir
  { env with rootDir := rootDir, resolveKey := pathResolve rootDir }

/-- The file of a presigned file. -/
def PresignedFile.path (f : PresignedFile) (env : StorageEnv) : Option String :=
  f.key.bind env.localPath

/-- A character of `nanoid`. -/
def isIdChar (c : Char) : Bool := c.isAlphanum || c = '_' || c = '-'

end OpenUnion.Storage
