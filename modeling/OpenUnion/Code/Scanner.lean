import OpenUnion.Code.Json

/-!
# Scanning bytes

`scanBytes` checks that the bytes look like their content type and then asks the configured
antivirus engine, whose answer is an argument here.  The reasons it gives decide whether a
failed scan blocks the artifact or is tried again.
-/

namespace OpenUnion.Storage

/-- The content of a file or an object. -/
abbrev Bytes := List UInt8

/-- `ScanResult`: `none` is `ok`, otherwise the reason. -/
structure ScanResult where
  ok : Bool
  reason : Option String
  deriving DecidableEq

/-- Nothing was found. -/
def ScanResult.clean : ScanResult := ⟨true, none⟩

/-- The bytes are refused. -/
def ScanResult.refused (reason : String) : ScanResult := ⟨false, some reason⟩

/-- The settings of the scanner, and the functions of strings it rests on. -/
structure ScannerEnv where
  /-- `process.env.SCANNER_ENGINE`. -/
  engine : Option String
  toLowerCase : String → String
  /-- `bytes.toString('utf8')`. -/
  decodeUtf8 : Bytes → String

section Checks

variable (env : ScannerEnv)

/-- The length of a string in UTF-16 units. -/
def utf16Length (s : String) : Nat :=
  (s.toList.map fun c => if c.toNat < 0x10000 then 1 else 2).sum

/-- `looksLikeUtf8Text`: no null byte, and less than one per cent replacement characters. -/
def looksLikeUtf8Text (bytes : Bytes) : Bool :=
  if (0 : UInt8) ∈ bytes then false
  else
    let s := env.decodeUtf8 bytes
    let replacements := (s.toList.filter fun c => decide (c.toNat = 0xfffd)).length
    decide (replacements * 100 < max 1 (utf16Length s))

/-- `s.trimStart()`. -/
def trimStart (s : String) : String := String.ofList (s.toList.dropWhile isWhiteSpace)

/-- The content check. -/
def basicScan (bytes : Bytes) (contentType : String) : ScanResult :=
  let expect := fun (ok : Bool) (reason : String) =>
    if ok then ScanResult.clean else .refused reason
  if contentType = "image/png" then
    expect (decide ([0x89, 0x50, 0x4e, 0x47, 0x0d, 0x0a, 0x1a, 0x0a] <+: bytes))
      "content_type_mismatch_png"
  else if contentType = "image/jpeg" then
    expect (decide (4 ≤ bytes.length ∧ [0xff, 0xd8] <+: bytes)) "content_type_mismatch_jpeg"
  else if contentType = "application/pdf" then
    expect (decide ([0x25, 0x50, 0x44, 0x46, 0x2d] <+: bytes)) "content_type_mismatch_pdf"
  else if contentType = "application/zip" then
    expect (decide ([0x50, 0x4b, 0x03, 0x04] <+: bytes ∨ [0x50, 0x4b, 0x05, 0x06] <+: bytes ∨
      [0x50, 0x4b, 0x07, 0x08] <+: bytes)) "content_type_mismatch_zip"
  else if contentType = "text/plain" then
    expect (looksLikeUtf8Text env bytes) "content_type_mismatch_text"
  else if contentType = "application/json" then
    let s := trimStart (env.decodeUtf8 bytes)
    expect (looksLikeUtf8Text env bytes && (startsWith s "\x7b" || startsWith s "["))
      "content_type_mismatch_json"
  else if contentType = "video/mp4" then
    -- the name of the first box, its bytes read as ASCII
    expect (decide (12 ≤ bytes.length ∧
      ((bytes.drop 4).take 4).map (· &&& 0x7f) = [0x66, 0x74, 0x79, 0x70]))
      "content_type_mismatch_mp4"
  else .clean

/-- `scanBytes`, with the answer of the antivirus engine. -/
def scanBytes (bytes : Bytes) (contentType : Option String) (antivirus : ScanResult) : ScanResult :=
  let engine := trimmed (env.toLowerCase (env.engine.getD ""))
  if bytes = [] then .refused "empty_file"
  else
    let basic := basicScan env bytes (trimmed (env.toLowerCase (contentType.getD "")))
    if !basic.ok then basic
    else if engine = "clamav" ∨ engine = "clamd" then if antivirus.ok then basic else antivirus
    else basic

/-- `isDeterministicBlockReason`. -/
def isDeterministicBlockReason (reason : String) : Bool :=
  let r := env.toLowerCase reason
  decide (r = "empty_file") || startsWith r "content_type_mismatch_" || includes r "infected" ||
    includes r "malware_detected"

/-- `isScannerErrorReason`. -/
def isScannerErrorReason (reason : String) : Bool :=
  let r := env.toLowerCase reason
  decide (r = "") || (startsWith r "clamd_" && !includes r "infected") ||
    startsWith r "clamav_error" || startsWith r "clamav_spawn_error"

/-- The scan is tried again, and the artifact is not blocked. -/
def isRetryable (reason : String) : Bool :=
  !isDeterministicBlockReason env reason && isScannerErrorReason env reason

end Checks

end OpenUnion.Storage
