import OpenUnion.Code.StorageRequests
import OpenUnion.JsonText.Doubles

/-!
# The bodies of uploads

The server parses the body of a request before the route sees it.  A body of type
`application/json` is parsed as JSON; one of the other content types of uploads is kept as it
came.  The upload routes make bytes of what they get, and print a value as JSON again.
-/

namespace OpenUnion.Storage

open Interleave JsonText Text

/-- `request.body`. -/
inductive Body where
  /-- The request has no body to parse. -/
  | undefined
  | buffer (bytes : Bytes)
  | json (v : Value (Option ℚ))

/-- The content type parsers of the server. -/
inductive BodyParser where
  /-- For `application/json`. -/
  | json
  /-- "Raw upload bodies (local storage backend)". -/
  | raw

/-- The content types of the raw parser. -/
def rawContentTypes : List String :=
  ["image/png", "image/jpeg", "application/pdf", "text/plain", "application/zip", "video/mp4",
    "application/octet-stream"]

/-- What the framework decides: the limit of a body, and the parser for a header that is not
itself one of the registered content types. -/
structure Framework where
  bodyLimit : Nat
  parserOf : String → Option BodyParser

/-- The parser for a content type. -/
def Framework.parser (f : Framework) (contentType : String) : Option BodyParser :=
  if contentType = "application/json" then some .json
  else if contentType ∈ rawContentTypes then some .raw
  else f.parserOf contentType

/-- The parser for `application/json`; `none` where `JSON.parse` throws. -/
def parseJsonBody (bytes : Bytes) : Option Body :=
  let text := decode bytes
  if text = [] then some (.json (.obj [])) else (parseValue doubles text).map .json

/-- The body of a request; `none` where the framework answers with an error. -/
def Framework.body (f : Framework) (contentType : Option String) (bytes : Bytes) : Option Body :=
  if f.bodyLimit < bytes.length then none
  else
    match contentType with
    | none => if bytes = [] then some .undefined else none
    | some contentType =>
        match f.parser contentType with
        | some .json => parseJsonBody bytes
        | some .raw => some (.buffer bytes)
        | none => none

/-- A code point in UTF-8: a surrogate that stands alone is replaced. -/
def encodedPoint : CodePoint → Char
  | .char c => c
  | .lone _ => replacement

/-- `Buffer.from(s, 'utf8')`. -/
def stringBytes (s : List UInt16) : Bytes := encode ((codePoints s).map encodedPoint)

/-- `String(contentType ?? '').toLowerCase().split(';')[0].trim()`. -/
def essence (toLowerCase : String → String) : Option String → String
  | none => ""
  | some contentType =>
      trimmed (String.ofList ((toLowerCase contentType).toList.takeWhile (· ≠ ';')))

/-- The bytes the upload routes make of a body. -/
def uploadBytes (toLowerCase : String → String) (contentType : Option String) :
    Body → Option Bytes
  | .buffer bytes => some bytes
  | .json (.str s) => some (stringBytes s)
  | .json v =>
      if essence toLowerCase contentType = "application/json" then
        some (encode (v.stringify doubles))
      else none
  | .undefined =>
      if essence toLowerCase contentType = "application/json" then
        some (encode (Value.null.stringify doubles))
      else none

/-- Who uploads. -/
inductive Uploader where
  | worker (id : Nat)
  | verifier

/-- A request to an upload route, as the client sends it. -/
structure HttpUpload where
  artifactId : String
  uploader : Uploader
  contentType : Option String
  bytes : Bytes

/-- The request with the bytes the route has made of the body. -/
def HttpUpload.withBytes (u : HttpUpload) (bytes : Option Bytes) : Request :=
  match u.uploader with
  | .worker id => .upload u.artifactId id bytes u.contentType
  | .verifier => .verifierUpload u.artifactId bytes u.contentType

/-- The request as the route sees it; `none` where the framework has answered. -/
def HttpUpload.request (u : HttpUpload) (env : StorageEnv) (f : Framework) : Option Request :=
  (f.body u.contentType u.bytes).map fun body =>
    u.withBytes (uploadBytes env.toLowerCase u.contentType body)

end OpenUnion.Storage
