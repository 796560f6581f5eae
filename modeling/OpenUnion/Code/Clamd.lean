import OpenUnion.Code.Scanner
import OpenUnion.Text.Utf8

/-!
# The antivirus engines

`scanOnce` gathers what the socket of clamd delivers, each chunk decoded by itself, and decides
at the first event that ends the scan. The text of the reply is read in upper case, which is a
parameter on the characters that are not ASCII. `clamscan` is judged by its exit code.
-/

namespace OpenUnion.Storage

/-- `toUpperCase`, character by character. -/
structure UpperCase where
  map : Char → List Char
  ascii : ∀ c, c.toNat < 0x80 → map c = [c.toUpper]

/-- `s.toUpperCase()`. -/
def UpperCase.apply (u : UpperCase) (s : String) : String := String.ofList (s.toList.flatMap u.map)

/-- The events of the socket. -/
inductive SocketEvent where
  | data (chunk : Bytes)
  | timeout
  | error (message : String)
  /-- A write of the bytes throws. -/
  | writeThrows (message : String)
  | close

variable (u : UpperCase)

/-- What `close` makes of the reply. -/
def readReply (resp : String) : ScanResult :=
  let line := trimmed resp
  let upper := u.apply line
  if includes upper " OK" then .clean
  else if includes upper "FOUND" then .refused "clamd_infected"
  else if line = "" then .refused "clamd_no_response"
  else .refused ("clamd_unknown:" ++ sliced line 200)

/-- `scanOnce` after the text `resp`, as far as it has a result. -/
def scanOnce : List Char → List SocketEvent → Option ScanResult
  | _, [] => none
  | resp, .data chunk :: events => scanOnce (resp ++ Text.decode chunk) events
  | _, .timeout :: _ => some (.refused "clamd_timeout")
  | _, .error message :: _ => some (.refused ("clamd_error:" ++ message))
  | _, .writeThrows message :: _ => some (.refused ("clamd_stream_error:" ++ message))
  | resp, .close :: _ => some (readReply u (String.ofList resp))

/-- The errors of the socket after which TCP is tried. -/
def retryableSocketTexts : List String :=
  ["connect ENOENT", "connect ENOTSOCK", "connect ECONNREFUSED", "connect EACCES", "clamd_timeout",
    "clamd_no_response"]

/-- `scanWithClamd`, with the results of `scanOnce` for the unix socket, if one is configured,
and for TCP. -/
def scanWithClamd (socketRes : Option ScanResult) (tcpRes : ScanResult) : ScanResult :=
  match socketRes with
  | none => tcpRes
  | some res =>
      if res.ok then res
      else if retryableSocketTexts.any (includes (res.reason.getD "")) then tcpRes
      else res

/-- How `clamscan` ends. -/
inductive ClamscanEnd where
  | close (code : Option ℤ) (out err : String)
  | error (message : String)

/-- `scanWithClamav`. -/
def scanWithClamav : ClamscanEnd → ScanResult
  | .close code out err =>
      if code = some 0 then .clean
      else if code = some 1 then .refused "clamav_infected"
      else .refused ("clamav_error:" ++ sliced (if err = "" then out else err) 200)
  | .error message => .refused ("clamav_spawn_error:" ++ message)

end OpenUnion.Storage
