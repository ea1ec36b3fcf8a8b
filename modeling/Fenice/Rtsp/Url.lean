import Fenice.Lib.CText

/-!
# URLs (parse_url.c, is_supported_url.c)
-/

namespace Fenice.Rtsp
open Fenice.CString

structure Url where
  server : Bytes
  port : ℕ
  object : Bytes
  deriving DecidableEq

/-- `URL_OK`, `URL_BAD` and `URL_ERROR`. -/
inductive ParsedUrl where
  | ok (url : Url)
  | bad
  | error
  deriving DecidableEq

/-- `FENICE_RTSP_PORT_DEFAULT`. -/
def rtspPortDefault : ℕ := 554

/-- The half of `parse_url` for an absolute URL. The copy of the host that is
looked at for a port ends at the first slash; `strtok` looks for the end of the
host on its own, and for the port one byte behind as many bytes as the host
has. -/
def parse_absolute (url : Bytes) (serverLen fileNameLen : ℕ) : ParsedUrl :=
  let hasPort := ((url.drop 7).takeWhile (· != 47)).contains 58
  let (token, t) := strtok ⟨url, 7⟩ (lit " :/\t\n")
  match token with
  | none => .bad
  | some server =>
    if serverLen ≤ server.length then .error
    else
      let (portStr, t) :=
        if hasPort then strtok { t with next := server.length + 7 + 1 } (lit " /\t\n")
        else (none, t)
      let port := match portStr with
        | some s => (atol s % 2 ^ 16).toNat
        | none => rtspPortDefault
      match (strtok t (lit " ")).1 with
      | none => .ok ⟨server, port, []⟩
      | some file =>
        if fileNameLen ≤ file.length then .error else .ok ⟨server, port, file⟩

/-- `parse_url`. Without a scheme the whole is a file name; `port` is not set
then. -/
def parse_url (url : Bytes) (serverLen fileNameLen : ℕ) : ParsedUrl :=
  if url.take 7 = lit "rtsp://" then parse_absolute url serverLen fileNameLen
  else
    match (strtok ⟨url, 0⟩ (lit " \t\n")).1 with
    | none => .bad
    | some file => if fileNameLen ≤ file.length then .error else .ok ⟨[], 0, file⟩

/-- The file name extensions of `is_supported_url`. -/
def supportedExtensions : List Bytes :=
  [lit ".SD", lit ".WAV", lit ".MP3", lit ".GSM", lit ".GSM-FLO", lit ".L16M8K", lit ".26l",
    lit ".mpg", lit ".mpeg", lit ".m1v", lit ".m2v", lit ".m4v", lit ".mp4", lit ".xvid",
    lit ".rtp", lit ".264"]

def is_supported_url (p : Bytes) : Bool := supportedExtensions.any (eqNoCase p)

example : parse_url (lit "rtsp://host:8554/dir/film.sd!v.mpg") 255 255 =
    .ok ⟨lit "host", 8554, lit "dir/film.sd!v.mpg"⟩ := by decide +kernel

end Fenice.Rtsp
