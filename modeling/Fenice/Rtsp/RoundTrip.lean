import Fenice.Lib.CTokens
import Fenice.Rtsp.Url

/-!
# A URL that was written is parsed back

`parse_url` scans with `strtok` for the host, goes back behind the host for the
port, and takes the rest up to a blank as the file name.
-/

namespace Fenice.Rtsp
open Fenice.CString

/-- A server and a file on it, named with the bytes that can stand there. -/
structure Location where
  server : Bytes
  file : Bytes
  server_token : Token (lit " :/\t\n") server
  file_token : Token (lit " ") file

/-- The URL with a port, and the one without. -/
def Location.urlAt (u : Location) (port : ℕ) : Bytes :=
  lit "rtsp://" ++ (u.server ++ 58 :: (natText port ++ 47 :: u.file))

def Location.url (u : Location) : Bytes := lit "rtsp://" ++ (u.server ++ 47 :: u.file)

/-- What `parse_url` has to say of it. -/
def Location.parsed (u : Location) (port serverLen fileNameLen : ℕ) : ParsedUrl :=
  if u.server.length < serverLen ∧ u.file.length < fileNameLen then .ok ⟨u.server, port, u.file⟩
  else .error

theorem Location.slash_notMem (u : Location) : 47 ∉ u.server := fun h =>
  (u.server_token.2 47 h).2 (by decide)

theorem Location.colon_notMem (u : Location) : 58 ∉ u.server := fun h =>
  (u.server_token.2 58 h).2 (by decide)

theorem takeWhile_slash {front : Bytes} (h : 47 ∉ front) (back : Bytes) :
    (front ++ 47 :: back).takeWhile (· != 47) = front := by
  rw [List.takeWhile_append_of_pos, List.takeWhile_cons_of_neg (by decide), List.append_nil]
  intro c hc
  rw [bne_iff_ne]
  rintro rfl
  exact h hc

theorem natText_token (n : ℕ) : Token (lit " /\t\n") (natText n) := by
  refine ⟨natText_ne_nil n, fun c hc => ?_⟩
  have hdig := isDigit_bounds.mp (isDigit_natText n c hc)
  have hdelims : ∀ d ∈ lit " /\t\n", d.toNat < 48 := by decide
  constructor
  · rintro rfl
    exact absurd hdig.1 (by decide)
  · intro hmem
    have := hdelims c hmem
    omega

theorem parsed_of_last (u : Location) (front : Bytes) (port serverLen fileNameLen : ℕ) :
    (if serverLen ≤ u.server.length then ParsedUrl.error
     else
      match (strtok ⟨front ++ u.file, front.length⟩ (lit " ")).1 with
      | none => .ok ⟨u.server, port, []⟩
      | some file =>
        if fileNameLen ≤ file.length then .error else .ok ⟨u.server, port, file⟩) =
      u.parsed port serverLen fileNameLen := by
  rw [strtok_last u.file_token front]
  unfold Location.parsed
  by_cases hs : serverLen ≤ u.server.length
  · rw [if_pos hs, if_neg (fun h => absurd h.1 (Nat.not_lt.mpr hs))]
  · by_cases hf : fileNameLen ≤ u.file.length
    · rw [if_neg hs, if_neg (fun h => absurd h.2 (Nat.not_lt.mpr hf))]
      simp only [if_pos hf]
    · rw [if_neg hs, if_pos ⟨Nat.not_le.mp hs, Nat.not_le.mp hf⟩]
      simp only [if_neg hf]

theorem take_scheme (rest : Bytes) : (lit "rtsp://" ++ rest).take 7 = lit "rtsp://" := rfl

theorem parse_url_url (u : Location) (serverLen fileNameLen : ℕ) :
    parse_url u.url serverLen fileNameLen = u.parsed rtspPortDefault serverLen fileNameLen := by
  have hport : ((u.url.drop 7).takeWhile (· != 47)).contains 58 = false := by
    rw [Location.url, show (7 : ℕ) = (lit "rtsp://").length from rfl, List.drop_left,
      takeWhile_slash u.slash_notMem]
    simpa using u.colon_notMem
  have hhost := strtok_before u.server_token (lit "rtsp://") u.file (d := 47) (by decide)
    (by decide)
  have hmem : lit "rtsp://" ++ (u.server ++ 0 :: u.file) =
      lit "rtsp://" ++ (u.server ++ [0]) ++ u.file := by simp
  have hnext : (lit "rtsp://").length + u.server.length + 1 =
      (lit "rtsp://" ++ (u.server ++ [0])).length := by
    simp only [List.length_append, List.length_singleton]
    omega
  rw [hmem, hnext] at hhost
  rw [parse_url, Location.url, if_pos (take_scheme _), ← Location.url]
  unfold parse_absolute
  rw [hport]
  simp only [Bool.false_eq_true, if_false]
  rw [show strtok ⟨u.url, 7⟩ (lit " :/\t\n") = _ from hhost]
  exact parsed_of_last u _ _ serverLen fileNameLen

/-- With a port there is a scan in between, from behind the zero that the first
one has put in the place of the colon. -/
theorem parse_url_urlAt (u : Location) {port : ℕ} (hport : port < 2 ^ 16)
    (serverLen fileNameLen : ℕ) :
    parse_url (u.urlAt port) serverLen fileNameLen = u.parsed port serverLen fileNameLen := by
  have hsplit : u.urlAt port = lit "rtsp://" ++ (u.server ++ 58 :: natText port ++ 47 :: u.file) := by
    rw [Location.urlAt, List.append_assoc, List.cons_append]
  have hslash : 47 ∉ u.server ++ 58 :: natText port := by
    intro h
    rcases List.mem_append.mp h with h | h
    · exact u.slash_notMem h
    · rcases List.mem_cons.mp h with h | h
      · cases h
      · cases isDigit_natText _ _ h
  have hcolon : (((u.urlAt port).drop 7).takeWhile (· != 47)).contains 58 = true := by
    rw [hsplit, show (7 : ℕ) = (lit "rtsp://").length from rfl, List.drop_left,
      takeWhile_slash hslash]
    simp
  have hhost := strtok_before u.server_token (lit "rtsp://") (natText port ++ 47 :: u.file)
    (d := 58) (by decide) (by decide)
  have hscan := strtok_before (natText_token port) (lit "rtsp://" ++ (u.server ++ [0])) u.file
    (d := 47) (by decide) (by decide)
  have hmem : lit "rtsp://" ++ (u.server ++ 0 :: (natText port ++ 47 :: u.file)) =
      lit "rtsp://" ++ (u.server ++ [0]) ++ (natText port ++ 47 :: u.file) := by simp
  have hat : (lit "rtsp://" ++ (u.server ++ [0])).length = u.server.length + 7 + 1 := by
    simp only [List.length_append, List.length_singleton, show (lit "rtsp://").length = 7 from rfl]
    omega
  have hrest : lit "rtsp://" ++ (u.server ++ [0]) ++ (natText port ++ 0 :: u.file) =
      lit "rtsp://" ++ (u.server ++ [0]) ++ (natText port ++ [0]) ++ u.file := by simp
  have hnext : (lit "rtsp://" ++ (u.server ++ [0])).length + (natText port).length + 1 =
      (lit "rtsp://" ++ (u.server ++ [0]) ++ (natText port ++ [0])).length := by
    simp only [List.length_append, List.length_singleton]
    omega
  rw [hrest, hnext, hat] at hscan
  have hread : (atol (natText port) % 2 ^ 16).toNat = port := by
    rw [atol_natText (by omega)]
    omega
  rw [parse_url, Location.urlAt, if_pos (take_scheme _), ← Location.urlAt]
  unfold parse_absolute
  rw [hcolon, show strtok ⟨u.urlAt port, 7⟩ (lit " :/\t\n") = _ from hhost, hmem]
  simp only [if_true]
  rw [hscan]
  simp only [hread]
  exact parsed_of_last u _ _ serverLen fileNameLen

/-- Either URL gives back what it was written from, and no more than the two
destinations hold. -/
theorem parse_url_round_trip (u : Location) (port : ℕ) (hport : port < 2 ^ 16)
    (serverLen fileNameLen : ℕ) :
    parse_url (u.urlAt port) serverLen fileNameLen = u.parsed port serverLen fileNameLen ∧
    parse_url u.url serverLen fileNameLen = u.parsed rtspPortDefault serverLen fileNameLen :=
  ⟨parse_url_urlAt u hport serverLen fileNameLen, parse_url_url u serverLen fileNameLen⟩

def filmLocation : Location where
  server := lit "host"
  file := lit "/a:b//film.sd"
  server_token := ⟨by decide, by decide⟩
  file_token := ⟨by decide, by decide⟩

theorem film_round_trip :
    (8554 < 2 ^ 16 ∧ filmLocation.parsed 8554 255 255 =
      .ok ⟨lit "host", 8554, lit "/a:b//film.sd"⟩) ∧
    parse_url (filmLocation.urlAt 8554) 255 255 = filmLocation.parsed 8554 255 255 ∧
    parse_url filmLocation.url 255 255 = filmLocation.parsed rtspPortDefault 255 255 :=
  ⟨⟨by decide, by decide⟩, parse_url_round_trip filmLocation 8554 (by decide) 255 255⟩

end Fenice.Rtsp
