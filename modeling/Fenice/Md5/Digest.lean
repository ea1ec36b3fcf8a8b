import Fenice.Lib.CString

/-!
# MD5 (md5/md5c.c, src/random32.c)

`UINT4` is `unsigned long int`: `w` is the number of its bits.
-/

namespace Fenice.Md5
open Fenice.CString

variable {w : ℕ}

/-! ### Words and bytes -/

/-- `Decode` on four bytes. -/
def decode4 (w : ℕ) : Bytes → BitVec w
  | [b₀, b₁, b₂, b₃] =>
    BitVec.ofNat w b₀.toNat ||| BitVec.ofNat w b₁.toNat <<< 8 |||
      BitVec.ofNat w b₂.toNat <<< 16 ||| BitVec.ofNat w b₃.toNat <<< 24
  | _ => 0

def Decode (w : ℕ) (input : Bytes) (len : ℕ) : List (BitVec w) :=
  (List.range (len / 4)).map fun i => decode4 w ((input.drop (4 * i)).take 4)

def byteAt (x : BitVec w) (shift : ℕ) : UInt8 := UInt8.ofNat ((x >>> shift) &&& 0xff).toNat

def Encode (input : List (BitVec w)) : Bytes :=
  input.flatMap fun x => [byteAt x 0, byteAt x 8, byteAt x 16, byteAt x 24]

/-! ### The transformation -/

/-- `F`, `G`, `H` and `I`. -/
def F (x y z : BitVec w) : BitVec w := (x &&& y) ||| (~~~x &&& z)
def G (x y z : BitVec w) : BitVec w := (x &&& z) ||| (y &&& ~~~z)
def H (x y z : BitVec w) : BitVec w := x ^^^ y ^^^ z
def I (x y z : BitVec w) : BitVec w := y ^^^ (x ||| ~~~z)

/-- `ROTATE_LEFT`; it rotates 32 bits whatever the word has. -/
def ROTATE_LEFT (x : BitVec w) (n : ℕ) : BitVec w := (x <<< n) ||| (x >>> (32 - n))

/-- The members of `state`. -/
structure State (w : ℕ) where
  A : BitVec w
  B : BitVec w
  C : BitVec w
  D : BitVec w
  deriving DecidableEq

def State.words (s : State w) : List (BitVec w) := [s.A, s.B, s.C, s.D]

/-- A line of a round: the word of the block and the added constant. -/
structure Line where
  x : ℕ
  ac : ℕ

/-- One of `FF`, `GG`, `HH` and `II`. The next line has the four words one place on. -/
def step (fn : BitVec w → BitVec w → BitVec w → BitVec w) (x : List (BitVec w)) (s : State w)
    (shift : ℕ) (line : Line) : State w :=
  let a := s.A + fn s.B s.C s.D + x.getD line.x 0 + BitVec.ofNat w line.ac
  ⟨s.D, ROTATE_LEFT a shift + s.B, s.B, s.C⟩

/-- The four shifts of a round are used in turn. -/
def round (fn : BitVec w → BitVec w → BitVec w → BitVec w) (shifts : List ℕ) (lines : List Line)
    (x : List (BitVec w)) (s : State w) : State w :=
  lines.zipIdx.foldl (fun s (line, i) => step fn x s (shifts.getD (i % 4) 0) line) s

def round1 : List Line :=
  [⟨0, 0xd76aa478⟩, ⟨1, 0xe8c7b756⟩, ⟨2, 0x242070db⟩, ⟨3, 0xc1bdceee⟩,
   ⟨4, 0xf57c0faf⟩, ⟨5, 0x4787c62a⟩, ⟨6, 0xa8304613⟩, ⟨7, 0xfd469501⟩,
   ⟨8, 0x698098d8⟩, ⟨9, 0x8b44f7af⟩, ⟨10, 0xffff5bb1⟩, ⟨11, 0x895cd7be⟩,
   ⟨12, 0x6b901122⟩, ⟨13, 0xfd987193⟩, ⟨14, 0xa679438e⟩, ⟨15, 0x49b40821⟩]

def round2 : List Line :=
  [⟨1, 0xf61e2562⟩, ⟨6, 0xc040b340⟩, ⟨11, 0x265e5a51⟩, ⟨0, 0xe9b6c7aa⟩,
   ⟨5, 0xd62f105d⟩, ⟨10, 0x2441453⟩, ⟨15, 0xd8a1e681⟩, ⟨4, 0xe7d3fbc8⟩,
   ⟨9, 0x21e1cde6⟩, ⟨14, 0xc33707d6⟩, ⟨3, 0xf4d50d87⟩, ⟨8, 0x455a14ed⟩,
   ⟨13, 0xa9e3e905⟩, ⟨2, 0xfcefa3f8⟩, ⟨7, 0x676f02d9⟩, ⟨12, 0x8d2a4c8a⟩]

def round3 : List Line :=
  [⟨5, 0xfffa3942⟩, ⟨8, 0x8771f681⟩, ⟨11, 0x6d9d6122⟩, ⟨14, 0xfde5380c⟩,
   ⟨1, 0xa4beea44⟩, ⟨4, 0x4bdecfa9⟩, ⟨7, 0xf6bb4b60⟩, ⟨10, 0xbebfbc70⟩,
   ⟨13, 0x289b7ec6⟩, ⟨0, 0xeaa127fa⟩, ⟨3, 0xd4ef3085⟩, ⟨6, 0x4881d05⟩,
   ⟨9, 0xd9d4d039⟩, ⟨12, 0xe6db99e5⟩, ⟨15, 0x1fa27cf8⟩, ⟨2, 0xc4ac5665⟩]

def round4 : List Line :=
  [⟨0, 0xf4292244⟩, ⟨7, 0x432aff97⟩, ⟨14, 0xab9423a7⟩, ⟨5, 0xfc93a039⟩,
   ⟨12, 0x655b59c3⟩, ⟨3, 0x8f0ccc92⟩, ⟨10, 0xffeff47d⟩, ⟨1, 0x85845dd1⟩,
   ⟨8, 0x6fa87e4f⟩, ⟨15, 0xfe2ce6e0⟩, ⟨6, 0xa3014314⟩, ⟨13, 0x4e0811a1⟩,
   ⟨4, 0xf7537e82⟩, ⟨11, 0xbd3af235⟩, ⟨2, 0x2ad7d2bb⟩, ⟨9, 0xeb86d391⟩]

def MD5Transform (s : State w) (block : Bytes) : State w :=
  let x := Decode w block 64
  let t := round F [7, 12, 17, 22] round1 x s
  let t := round G [5, 9, 14, 20] round2 x t
  let t := round H [4, 11, 16, 23] round3 x t
  let t := round I [6, 10, 15, 21] round4 x t
  ⟨s.A + t.A, s.B + t.B, s.C + t.C, s.D + t.D⟩

/-! ### The context -/

structure MD5_CTX (w : ℕ) where
  state : State w
  count₀ : BitVec w
  count₁ : BitVec w
  buffer : Bytes
  full : buffer.length = 64

/-- `buffer` is not written. -/
def MD5Init (w : ℕ) (buffer : Bytes) (full : buffer.length = 64) : MD5_CTX w where
  state := ⟨0x67452301, 0xefcdab89, 0x98badcfe, 0x10325476⟩
  count₀ := 0
  count₁ := 0
  buffer := buffer
  full := full

/-- `MD5_memcpy` of `bytes` to `buffer[index]`; `none`: behind the end of the array. -/
def MD5_CTX.copyIn (c : MD5_CTX w) (index : ℕ) (bytes : Bytes) : Option (MD5_CTX w) :=
  if h : index + bytes.length ≤ 64 then
    some { c with
      buffer := c.buffer.take index ++ (bytes ++ c.buffer.drop (index + bytes.length))
      full := by
        have := c.full
        simp only [List.length_append, List.length_take, List.length_drop]
        omega }
  else none

/-- "Compute number of bytes mod 64". -/
def MD5_CTX.index (c : MD5_CTX w) : ℕ := ((c.count₀ >>> 3) &&& 0x3f).toNat

/-- "Update number of bits". -/
def MD5_CTX.counted (c : MD5_CTX w) (inputLen : ℕ) : MD5_CTX w :=
  let bits := BitVec.ofNat w inputLen <<< 3
  let count₁ := if c.count₀ + bits < bits then c.count₁ + 1 else c.count₁
  { c with count₀ := c.count₀ + bits, count₁ := count₁ + BitVec.ofNat w inputLen >>> 29 }

/-- `for (i = partLen; i + 63 < inputLen; i += 64)` on `unsigned int`; `none`: a block is read
behind the input. -/
def transformLoop (input : Bytes) (i : ℕ) (s : State w) : Option (ℕ × State w) :=
  if (i + 63) % 2 ^ 32 < input.length then
    if i + 64 ≤ input.length then
      transformLoop input (i + 64) (MD5Transform s ((input.drop i).take 64))
    else none
  else some (i, s)
termination_by input.length - i

def MD5Update (c : MD5_CTX w) (input : Bytes) : Option (MD5_CTX w) :=
  let index := c.index
  let c := c.counted input.length
  let partLen := 64 - index
  if partLen ≤ input.length then
    (c.copyIn index (input.take partLen)).bind fun c =>
      (transformLoop input partLen (MD5Transform c.state c.buffer)).bind fun (i, s) =>
        { c with state := s }.copyIn 0 (input.drop i)
  else c.copyIn index input

def PADDING : Bytes := 0x80 :: List.replicate 63 0

/-- The digest; the context is cleared. -/
def MD5Final (c : MD5_CTX w) : Option Bytes :=
  let bits := Encode [c.count₀, c.count₁]
  let index := ((c.count₀ >>> 3) &&& 0x3f).toNat
  let padLen := if index < 56 then 56 - index else 120 - index
  (MD5Update c (PADDING.take padLen)).bind fun c =>
    (MD5Update c bits).map fun c => Encode c.state.words

/-- `md_32`: the memory that `MD5Init` finds in `context.buffer` is `junk`. -/
def md_32 (w : ℕ) (junk : Bytes) (hjunk : junk.length = 64) (string : Bytes) :
    Option (BitVec 32) :=
  (MD5Update (MD5Init w junk hjunk) string).bind fun c =>
    (MD5Final c).map fun digest =>
      ((Decode 32 digest 16).take 3).foldl (· ^^^ ·) 0

end Fenice.Md5
