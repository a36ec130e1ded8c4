/-
Module: Gvds.Manager.Md5
Layer: Manager
Purpose: The digest of passwords and session tokens (manager/usermodel/MD5.cc, and md5 of
  UserModelServer.cc) in the arithmetic of the code: a word is an unsigned long of 64 bits. A
  context takes a text in any number of calls.
Imports: Mathlib.Data.UInt
Trusted boundary: unsigned long has 64 bits and unsigned int 32
Main exports: MD5_CTX, MD5Init, MD5Update, MD5Final, TransformMD5, md5
-/
import Mathlib.Data.UInt

namespace Gvds.Md5

/-! ### The basic step -/

def F (x y z : UInt64) : UInt64 := (x &&& y) ||| (~~~x &&& z)

def G (x y z : UInt64) : UInt64 := (x &&& z) ||| (y &&& ~~~z)

def H (x y z : UInt64) : UInt64 := x ^^^ y ^^^ z

def I (x y z : UInt64) : UInt64 := y ^^^ (x ||| ~~~z)

/-- `ROTATE_LEFT` shifts by 32 bits in all, whatever the width of a word. -/
def ROTATE_LEFT (x n : UInt64) : UInt64 := (x <<< n) ||| (x >>> (32 - n))

def FF (a b c d x s ac : UInt64) : UInt64 := ROTATE_LEFT (a + (F b c d + x + ac)) s + b

def GG (a b c d x s ac : UInt64) : UInt64 := ROTATE_LEFT (a + (G b c d + x + ac)) s + b

def HH (a b c d x s ac : UInt64) : UInt64 := ROTATE_LEFT (a + (H b c d + x + ac)) s + b

def II (a b c d x s ac : UInt64) : UInt64 := ROTATE_LEFT (a + (I b c d + x + ac)) s + b

def S11 : UInt64 := 7
def S12 : UInt64 := 12
def S13 : UInt64 := 17
def S14 : UInt64 := 22
def S21 : UInt64 := 5
def S22 : UInt64 := 9
def S23 : UInt64 := 14
def S24 : UInt64 := 20
def S31 : UInt64 := 4
def S32 : UInt64 := 11
def S33 : UInt64 := 16
def S34 : UInt64 := 23
def S41 : UInt64 := 6
def S42 : UInt64 := 10
def S43 : UInt64 := 15
def S44 : UInt64 := 21

/-- `buf` of `MD5_CTX`. -/
structure Buf where
  b0 : UInt64
  b1 : UInt64
  b2 : UInt64
  b3 : UInt64
deriving DecidableEq

/-- `TransformMD5`. No proof looks into it. -/
@[irreducible] def TransformMD5 (buf : Buf) (words : List UInt64) : Buf :=
  let x := fun k : Nat => words.getD k 0
  let a := buf.b0
  let b := buf.b1
  let c := buf.b2
  let d := buf.b3
  -- Round 1
  let a := FF a b c d (x 0) S11 3614090360
  let d := FF d a b c (x 1) S12 3905402710
  let c := FF c d a b (x 2) S13 606105819
  let b := FF b c d a (x 3) S14 3250441966
  let a := FF a b c d (x 4) S11 4118548399
  let d := FF d a b c (x 5) S12 1200080426
  let c := FF c d a b (x 6) S13 2821735955
  let b := FF b c d a (x 7) S14 4249261313
  let a := FF a b c d (x 8) S11 1770035416
  let d := FF d a b c (x 9) S12 2336552879
  let c := FF c d a b (x 10) S13 4294925233
  let b := FF b c d a (x 11) S14 2304563134
  let a := FF a b c d (x 12) S11 1804603682
  let d := FF d a b c (x 13) S12 4254626195
  let c := FF c d a b (x 14) S13 2792965006
  let b := FF b c d a (x 15) S14 1236535329
  -- Round 2
  let a := GG a b c d (x 1) S21 4129170786
  let d := GG d a b c (x 6) S22 3225465664
  let c := GG c d a b (x 11) S23 643717713
  let b := GG b c d a (x 0) S24 3921069994
  let a := GG a b c d (x 5) S21 3593408605
  let d := GG d a b c (x 10) S22 38016083
  let c := GG c d a b (x 15) S23 3634488961
  let b := GG b c d a (x 4) S24 3889429448
  let a := GG a b c d (x 9) S21 568446438
  let d := GG d a b c (x 14) S22 3275163606
  let c := GG c d a b (x 3) S23 4107603335
  let b := GG b c d a (x 8) S24 1163531501
  let a := GG a b c d (x 13) S21 2850285829
  let d := GG d a b c (x 2) S22 4243563512
  let c := GG c d a b (x 7) S23 1735328473
  let b := GG b c d a (x 12) S24 2368359562
  -- Round 3
  let a := HH a b c d (x 5) S31 4294588738
  let d := HH d a b c (x 8) S32 2272392833
  let c := HH c d a b (x 11) S33 1839030562
  let b := HH b c d a (x 14) S34 4259657740
  let a := HH a b c d (x 1) S31 2763975236
  let d := HH d a b c (x 4) S32 1272893353
  let c := HH c d a b (x 7) S33 4139469664
  let b := HH b c d a (x 10) S34 3200236656
  let a := HH a b c d (x 13) S31 681279174
  let d := HH d a b c (x 0) S32 3936430074
  let c := HH c d a b (x 3) S33 3572445317
  let b := HH b c d a (x 6) S34 76029189
  let a := HH a b c d (x 9) S31 3654602809
  let d := HH d a b c (x 12) S32 3873151461
  let c := HH c d a b (x 15) S33 530742520
  let b := HH b c d a (x 2) S34 3299628645
  -- Round 4
  let a := II a b c d (x 0) S41 4096336452
  let d := II d a b c (x 7) S42 1126891415
  let c := II c d a b (x 14) S43 2878612391
  let b := II b c d a (x 5) S44 4237533241
  let a := II a b c d (x 12) S41 1700485571
  let d := II d a b c (x 3) S42 2399980690
  let c := II c d a b (x 10) S43 4293915773
  let b := II b c d a (x 1) S44 2240044497
  let a := II a b c d (x 8) S41 1873313359
  let d := II d a b c (x 15) S42 4264355552
  let c := II c d a b (x 6) S43 2734768916
  let b := II b c d a (x 13) S44 1309151649
  let a := II a b c d (x 4) S41 4149444226
  let d := II d a b c (x 11) S42 3174756917
  let c := II c d a b (x 2) S43 718787259
  let b := II b c d a (x 9) S44 3951481745
  ⟨buf.b0 + a, buf.b1 + b, buf.b2 + c, buf.b3 + d⟩

/-! ### Contexts -/

/-- `MD5_CTX`. `in_` has 64 bytes. -/
structure MD5_CTX where
  i0 : UInt64
  i1 : UInt64
  buf : Buf
  in_ : List UInt8
  digest : List UInt8
deriving DecidableEq

/-- The initialization constants. -/
def magic : Buf := ⟨0x67452301, 0xefcdab89, 0x98badcfe, 0x10325476⟩

/-- `MD5Init`, of a context with anything in its buffers. -/
def MD5Init (mdContext : MD5_CTX) : MD5_CTX := { mdContext with i0 := 0, i1 := 0, buf := magic }

/-- The word that begins at byte `ii`. -/
def wordAt (bytes : List UInt8) (ii : Nat) : UInt64 :=
  ((bytes.getD (ii + 3) 0).toUInt64 <<< 24) ||| ((bytes.getD (ii + 2) 0).toUInt64 <<< 16) |||
    ((bytes.getD (ii + 1) 0).toUInt64 <<< 8) ||| (bytes.getD ii 0).toUInt64

/-- The first `k` words of some bytes. -/
def wordsOf (k : Nat) (bytes : List UInt8) : List UInt64 :=
  (List.range k).map fun i => wordAt bytes (4 * i)

/-- One round of the loop in `MD5Update`, with `mdi`. -/
def updateRound (s : MD5_CTX × Nat) (byte : UInt8) : MD5_CTX × Nat :=
  let mdContext := { s.1 with in_ := s.1.in_.set s.2 byte }
  if s.2 + 1 = 0x40 then
    ({ mdContext with buf := TransformMD5 mdContext.buf (wordsOf 16 mdContext.in_) }, 0)
  else (mdContext, s.2 + 1)

/-- The number of bytes mod 64. -/
def mdi (mdContext : MD5_CTX) : Nat := ((mdContext.i0 >>> 3) &&& 0x3F).toNat

/-- `MD5Update`. -/
def MD5Update (mdContext : MD5_CTX) (inBuf : List UInt8) (inLen : UInt32) : MD5_CTX :=
  let bits := inLen.toUInt64 <<< 3
  let i1 := if mdContext.i0 + bits < mdContext.i0 then mdContext.i1 + 1 else mdContext.i1
  ((inBuf.take inLen.toNat).foldl updateRound
    ({ mdContext with i0 := mdContext.i0 + bits, i1 := i1 + (inLen.toUInt64 >>> 29) },
      mdi mdContext)).1

/-- `PADDING`. -/
def PADDING : List UInt8 := 0x80 :: List.replicate 63 0

/-- A word's low bytes, the lowest first. -/
def storeWord (x : UInt64) : List UInt8 :=
  [(x &&& 0xFF).toUInt8, ((x >>> 8) &&& 0xFF).toUInt8, ((x >>> 16) &&& 0xFF).toUInt8,
    ((x >>> 24) &&& 0xFF).toUInt8]

/-- What `MD5Final` stores in `digest`. -/
def storeBuf (buf : Buf) : List UInt8 :=
  storeWord buf.b0 ++ storeWord buf.b1 ++ storeWord buf.b2 ++ storeWord buf.b3

/-- `MD5Final`. -/
def MD5Final (mdContext : MD5_CTX) : MD5_CTX :=
  let padLen := if mdi mdContext < 56 then 56 - mdi mdContext else 120 - mdi mdContext
  let padded := MD5Update mdContext PADDING (UInt32.ofNat padLen)
  let buf := TransformMD5 padded.buf (wordsOf 14 padded.in_ ++ [mdContext.i0, mdContext.i1])
  { padded with buf := buf, digest := storeBuf buf }

/-- A hexadecimal digit. -/
def hexDigit (n : UInt8) : UInt8 := if n < 10 then 48 + n else 87 + n

/-- What `%02x` prints of a byte. -/
def hexByte (b : UInt8) : List UInt8 := [hexDigit (b / 16), hexDigit (b % 16)]

/-- `md5`, with a context that has anything in it. -/
def md5 (mdContext : MD5_CTX) (strPlain : List UInt8) : List UInt8 :=
  (MD5Final (MD5Update (MD5Init mdContext) strPlain (UInt32.ofNat strPlain.length))).digest.flatMap
    hexByte

end Gvds.Md5
