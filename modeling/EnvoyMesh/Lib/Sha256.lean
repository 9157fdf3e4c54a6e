import Mathlib.Tactic.Common

/-! # SHA-256

The hash function of FIPS 180-4 on byte lists, and hexadecimal text. -/

namespace Sha256

def k : List UInt32 := [
  0x428a2f98, 0x71374491, 0xb5c0fbcf, 0xe9b5dba5, 0x3956c25b, 0x59f111f1, 0x923f82a4, 0xab1c5ed5,
  0xd807aa98, 0x12835b01, 0x243185be, 0x550c7dc3, 0x72be5d74, 0x80deb1fe, 0x9bdc06a7, 0xc19bf174,
  0xe49b69c1, 0xefbe4786, 0x0fc19dc6, 0x240ca1cc, 0x2de92c6f, 0x4a7484aa, 0x5cb0a9dc, 0x76f988da,
  0x983e5152, 0xa831c66d, 0xb00327c8, 0xbf597fc7, 0xc6e00bf3, 0xd5a79147, 0x06ca6351, 0x14292967,
  0x27b70a85, 0x2e1b2138, 0x4d2c6dfc, 0x53380d13, 0x650a7354, 0x766a0abb, 0x81c2c92e, 0x92722c85,
  0xa2bfe8a1, 0xa81a664b, 0xc24b8b70, 0xc76c51a3, 0xd192e819, 0xd6990624, 0xf40e3585, 0x106aa070,
  0x19a4c116, 0x1e376c08, 0x2748774c, 0x34b0bcb5, 0x391c0cb3, 0x4ed8aa4a, 0x5b9cca4f, 0x682e6ff3,
  0x748f82ee, 0x78a5636f, 0x84c87814, 0x8cc70208, 0x90befffa, 0xa4506ceb, 0xbef9a3f7, 0xc67178f2]

structure State where
  a : UInt32
  b : UInt32
  c : UInt32
  d : UInt32
  e : UInt32
  f : UInt32
  g : UInt32
  h : UInt32

def initial : State :=
  ⟨0x6a09e667, 0xbb67ae85, 0x3c6ef372, 0xa54ff53a, 0x510e527f, 0x9b05688c, 0x1f83d9ab, 0x5be0cd19⟩

def rotr (n x : UInt32) : UInt32 := (x >>> n) ||| (x <<< (32 - n))

def bigSigma0 (x : UInt32) : UInt32 := rotr 2 x ^^^ rotr 13 x ^^^ rotr 22 x
def bigSigma1 (x : UInt32) : UInt32 := rotr 6 x ^^^ rotr 11 x ^^^ rotr 25 x
def smallSigma0 (x : UInt32) : UInt32 := rotr 7 x ^^^ rotr 18 x ^^^ (x >>> 3)
def smallSigma1 (x : UInt32) : UInt32 := rotr 17 x ^^^ rotr 19 x ^^^ (x >>> 10)
def ch (x y z : UInt32) : UInt32 := (x &&& y) ^^^ (~~~x &&& z)
def maj (x y z : UInt32) : UInt32 := (x &&& y) ^^^ (x &&& z) ^^^ (y &&& z)

def round (s : State) (kt wt : UInt32) : State :=
  let t1 := s.h + bigSigma1 s.e + ch s.e s.f s.g + kt + wt
  let t2 := bigSigma0 s.a + maj s.a s.b s.c
  ⟨t1 + t2, s.a, s.b, s.c, s.d + t1, s.e, s.f, s.g⟩

/-- The message schedule as a window of sixteen words: its first word is used, its next one added. -/
def slide (window : List UInt32) : List UInt32 :=
  window.tail ++ [smallSigma1 (window.getD 14 0) + window.getD 9 0 + smallSigma0 (window.getD 1 0) + window.getD 0 0]

def rounds : List UInt32 → State → List UInt32 → State
  | [], s, _ => s
  | kt :: ks, s, window => rounds ks (round s kt (window.getD 0 0)) (slide window)

def compress (s : State) (block : List UInt32) : State :=
  let t := rounds k s block
  ⟨s.a + t.a, s.b + t.b, s.c + t.c, s.d + t.d, s.e + t.e, s.f + t.f, s.g + t.g, s.h + t.h⟩

def wordBytes (w : UInt32) : List UInt8 := [(w >>> 24).toUInt8, (w >>> 16).toUInt8, (w >>> 8).toUInt8, w.toUInt8]

/-- Big-endian words; a rest of fewer than four bytes does not occur after padding. -/
def words : List UInt8 → List UInt32
  | a :: b :: c :: d :: rest =>
    ((a.toUInt32 <<< 24) ||| (b.toUInt32 <<< 16) ||| (c.toUInt32 <<< 8) ||| d.toUInt32) :: words rest
  | _ => []

/-- The bit `1`, zeros up to 56 modulo 64 bytes, and the length in bits as eight bytes. -/
def pad (msg : List UInt8) : List UInt8 :=
  let n := msg.length
  let bits := UInt64.ofNat (8 * n)
  let zeros : List UInt8 := List.replicate ((119 - n % 64) % 64) 0
  msg ++ (0x80 :: zeros) ++ wordBytes (bits >>> 32).toUInt32 ++ wordBytes bits.toUInt32

def blocks (n : Nat) (s : State) (ws : List UInt32) : State :=
  match n with
  | 0 => s
  | n + 1 => blocks n (compress s (ws.take 16)) (ws.drop 16)

def sum (msg : List UInt8) : List UInt8 :=
  let ws := words (pad msg)
  let s := blocks (ws.length / 16) initial ws
  [s.a, s.b, s.c, s.d, s.e, s.f, s.g, s.h].flatMap wordBytes

def hexChar (n : Nat) : Char := if n < 10 then Char.ofNat (n + 48) else Char.ofNat (n + 87)

def hexEncode (bytes : List UInt8) : String :=
  String.ofList (bytes.flatMap fun b => [hexChar (b.toNat / 16), hexChar (b.toNat % 16)])

/-- The test vector of the standard for `abc`. -/
example : hexEncode (sum "abc".toUTF8.data.toList) =
    "ba7816bf8f01cfea414140de5dae2223b00361a396177a9cb410ff61f20015ad" := by decide +kernel

end Sha256
