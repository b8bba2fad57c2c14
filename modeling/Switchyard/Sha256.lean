import Switchyard.ByteFields
set_option autoImplicit false

/-! The SHA-256 function of FIPS 180-4 on byte strings. -/

namespace Sha256
open ByteFields

def rotr (n x : UInt32) : UInt32 := x >>> n ||| x <<< (32-n)

def sum0 (x : UInt32) : UInt32 := rotr 2 x ^^^ rotr 13 x ^^^ rotr 22 x
def sum1 (x : UInt32) : UInt32 := rotr 6 x ^^^ rotr 11 x ^^^ rotr 25 x
def sigma0 (x : UInt32) : UInt32 := rotr 7 x ^^^ rotr 18 x ^^^ x >>> 3
def sigma1 (x : UInt32) : UInt32 := rotr 17 x ^^^ rotr 19 x ^^^ x >>> 10
def choose (x y z : UInt32) : UInt32 := x &&& y ^^^ ~~~x &&& z
def majority (x y z : UInt32) : UInt32 := x &&& y ^^^ x &&& z ^^^ y &&& z

def roundConstants : List UInt32 := [
  0x428a2f98,0x71374491,0xb5c0fbcf,0xe9b5dba5,0x3956c25b,0x59f111f1,0x923f82a4,0xab1c5ed5,
  0xd807aa98,0x12835b01,0x243185be,0x550c7dc3,0x72be5d74,0x80deb1fe,0x9bdc06a7,0xc19bf174,
  0xe49b69c1,0xefbe4786,0x0fc19dc6,0x240ca1cc,0x2de92c6f,0x4a7484aa,0x5cb0a9dc,0x76f988da,
  0x983e5152,0xa831c66d,0xb00327c8,0xbf597fc7,0xc6e00bf3,0xd5a79147,0x06ca6351,0x14292967,
  0x27b70a85,0x2e1b2138,0x4d2c6dfc,0x53380d13,0x650a7354,0x766a0abb,0x81c2c92e,0x92722c85,
  0xa2bfe8a1,0xa81a664b,0xc24b8b70,0xc76c51a3,0xd192e819,0xd6990624,0xf40e3585,0x106aa070,
  0x19a4c116,0x1e376c08,0x2748774c,0x34b0bcb5,0x391c0cb3,0x4ed8aa4a,0x5b9cca4f,0x682e6ff3,
  0x748f82ee,0x78a5636f,0x84c87814,0x8cc70208,0x90befffa,0xa4506ceb,0xbef9a3f7,0xc67178f2]

structure Chaining where
  a : UInt32
  b : UInt32
  c : UInt32
  d : UInt32
  e : UInt32
  f : UInt32
  g : UInt32
  h : UInt32
  deriving DecidableEq, Repr

def initial : Chaining :=
  ⟨0x6a09e667,0xbb67ae85,0x3c6ef372,0xa54ff53a,0x510e527f,0x9b05688c,0x1f83d9ab,0x5be0cd19⟩

def round (k w : UInt32) (s : Chaining) : Chaining :=
  let t := s.h+sum1 s.e+choose s.e s.f s.g+k+w
  ⟨t+sum0 s.a+majority s.a s.b s.c,s.a,s.b,s.c,s.d+t,s.e,s.f,s.g⟩

/-- One round per constant over the sliding window of the last sixteen schedule
words. -/
def rounds : List UInt32 → List UInt32 → Chaining → Chaining
  | k :: ks,w :: ws,s =>
    let next := sigma1 (ws.getD 13 0)+ws.getD 8 0+sigma0 (ws.getD 0 0)+w
    rounds ks (ws ++ [next]) (round k w s)
  | _,_,s => s

def Chaining.add (s t : Chaining) : Chaining :=
  ⟨s.a+t.a,s.b+t.b,s.c+t.c,s.d+t.d,s.e+t.e,s.f+t.f,s.g+t.g,s.h+t.h⟩

def words : List UInt8 → List UInt32
  | p :: q :: r :: s :: rest =>
    (p.toUInt32 <<< 24 ||| q.toUInt32 <<< 16 ||| r.toUInt32 <<< 8 ||| s.toUInt32) :: words rest
  | _ => []

def compress (s : Chaining) (block : List UInt8) : Chaining :=
  s.add (rounds roundConstants (words block) s)

def pad (m : List UInt8) : List UInt8 :=
  m ++ 0x80 :: (List.replicate ((119-m.length%64)%64) 0 ++ bigEndian 8 (8*m.length))

def blocks : Nat → List UInt8 → Chaining → Chaining
  | 0,_,s => s
  | n+1,m,s => blocks n (m.drop 64) (compress s (m.take 64))

def Chaining.bytes (s : Chaining) : List UInt8 :=
  [s.a,s.b,s.c,s.d,s.e,s.f,s.g,s.h].flatMap fun w => bigEndian 4 w.toNat

def sha256 (m : List UInt8) : List UInt8 :=
  (blocks ((pad m).length/64) (pad m) initial).bytes

theorem sha256_length (m : List UInt8) : (sha256 m).length = 32 := by
  simp [sha256,Chaining.bytes]

example : sha256 [0x61,0x62,0x63] =
    [0xba,0x78,0x16,0xbf,0x8f,0x01,0xcf,0xea,0x41,0x41,0x40,0xde,0x5d,0xae,0x22,0x23,
     0xb0,0x03,0x61,0xa3,0x96,0x17,0x7a,0x9c,0xb4,0x10,0xff,0x61,0xf2,0x00,0x15,0xad] := by
  decide +kernel

def hmac (key m : List UInt8) : List UInt8 :=
  let short := if 64 < key.length then sha256 key else key
  let block := short ++ List.replicate (64-short.length) 0
  sha256 (block.map (· ^^^ 0x5c) ++ sha256 (block.map (· ^^^ 0x36) ++ m))

end Sha256
