/-!
# SHA-256

The message is followed by a one bit, zeros and its length in bits as 64 bits, so that its bytes
fill blocks of sixteen 32 bit words. Each block is extended to sixty-four words, which then drive
the eight words of the state through one round each; the result is added to the state.
-/

namespace FragmentArchive.Sha256

/-- The first 32 bits of the fractional parts of the cube roots of the first sixty-four primes. -/
private def constants : List UInt32 :=
  [0x428a2f98, 0x71374491, 0xb5c0fbcf, 0xe9b5dba5, 0x3956c25b, 0x59f111f1, 0x923f82a4, 0xab1c5ed5,
    0xd807aa98, 0x12835b01, 0x243185be, 0x550c7dc3, 0x72be5d74, 0x80deb1fe, 0x9bdc06a7, 0xc19bf174,
    0xe49b69c1, 0xefbe4786, 0x0fc19dc6, 0x240ca1cc, 0x2de92c6f, 0x4a7484aa, 0x5cb0a9dc, 0x76f988da,
    0x983e5152, 0xa831c66d, 0xb00327c8, 0xbf597fc7, 0xc6e00bf3, 0xd5a79147, 0x06ca6351, 0x14292967,
    0x27b70a85, 0x2e1b2138, 0x4d2c6dfc, 0x53380d13, 0x650a7354, 0x766a0abb, 0x81c2c92e, 0x92722c85,
    0xa2bfe8a1, 0xa81a664b, 0xc24b8b70, 0xc76c51a3, 0xd192e819, 0xd6990624, 0xf40e3585, 0x106aa070,
    0x19a4c116, 0x1e376c08, 0x2748774c, 0x34b0bcb5, 0x391c0cb3, 0x4ed8aa4a, 0x5b9cca4f, 0x682e6ff3,
    0x748f82ee, 0x78a5636f, 0x84c87814, 0x8cc70208, 0x90befffa, 0xa4506ceb, 0xbef9a3f7, 0xc67178f2]

/-- The eight words that digest a message so far. -/
structure State where
  a : UInt32
  b : UInt32
  c : UInt32
  d : UInt32
  e : UInt32
  f : UInt32
  g : UInt32
  h : UInt32
deriving DecidableEq, Repr

/-- The state before any block. -/
def State.start : State :=
  ⟨0x6a09e667, 0xbb67ae85, 0x3c6ef372, 0xa54ff53a, 0x510e527f, 0x9b05688c, 0x1f83d9ab, 0x5be0cd19⟩

private def rotate (x n : UInt32) : UInt32 := (x >>> n) ||| (x <<< (32 - n))

/-- One round, with the constant and the message word of its number. -/
private def State.round (s : State) (k w : UInt32) : State :=
  let mix := rotate s.e 6 ^^^ rotate s.e 11 ^^^ rotate s.e 25
  let choice := (s.e &&& s.f) ^^^ (~~~s.e &&& s.g)
  let first := s.h + mix + choice + k + w
  let mix' := rotate s.a 2 ^^^ rotate s.a 13 ^^^ rotate s.a 22
  let majority := (s.a &&& s.b) ^^^ (s.a &&& s.c) ^^^ (s.b &&& s.c)
  ⟨first + mix' + majority, s.a, s.b, s.c, s.d + first, s.e, s.f, s.g⟩

private def State.add (s t : State) : State :=
  ⟨s.a + t.a, s.b + t.b, s.c + t.c, s.d + t.d, s.e + t.e, s.f + t.f, s.g + t.g, s.h + t.h⟩

/-- Extends the words of a block, the latest one first, by as many more as are asked for. -/
private def extend : Nat → List UInt32 → List UInt32
  | 0, ws => ws
  | n + 1, ws =>
    let word (i : Nat) : UInt32 := ws.getD (i - 1) 0
    let low := word 15
    let high := word 2
    let s0 := rotate low 7 ^^^ rotate low 18 ^^^ (low >>> 3)
    let s1 := rotate high 17 ^^^ rotate high 19 ^^^ (high >>> 10)
    extend n ((word 16 + s0 + word 7 + s1) :: ws)

/-- Digests one block of sixteen words. -/
private def State.block (s : State) (words : List UInt32) : State :=
  let schedule := (extend 48 words.reverse).reverse
  s.add ((constants.zip schedule).foldl (fun t kw ↦ t.round kw.1 kw.2) s)

/-- The message with the bits that complete its last block. -/
private def pad (message : List UInt8) : List UInt8 :=
  let bits := message.length * 8
  let zeros := (119 - message.length % 64) % 64
  let length := (List.range 8).map fun i ↦ UInt8.ofNat (bits >>> (56 - 8 * i))
  message ++ [0x80] ++ List.replicate zeros 0 ++ length

/-- Groups bytes into words, the most significant byte first. -/
private def toWords : List UInt8 → List UInt32
  | a :: b :: c :: d :: rest =>
    ((a.toUInt32 <<< 24) ||| (b.toUInt32 <<< 16) ||| (c.toUInt32 <<< 8) ||| d.toUInt32)
      :: toWords rest
  | _ => []

private def digestBlocks (s : State) (words : List UInt32) : State :=
  match words with
  | [] => s
  | w :: ws => digestBlocks (s.block ((w :: ws).take 16)) ((w :: ws).drop 16)
termination_by words.length
decreasing_by
  simp only [List.length_drop, List.length_cons]
  omega

/-- The digest of a message. -/
def digest (message : List UInt8) : State := digestBlocks .start (toWords (pad message))

private def hex (w : UInt32) : List Char :=
  (List.range 8).map fun i ↦ Nat.digitChar ((w >>> (UInt32.ofNat (28 - 4 * i)) &&& 15).toNat)

/-- The digest of a message in lower-case hexadecimal. -/
def hexDigest (message : List UInt8) : String :=
  let s := digest message
  String.ofList ([s.a, s.b, s.c, s.d, s.e, s.f, s.g, s.h].flatMap hex)

end FragmentArchive.Sha256
