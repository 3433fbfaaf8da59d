import Athena.Crypt.Exchange
/-!
# Digests

`hmac64`, `hashkey` and `hmac_hash` of `lua-crypt.c`: what a client answers to a
challenge and signs a handshake with.
-/

namespace Athena

namespace Crypt

open Lua (Str)

/-! ## Tables -/

/-- `k`. -/
def k : List Word :=
  [0xd76aa478, 0xe8c7b756, 0x242070db, 0xc1bdceee, 0xf57c0faf, 0x4787c62a, 0xa8304613, 0xfd469501,
    0x698098d8, 0x8b44f7af, 0xffff5bb1, 0x895cd7be, 0x6b901122, 0xfd987193, 0xa679438e, 0x49b40821,
    0xf61e2562, 0xc040b340, 0x265e5a51, 0xe9b6c7aa, 0xd62f105d, 0x02441453, 0xd8a1e681, 0xe7d3fbc8,
    0x21e1cde6, 0xc33707d6, 0xf4d50d87, 0x455a14ed, 0xa9e3e905, 0xfcefa3f8, 0x676f02d9, 0x8d2a4c8a,
    0xfffa3942, 0x8771f681, 0x6d9d6122, 0xfde5380c, 0xa4beea44, 0x4bdecfa9, 0xf6bb4b60, 0xbebfbc70,
    0x289b7ec6, 0xeaa127fa, 0xd4ef3085, 0x04881d05, 0xd9d4d039, 0xe6db99e5, 0x1fa27cf8, 0xc4ac5665,
    0xf4292244, 0x432aff97, 0xab9423a7, 0xfc93a039, 0x655b59c3, 0x8f0ccc92, 0xffeff47d, 0x85845dd1,
    0x6fa87e4f, 0xfe2ce6e0, 0xa3014314, 0x4e0811a1, 0xf7537e82, 0xbd3af235, 0x2ad7d2bb, 0xeb86d391]

/-- `r`. -/
def r : List ℕ :=
  [7, 12, 17, 22, 7, 12, 17, 22, 7, 12, 17, 22, 7, 12, 17, 22,
    5, 9, 14, 20, 5, 9, 14, 20, 5, 9, 14, 20, 5, 9, 14, 20,
    4, 11, 16, 23, 4, 11, 16, 23, 4, 11, 16, 23, 4, 11, 16, 23,
    6, 10, 15, 21, 6, 10, 15, 21, 6, 10, 15, 21, 6, 10, 15, 21]

/-! ## MD5 -/

/-- `LEFTROTATE`. -/
def leftrotate (x : Word) (c : ℕ) : Word := (x <<< c) ||| (x >>> (32 - c))

/-- The loop of `digest_md5`, of which `n` turns are left. -/
def md5Loop (w : List Word) : ℕ → Word → Word → Word → Word → List Word
  | 0, a, b, c, d => [a, b, c, d]
  | n + 1, a, b, c, d =>
    let i := 63 - n
    let (f, g) :=
      if i < 16 then ((b &&& c) ||| (~~~b &&& d), i)
      else if i < 32 then ((d &&& b) ||| (~~~d &&& c), (5 * i + 1) % 16)
      else if i < 48 then (b ^^^ c ^^^ d, (3 * i + 5) % 16)
      else (c ^^^ (b ||| ~~~d), 7 * i % 16)
    md5Loop w n d (b + leftrotate (a + f + k.getD i 0 + w.getD g 0) (r.getD i 0)) b c

/-- **`digest_md5`.** -/
def digest_md5 (w : List Word) : List Word := md5Loop w 64 0x67452301 0xefcdab89 0x98badcfe 0x10325476

/-- The digest of nothing, but for its padding. -/
example : (digest_md5 (0x80 :: List.replicate 15 0)).zipWith (· + ·) [0x67452301, 0xefcdab89, 0x98badcfe, 0x10325476] =
    [0xd98c1dd4, 0x04b2008f, 0x980980e9, 0x7e42f8ec] := by
  decide +kernel

/-- **`hmac`**, of two pairs of words. -/
def hmac (x y : Word × Word) : Word × Word :=
  let r := digest_md5 ((List.replicate 4 [x.2, x.1, y.2, y.1]).flatten)
  (r.getD 2 0 ^^^ r.getD 3 0, r.getD 0 0 ^^^ r.getD 1 0)

/-! ## Words of texts -/

/-- `x[0] | x[1]<<8 | x[2]<<16 | x[3]<<24`, and the four behind. -/
def read64 (x : Str) : Word × Word :=
  (BitVec.ofNat 32 (word64 (x.take 4)), BitVec.ofNat 32 (word64 (x.drop 4)))

/-- `pushqword`. -/
def pushqword (r : Word × Word) : Str := push64 (r.1.toNat + 2 ^ 32 * r.2.toNat)

/-- **`hmac64`.** -/
def hmac64 (x y : Str) : Except Failure Str :=
  if x.length ≠ 8 then .error .uint64X
  else if y.length ≠ 8 then .error .uint64Y
  else .ok (pushqword (hmac (read64 x) (read64 y)))

/-- A turn of `Hash`. -/
def hashTurn (h : Word × Word) (c : Char) : Word × Word :=
  (h.1 + ((h.1 <<< 5) + BitVec.ofNat 32 c.toNat),
    h.2 ^^^ ((h.2 <<< 5) + BitVec.ofNat 32 c.toNat + (h.2 >>> 2)))

/-- **`Hash`**: the words of `key`. -/
def hash (str : Str) : Word × Word := str.foldl hashTurn (5381, 1315423911)

/-- `hashkey`. -/
def hashkey (key : Str) : Str := pushqword (hash key)

/-- **`hmac_hash`.** -/
def hmac_hash (key text : Str) : Except Failure Str :=
  if key.length ≠ 8 then .error .uint64Key else .ok (pushqword (hmac (hash text) (read64 key)))

/-! ## What they compute -/

/-- A pair of words is written in bytes -/
theorem bytes_pushqword (r : Word × Word) : Bytes (pushqword r) := bytes_push64 _

/-- and in eight of them. -/
theorem length_pushqword (r : Word × Word) : (pushqword r).length = 8 := length_push64 _

end Crypt

end Athena
