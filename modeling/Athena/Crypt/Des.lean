import Athena.Common.Feistel
import Athena.Lua.Number
/-!
# Encrypted texts

`desencode` and `desdecode` of `lua-crypt.c`, by which the two sides of a login hide
a token with the secret they share: DES over blocks of eight bytes, the last of which
is what is left of the text, `0x80` and zeros. Strings are bytes, so the characters of
a text are below 256. `uint32_t` is `BitVec 32`, and the words of `SK` stand in pairs,
one for each round.

The rounds are a Feistel network and the keys of `desdecode` are in the other order,
so what it reads is what was written (`desdecode_desencode`).
-/

namespace Athena

namespace Crypt

open Lua (Str)

abbrev Word := BitVec 32

/-! ## Tables -/

/-- `SB1`. -/
def sb1 : List (BitVec 32) :=
  [0x01010400, 0x00000000, 0x00010000, 0x01010404, 0x01010004, 0x00010404, 0x00000004, 0x00010000,
    0x00000400, 0x01010400, 0x01010404, 0x00000400, 0x01000404, 0x01010004, 0x01000000, 0x00000004,
    0x00000404, 0x01000400, 0x01000400, 0x00010400, 0x00010400, 0x01010000, 0x01010000, 0x01000404,
    0x00010004, 0x01000004, 0x01000004, 0x00010004, 0x00000000, 0x00000404, 0x00010404, 0x01000000,
    0x00010000, 0x01010404, 0x00000004, 0x01010000, 0x01010400, 0x01000000, 0x01000000, 0x00000400,
    0x01010004, 0x00010000, 0x00010400, 0x01000004, 0x00000400, 0x00000004, 0x01000404, 0x00010404,
    0x01010404, 0x00010004, 0x01010000, 0x01000404, 0x01000004, 0x00000404, 0x00010404, 0x01010400,
    0x00000404, 0x01000400, 0x01000400, 0x00000000, 0x00010004, 0x00010400, 0x00000000, 0x01010004]

/-- `SB2`. -/
def sb2 : List (BitVec 32) :=
  [0x80108020, 0x80008000, 0x00008000, 0x00108020, 0x00100000, 0x00000020, 0x80100020, 0x80008020,
    0x80000020, 0x80108020, 0x80108000, 0x80000000, 0x80008000, 0x00100000, 0x00000020, 0x80100020,
    0x00108000, 0x00100020, 0x80008020, 0x00000000, 0x80000000, 0x00008000, 0x00108020, 0x80100000,
    0x00100020, 0x80000020, 0x00000000, 0x00108000, 0x00008020, 0x80108000, 0x80100000, 0x00008020,
    0x00000000, 0x00108020, 0x80100020, 0x00100000, 0x80008020, 0x80100000, 0x80108000, 0x00008000,
    0x80100000, 0x80008000, 0x00000020, 0x80108020, 0x00108020, 0x00000020, 0x00008000, 0x80000000,
    0x00008020, 0x80108000, 0x00100000, 0x80000020, 0x00100020, 0x80008020, 0x80000020, 0x00100020,
    0x00108000, 0x00000000, 0x80008000, 0x00008020, 0x80000000, 0x80100020, 0x80108020, 0x00108000]

/-- `SB3`. -/
def sb3 : List (BitVec 32) :=
  [0x00000208, 0x08020200, 0x00000000, 0x08020008, 0x08000200, 0x00000000, 0x00020208, 0x08000200,
    0x00020008, 0x08000008, 0x08000008, 0x00020000, 0x08020208, 0x00020008, 0x08020000, 0x00000208,
    0x08000000, 0x00000008, 0x08020200, 0x00000200, 0x00020200, 0x08020000, 0x08020008, 0x00020208,
    0x08000208, 0x00020200, 0x00020000, 0x08000208, 0x00000008, 0x08020208, 0x00000200, 0x08000000,
    0x08020200, 0x08000000, 0x00020008, 0x00000208, 0x00020000, 0x08020200, 0x08000200, 0x00000000,
    0x00000200, 0x00020008, 0x08020208, 0x08000200, 0x08000008, 0x00000200, 0x00000000, 0x08020008,
    0x08000208, 0x00020000, 0x08000000, 0x08020208, 0x00000008, 0x00020208, 0x00020200, 0x08000008,
    0x08020000, 0x08000208, 0x00000208, 0x08020000, 0x00020208, 0x00000008, 0x08020008, 0x00020200]

/-- `SB4`. -/
def sb4 : List (BitVec 32) :=
  [0x00802001, 0x00002081, 0x00002081, 0x00000080, 0x00802080, 0x00800081, 0x00800001, 0x00002001,
    0x00000000, 0x00802000, 0x00802000, 0x00802081, 0x00000081, 0x00000000, 0x00800080, 0x00800001,
    0x00000001, 0x00002000, 0x00800000, 0x00802001, 0x00000080, 0x00800000, 0x00002001, 0x00002080,
    0x00800081, 0x00000001, 0x00002080, 0x00800080, 0x00002000, 0x00802080, 0x00802081, 0x00000081,
    0x00800080, 0x00800001, 0x00802000, 0x00802081, 0x00000081, 0x00000000, 0x00000000, 0x00802000,
    0x00002080, 0x00800080, 0x00800081, 0x00000001, 0x00802001, 0x00002081, 0x00002081, 0x00000080,
    0x00802081, 0x00000081, 0x00000001, 0x00002000, 0x00800001, 0x00002001, 0x00802080, 0x00800081,
    0x00002001, 0x00002080, 0x00800000, 0x00802001, 0x00000080, 0x00800000, 0x00002000, 0x00802080]

/-- `SB5`. -/
def sb5 : List (BitVec 32) :=
  [0x00000100, 0x02080100, 0x02080000, 0x42000100, 0x00080000, 0x00000100, 0x40000000, 0x02080000,
    0x40080100, 0x00080000, 0x02000100, 0x40080100, 0x42000100, 0x42080000, 0x00080100, 0x40000000,
    0x02000000, 0x40080000, 0x40080000, 0x00000000, 0x40000100, 0x42080100, 0x42080100, 0x02000100,
    0x42080000, 0x40000100, 0x00000000, 0x42000000, 0x02080100, 0x02000000, 0x42000000, 0x00080100,
    0x00080000, 0x42000100, 0x00000100, 0x02000000, 0x40000000, 0x02080000, 0x42000100, 0x40080100,
    0x02000100, 0x40000000, 0x42080000, 0x02080100, 0x40080100, 0x00000100, 0x02000000, 0x42080000,
    0x42080100, 0x00080100, 0x42000000, 0x42080100, 0x02080000, 0x00000000, 0x40080000, 0x42000000,
    0x00080100, 0x02000100, 0x40000100, 0x00080000, 0x00000000, 0x40080000, 0x02080100, 0x40000100]

/-- `SB6`. -/
def sb6 : List (BitVec 32) :=
  [0x20000010, 0x20400000, 0x00004000, 0x20404010, 0x20400000, 0x00000010, 0x20404010, 0x00400000,
    0x20004000, 0x00404010, 0x00400000, 0x20000010, 0x00400010, 0x20004000, 0x20000000, 0x00004010,
    0x00000000, 0x00400010, 0x20004010, 0x00004000, 0x00404000, 0x20004010, 0x00000010, 0x20400010,
    0x20400010, 0x00000000, 0x00404010, 0x20404000, 0x00004010, 0x00404000, 0x20404000, 0x20000000,
    0x20004000, 0x00000010, 0x20400010, 0x00404000, 0x20404010, 0x00400000, 0x00004010, 0x20000010,
    0x00400000, 0x20004000, 0x20000000, 0x00004010, 0x20000010, 0x20404010, 0x00404000, 0x20400000,
    0x00404010, 0x20404000, 0x00000000, 0x20400010, 0x00000010, 0x00004000, 0x20400000, 0x00404010,
    0x00004000, 0x00400010, 0x20004010, 0x00000000, 0x20404000, 0x20000000, 0x00400010, 0x20004010]

/-- `SB7`. -/
def sb7 : List (BitVec 32) :=
  [0x00200000, 0x04200002, 0x04000802, 0x00000000, 0x00000800, 0x04000802, 0x00200802, 0x04200800,
    0x04200802, 0x00200000, 0x00000000, 0x04000002, 0x00000002, 0x04000000, 0x04200002, 0x00000802,
    0x04000800, 0x00200802, 0x00200002, 0x04000800, 0x04000002, 0x04200000, 0x04200800, 0x00200002,
    0x04200000, 0x00000800, 0x00000802, 0x04200802, 0x00200800, 0x00000002, 0x04000000, 0x00200800,
    0x04000000, 0x00200800, 0x00200000, 0x04000802, 0x04000802, 0x04200002, 0x04200002, 0x00000002,
    0x00200002, 0x04000000, 0x04000800, 0x00200000, 0x04200800, 0x00000802, 0x00200802, 0x04200800,
    0x00000802, 0x04000002, 0x04200802, 0x04200000, 0x00200800, 0x00000000, 0x00000002, 0x04200802,
    0x00000000, 0x00200802, 0x04200000, 0x00000800, 0x04000002, 0x04000800, 0x00000800, 0x00200002]

/-- `SB8`. -/
def sb8 : List (BitVec 32) :=
  [0x10001040, 0x00001000, 0x00040000, 0x10041040, 0x10000000, 0x10001040, 0x00000040, 0x10000000,
    0x00040040, 0x10040000, 0x10041040, 0x00041000, 0x10041000, 0x00041040, 0x00001000, 0x00000040,
    0x10040000, 0x10000040, 0x10001000, 0x00001040, 0x00041000, 0x00040040, 0x10040040, 0x10041000,
    0x00001040, 0x00000000, 0x00000000, 0x10040040, 0x10000040, 0x10001000, 0x00041040, 0x00040000,
    0x00041040, 0x00040000, 0x10041000, 0x00001000, 0x00000040, 0x10040040, 0x00001000, 0x00041040,
    0x10001000, 0x00000040, 0x10000040, 0x10040000, 0x10040040, 0x10000000, 0x00040000, 0x10001040,
    0x00000000, 0x10041040, 0x00040040, 0x10000040, 0x10040000, 0x10001000, 0x10001040, 0x00000000,
    0x10041040, 0x00041000, 0x00041000, 0x00001040, 0x00001040, 0x00040040, 0x10000000, 0x10041000]

/-- `LHs`. -/
def lhs : List Word :=
  [0x00000000, 0x00000001, 0x00000100, 0x00000101, 0x00010000, 0x00010001, 0x00010100, 0x00010101,
    0x01000000, 0x01000001, 0x01000100, 0x01000101, 0x01010000, 0x01010001, 0x01010100, 0x01010101]

/-- `RHs`. -/
def rhs : List Word :=
  [0x00000000, 0x01000000, 0x00010000, 0x01010000, 0x00000100, 0x01000100, 0x00010100, 0x01010100,
    0x00000001, 0x01000001, 0x00010001, 0x01010001, 0x00000101, 0x01000101, 0x00010101, 0x01010101]

/-- `t[i]`. -/
def entry (t : List Word) (i : Word) : Word := t.getD i.toNat 0

/-! ## Words -/

/-- `GET_UINT32`. -/
def get_uint32 (a b c d : Char) : Word :=
  BitVec.ofNat 32 (a.toNat * 16777216 + b.toNat * 65536 + c.toNat * 256 + d.toNat)

/-- `PUT_UINT32`. -/
def put_uint32 (n : Word) : Str :=
  [Char.ofNat (n.toNat / 16777216), Char.ofNat (n.toNat / 65536 % 256), Char.ofNat (n.toNat / 256 % 256),
    Char.ofNat (n.toNat % 256)]

/-- `T = ((X >> s) ^ Y) & m; Y ^= T; X ^= (T << s)`. -/
def exchange (s : ℕ) (m X Y : Word) : Word × Word :=
  let T := ((X >>> s) ^^^ Y) &&& m
  (X ^^^ (T <<< s), Y ^^^ T)

/-- **`DES_IP`.** -/
def des_ip (X Y : Word) : Word × Word :=
  let (X, Y) := exchange 4 0x0F0F0F0F X Y
  let (X, Y) := exchange 16 0x0000FFFF X Y
  let (Y, X) := exchange 2 0x33333333 Y X
  let (Y, X) := exchange 8 0x00FF00FF Y X
  let Y := (Y <<< 1) ||| (Y >>> 31)
  let (X, Y) := exchange 0 0xAAAAAAAA X Y
  let X := (X <<< 1) ||| (X >>> 31)
  (X, Y)

/-- **`DES_FP`.** -/
def des_fp (X Y : Word) : Word × Word :=
  let X := (X <<< 31) ||| (X >>> 1)
  let (X, Y) := exchange 0 0xAAAAAAAA X Y
  let Y := (Y <<< 31) ||| (Y >>> 1)
  let (Y, X) := exchange 8 0x00FF00FF Y X
  let (Y, X) := exchange 2 0x33333333 Y X
  let (X, Y) := exchange 16 0x0000FFFF X Y
  let (X, Y) := exchange 4 0x0F0F0F0F X Y
  (X, Y)

/-- What `DES_ROUND` makes of one half and the key. -/
def des_mix (SK : Word × Word) (X : Word) : Word :=
  let T := SK.1 ^^^ X
  let Y := entry sb8 (T &&& 0x3F) ^^^ entry sb6 ((T >>> 8) &&& 0x3F) ^^^ entry sb4 ((T >>> 16) &&& 0x3F) ^^^
    entry sb2 ((T >>> 24) &&& 0x3F)
  let T := SK.2 ^^^ ((X <<< 28) ||| (X >>> 4))
  Y ^^^ (entry sb7 (T &&& 0x3F) ^^^ entry sb5 ((T >>> 8) &&& 0x3F) ^^^ entry sb3 ((T >>> 16) &&& 0x3F) ^^^
    entry sb1 ((T >>> 24) &&& 0x3F))

/-- **`DES_ROUND`**, of which `Y` is the result. -/
def des_round (SK : Word × Word) (X Y : Word) : Word := Y ^^^ des_mix SK X

/-! ## Keys -/

/-- The subkey of a round. -/
def subkey (X Y : Word) : Word × Word :=
  (((X <<< 4) &&& 0x24000000) ||| ((X <<< 28) &&& 0x10000000)
      ||| ((X <<< 14) &&& 0x08000000) ||| ((X <<< 18) &&& 0x02080000)
      ||| ((X <<< 6) &&& 0x01000000) ||| ((X <<< 9) &&& 0x00200000)
      ||| ((X >>> 1) &&& 0x00100000) ||| ((X <<< 10) &&& 0x00040000)
      ||| ((X <<< 2) &&& 0x00020000) ||| ((X >>> 10) &&& 0x00010000)
      ||| ((Y >>> 13) &&& 0x00002000) ||| ((Y >>> 4) &&& 0x00001000)
      ||| ((Y <<< 6) &&& 0x00000800) ||| ((Y >>> 1) &&& 0x00000400)
      ||| ((Y >>> 14) &&& 0x00000200) ||| (Y &&& 0x00000100)
      ||| ((Y >>> 5) &&& 0x00000020) ||| ((Y >>> 10) &&& 0x00000010)
      ||| ((Y >>> 3) &&& 0x00000008) ||| ((Y >>> 18) &&& 0x00000004)
      ||| ((Y >>> 26) &&& 0x00000002) ||| ((Y >>> 24) &&& 0x00000001),
    ((X <<< 15) &&& 0x20000000) ||| ((X <<< 17) &&& 0x10000000)
      ||| ((X <<< 10) &&& 0x08000000) ||| ((X <<< 22) &&& 0x04000000)
      ||| ((X >>> 2) &&& 0x02000000) ||| ((X <<< 1) &&& 0x01000000)
      ||| ((X <<< 16) &&& 0x00200000) ||| ((X <<< 11) &&& 0x00100000)
      ||| ((X <<< 3) &&& 0x00080000) ||| ((X >>> 6) &&& 0x00040000)
      ||| ((X <<< 15) &&& 0x00020000) ||| ((X >>> 4) &&& 0x00010000)
      ||| ((Y >>> 2) &&& 0x00002000) ||| ((Y <<< 8) &&& 0x00001000)
      ||| ((Y >>> 14) &&& 0x00000808) ||| ((Y >>> 9) &&& 0x00000400)
      ||| (Y &&& 0x00000200) ||| ((Y <<< 7) &&& 0x00000100)
      ||| ((Y >>> 7) &&& 0x00000020) ||| ((Y >>> 3) &&& 0x00000011)
      ||| ((Y <<< 2) &&& 0x00000004) ||| ((Y >>> 21) &&& 0x00000002))

/-- A half of the key goes round by one or two bits. -/
def turn (i : ℕ) (X : Word) : Word :=
  if i < 2 ∨ i = 8 ∨ i = 15 then ((X <<< 1) ||| (X >>> 27)) &&& 0x0FFFFFFF
  else ((X <<< 2) ||| (X >>> 26)) &&& 0x0FFFFFFF

/-- The loop of `des_main_ks`, of which `n` turns are left. -/
def subkeys (X Y : Word) : ℕ → List (Word × Word)
  | 0 => []
  | n + 1 =>
    let X := turn (15 - n) X
    let Y := turn (15 - n) Y
    subkey X Y :: subkeys X Y n

/-- **`des_main_ks`.** -/
def des_main_ks (key : Str) : List (Word × Word) :=
  match key with
  | [a, b, c, d, e, f, g, h] =>
    let X := get_uint32 a b c d
    let Y := get_uint32 e f g h
    let (Y, X) := exchange 4 0x0F0F0F0F Y X
    let (Y, X) := exchange 0 0x10101010 Y X
    let X := (entry lhs (X &&& 0xF) <<< 3) ||| (entry lhs ((X >>> 8) &&& 0xF) <<< 2)
      ||| (entry lhs ((X >>> 16) &&& 0xF) <<< 1) ||| entry lhs ((X >>> 24) &&& 0xF)
      ||| (entry lhs ((X >>> 5) &&& 0xF) <<< 7) ||| (entry lhs ((X >>> 13) &&& 0xF) <<< 6)
      ||| (entry lhs ((X >>> 21) &&& 0xF) <<< 5) ||| (entry lhs ((X >>> 29) &&& 0xF) <<< 4)
    let Y := (entry rhs ((Y >>> 1) &&& 0xF) <<< 3) ||| (entry rhs ((Y >>> 9) &&& 0xF) <<< 2)
      ||| (entry rhs ((Y >>> 17) &&& 0xF) <<< 1) ||| entry rhs ((Y >>> 25) &&& 0xF)
      ||| (entry rhs ((Y >>> 4) &&& 0xF) <<< 7) ||| (entry rhs ((Y >>> 12) &&& 0xF) <<< 6)
      ||| (entry rhs ((Y >>> 20) &&& 0xF) <<< 5) ||| (entry rhs ((Y >>> 28) &&& 0xF) <<< 4)
    subkeys (X &&& 0x0FFFFFFF) (Y &&& 0x0FFFFFFF) 16
  | _ => []

/-! ## Blocks -/

/-- The rounds, two by two. -/
def des_rounds : List (Word × Word) → Word → Word → Word × Word
  | SK :: SK' :: rest, X, Y =>
    let X := des_round SK Y X
    let Y := des_round SK' X Y
    des_rounds rest X Y
  | _, X, Y => (X, Y)

/-- **`des_crypt`** of a block. -/
def des_crypt (SK : List (Word × Word)) (input : Str) : Str :=
  match input with
  | [a, b, c, d, e, f, g, h] =>
    let (X, Y) := des_ip (get_uint32 a b c d) (get_uint32 e f g h)
    let (X, Y) := des_rounds SK X Y
    let (Y, X) := des_fp Y X
    put_uint32 Y ++ put_uint32 X
  | _ => []

/-! ## Texts -/

/-- What the functions of `crypt` raise. -/
inductive Failure
  /-- `"Invalid key size %d, need 8 bytes"`. -/
  | keySize (keysz : ℕ)
  /-- `"Invalid des crypt text length %d"`. -/
  | textLength (textsz : ℕ)
  /-- `"Invalid des crypt text"`. -/
  | text
  /-- A read before `buffer`. -/
  | overrun
  /-- `"Can't be 0"`. -/
  | zero
  /-- `"Invalid uint64 x"`, -/
  | uint64X
  /-- `"Invalid uint64 y"`, -/
  | uint64Y
  /-- `"Invalid dh uint64 key"`, -/
  | dhKey
  /-- and `"Invalid uint64 key"`. -/
  | uint64Key
  deriving DecidableEq

/-- `des_key`. -/
def des_key (key : Str) : Except Failure (List (Word × Word)) :=
  if key.length ≠ 8 then .error (.keySize key.length) else .ok (des_main_ks key)

/-- The last block: what is left, `0x80` and zeros. -/
def des_tail (text : Str) : Str := text ++ Char.ofNat 0x80 :: List.replicate (7 - text.length) (Char.ofNat 0)

/-- The blocks of `desencode`. -/
def encodeBlocks (SK : List (Word × Word)) : Str → Str
  | a :: b :: c :: d :: e :: f :: g :: h :: text => des_crypt SK [a, b, c, d, e, f, g, h] ++ encodeBlocks SK text
  | text => des_crypt SK (des_tail text)

/-- **`desencode`.** -/
def desencode (key text : Str) : Except Failure Str := do
  let SK ← des_key key
  .ok (encodeBlocks SK text)

/-- The blocks of `desdecode`. -/
def decodeBlocks (SK : List (Word × Word)) : Str → Str
  | a :: b :: c :: d :: e :: f :: g :: h :: text => des_crypt SK [a, b, c, d, e, f, g, h] ++ decodeBlocks SK text
  | _ => []

/-- The loop over the end of the buffer, which is reversed here. `i >= textsz-8`
compares without a sign, so behind the zeros of a single block it reads on. -/
def scanPadding (one : Bool) : ℕ → ℕ → Str → Except Failure ℕ
  | 0, padding, _ => if one then .error .overrun else .ok padding
  | _ + 1, _, [] => .error .overrun
  | n + 1, padding, c :: buffer =>
    if c = Char.ofNat 0 then scanPadding one n (padding + 1) buffer
    else if c = Char.ofNat 0x80 then .ok padding
    else .error .text

/-- **`desdecode`.** -/
def desdecode (key text : Str) : Except Failure Str := do
  let SK ← des_key key
  if text.length % 8 ≠ 0 ∨ text.length = 0 then .error (.textLength text.length)
  else
    let buffer := decodeBlocks SK.reverse text
    let padding ← scanPadding (text.length = 8) 8 1 buffer.reverse
    if 8 < padding then .error .text else .ok (buffer.take (text.length - padding))

/-! ## A block and back -/

/-- **An exchange is undone by another**, where the mask loses no bit. -/
theorem exchange_exchange {s : ℕ} {m : Word} (hm : ∀ T : Word, ((T &&& m) <<< s) >>> s = T &&& m) (X Y : Word) :
    exchange s m (exchange s m X Y).1 (exchange s m X Y).2 = (X, Y) := by
  have hT : (((X ^^^ ((((X >>> s) ^^^ Y) &&& m) <<< s)) >>> s) ^^^ (Y ^^^ (((X >>> s) ^^^ Y) &&& m))) &&& m =
      ((X >>> s) ^^^ Y) &&& m := by
    rw [BitVec.ushiftRight_xor_distrib, hm]
    generalize hT : (((X >>> s) ^^^ Y) &&& m) = T
    rw [BitVec.xor_comm Y T, ← BitVec.xor_assoc, BitVec.xor_assoc (X >>> s) T T, BitVec.xor_self, BitVec.xor_zero, hT]
  unfold exchange
  simp only [hT]
  rw [BitVec.xor_assoc, BitVec.xor_self, BitVec.xor_zero, BitVec.xor_assoc, BitVec.xor_self, BitVec.xor_zero]

/-- A mask without the bits that fall out loses none. -/
theorem shift_mask {s : ℕ} {m : Word} (hm : ∀ i < 32, 32 ≤ i + s → m.getLsbD i = false) (T : Word) :
    ((T &&& m) <<< s) >>> s = T &&& m := by
  refine BitVec.eq_of_getLsbD_eq fun i hi => ?_
  simp only [BitVec.getLsbD_ushiftRight, BitVec.getLsbD_shiftLeft, BitVec.getLsbD_and]
  by_cases h : i + s < 32
  · have h1 : ¬ s + i < s := by omega
    have h2 : s + i < 32 := by omega
    rw [Nat.add_sub_cancel_left]
    simp [h1, h2]
  · have h2 : ¬ s + i < 32 := by omega
    rw [hm i hi (by omega)]
    simp [h2]

/-- A rotation and its inverse. -/
theorem rotate_rotate (X : Word) : ((((X <<< 1) ||| (X >>> 31)) <<< 31) ||| (((X <<< 1) ||| (X >>> 31)) >>> 1)) = X ∧
    ((((X <<< 31) ||| (X >>> 1)) <<< 1) ||| (((X <<< 31) ||| (X >>> 1)) >>> 31)) = X := by
  constructor
  · refine BitVec.eq_of_getLsbD_eq fun i hi => ?_
    simp only [BitVec.getLsbD_ushiftRight, BitVec.getLsbD_shiftLeft, BitVec.getLsbD_or]
    by_cases h : i = 31
    · subst h
      simp
    · have h31 : i < 31 := by omega
      have h1 : 1 + i < 32 := by omega
      rw [X.getLsbD_of_ge (31 + (1 + i)) (by omega), Nat.add_sub_cancel_left]
      simp [h31, h1]
  · refine BitVec.eq_of_getLsbD_eq fun i hi => ?_
    simp only [BitVec.getLsbD_ushiftRight, BitVec.getLsbD_shiftLeft, BitVec.getLsbD_or]
    by_cases h : i = 0
    · subst h
      simp
    · have h1 : ¬ i < 1 := by omega
      have h2 : i - 1 < 31 := by omega
      have h3 : ¬ 31 + i < 32 := by omega
      rw [Nat.add_sub_cancel' (by omega : 1 ≤ i), X.getLsbD_of_ge (1 + (31 + i)) (by omega)]
      simp [h1, h2, h3, hi]

/-- **`DES_FP` takes `DES_IP` back**, -/
theorem des_fp_ip (X Y : Word) : des_fp (des_ip X Y).1 (des_ip X Y).2 = (X, Y) := by
  have h4 := exchange_exchange (shift_mask (s := 4) (m := 0x0F0F0F0F) (by decide))
  have h16 := exchange_exchange (shift_mask (s := 16) (m := 0x0000FFFF) (by decide))
  have h2 := exchange_exchange (shift_mask (s := 2) (m := 0x33333333) (by decide))
  have h8 := exchange_exchange (shift_mask (s := 8) (m := 0x00FF00FF) (by decide))
  have h0 := exchange_exchange (shift_mask (s := 0) (m := 0xAAAAAAAA) (by decide))
  simp only [des_fp, des_ip, (rotate_rotate _).1, h0, h8, h2, h16, h4]

/-- and the other way round. -/
theorem des_ip_fp (X Y : Word) : des_ip (des_fp X Y).1 (des_fp X Y).2 = (X, Y) := by
  have h4 := exchange_exchange (shift_mask (s := 4) (m := 0x0F0F0F0F) (by decide))
  have h16 := exchange_exchange (shift_mask (s := 16) (m := 0x0000FFFF) (by decide))
  have h2 := exchange_exchange (shift_mask (s := 2) (m := 0x33333333) (by decide))
  have h8 := exchange_exchange (shift_mask (s := 8) (m := 0x00FF00FF) (by decide))
  have h0 := exchange_exchange (shift_mask (s := 0) (m := 0xAAAAAAAA) (by decide))
  simp only [des_fp, des_ip, (rotate_rotate _).2, h0, h8, h2, h16, h4]

/-- The character of a byte. -/
theorem toNat_ofNat {n : ℕ} (h : n < 256) : (Char.ofNat n).toNat = n := by
  have hvalid : n.isValidChar := Or.inl (by omega)
  rw [Char.ofNat, dif_pos hvalid]
  rfl

/-- A word is four bytes and comes back, -/
theorem get_put (n : Word) : ∃ a b c d, put_uint32 n = [a, b, c, d] ∧ get_uint32 a b c d = n := by
  have hn := n.isLt
  refine ⟨_, _, _, _, rfl, ?_⟩
  rw [get_uint32, toNat_ofNat (by omega), toNat_ofNat (by omega), toNat_ofNat (by omega), toNat_ofNat (by omega)]
  have hsum : n.toNat / 16777216 * 16777216 + n.toNat / 65536 % 256 * 65536 + n.toNat / 256 % 256 * 256 +
      n.toNat % 256 = n.toNat := by
    omega
  rw [hsum, BitVec.ofNat_toNat, BitVec.setWidth_eq]

/-- and so do the bytes. -/
theorem put_get {a b c d : Char} (ha : a.toNat < 256) (hb : b.toNat < 256) (hc : c.toNat < 256) (hd : d.toNat < 256) :
    put_uint32 (get_uint32 a b c d) = [a, b, c, d] := by
  have hv : (get_uint32 a b c d).toNat = a.toNat * 16777216 + b.toNat * 65536 + c.toNat * 256 + d.toNat := by
    rw [get_uint32, BitVec.toNat_ofNat, Nat.mod_eq_of_lt (by omega)]
  have h1 : (a.toNat * 16777216 + b.toNat * 65536 + c.toNat * 256 + d.toNat) / 16777216 = a.toNat := by omega
  have h2 : (a.toNat * 16777216 + b.toNat * 65536 + c.toNat * 256 + d.toNat) / 65536 % 256 = b.toNat := by omega
  have h3 : (a.toNat * 16777216 + b.toNat * 65536 + c.toNat * 256 + d.toNat) / 256 % 256 = c.toNat := by omega
  have h4 : (a.toNat * 16777216 + b.toNat * 65536 + c.toNat * 256 + d.toNat) % 256 = d.toNat := by omega
  rw [put_uint32, hv, h1, h2, h3, h4, Char.ofNat_toNat, Char.ofNat_toNat, Char.ofNat_toNat, Char.ofNat_toNat]

/-- **The rounds are a Feistel network.** -/
theorem des_rounds_eq (SK : List (Word × Word)) (X Y : Word) (h : SK.length % 2 = 0) :
    des_rounds SK X Y = Feistel.run (· ^^^ ·) des_mix SK (X, Y) := by
  induction SK, X, Y using des_rounds.induct with
  | case1 SK SK' rest X Y X' Y' ih =>
    rw [des_rounds, ih (by simp only [List.length_cons] at h; omega)]
    rfl
  | case2 SK X Y hnot =>
    cases SK with
    | nil => rfl
    | cons a rest =>
      cases rest with
      | nil => cases h
      | cons b rest => exact absurd rfl (hnot a b rest)

/-- **The rounds with the keys the other way round** undo the rounds. -/
theorem des_rounds_reverse {SK : List (Word × Word)} (h : SK.length % 2 = 0) (X Y : Word) :
    des_rounds SK.reverse (des_rounds SK X Y).2 (des_rounds SK X Y).1 = (Y, X) := by
  have hop : ∀ x y : Word, x ^^^ y ^^^ y = x := fun x y => by
    rw [BitVec.xor_assoc, BitVec.xor_self, BitVec.xor_zero]
  rw [des_rounds_eq _ _ _ (by rw [List.length_reverse]; exact h), des_rounds_eq _ _ _ h]
  exact Feistel.run_reverse hop (b := (X, Y))

/-- The text of bytes. -/
def Bytes (s : Str) : Prop := ∀ c ∈ s, c.toNat < 256

-- decided over the text, never over all characters
instance : DecidablePred Bytes := fun s => List.decidableBAll (fun c : Char => c.toNat < 256) s

/-- **A block is what it was** when the keys have been used in both orders. -/
theorem des_crypt_reverse {SK : List (Word × Word)} (h : SK.length % 2 = 0) {block : Str} (hlen : block.length = 8)
    (hbytes : Bytes block) : (des_crypt SK block).length = 8 ∧ des_crypt SK.reverse (des_crypt SK block) = block := by
  obtain ⟨a, b, c, d, e, f, g, i, rfl⟩ : ∃ a b c d e f g i, block = [a, b, c, d, e, f, g, i] := by
    match block, hlen with
    | [a, b, c, d, e, f, g, i], _ => exact ⟨a, b, c, d, e, f, g, i, rfl⟩
  simp only [Bytes, List.mem_cons, List.not_mem_nil, or_false, forall_eq_or_imp, forall_eq] at hbytes
  obtain ⟨ha, hb, hc, hd, he, hf, hg, hi⟩ := hbytes
  have hcrypt : ∀ (SK : List (Word × Word)) (a b c d e f g i : Char), des_crypt SK [a, b, c, d, e, f, g, i] =
      put_uint32 (des_fp (des_rounds SK (des_ip (get_uint32 a b c d) (get_uint32 e f g i)).1
        (des_ip (get_uint32 a b c d) (get_uint32 e f g i)).2).2 (des_rounds SK
        (des_ip (get_uint32 a b c d) (get_uint32 e f g i)).1 (des_ip (get_uint32 a b c d) (get_uint32 e f g i)).2).1).1 ++
      put_uint32 (des_fp (des_rounds SK (des_ip (get_uint32 a b c d) (get_uint32 e f g i)).1
        (des_ip (get_uint32 a b c d) (get_uint32 e f g i)).2).2 (des_rounds SK
        (des_ip (get_uint32 a b c d) (get_uint32 e f g i)).1 (des_ip (get_uint32 a b c d) (get_uint32 e f g i)).2).1).2 :=
    fun _ _ _ _ _ _ _ _ _ => rfl
  have hfp := des_fp_ip (get_uint32 a b c d) (get_uint32 e f g i)
  rw [hcrypt SK]
  generalize des_ip (get_uint32 a b c d) (get_uint32 e f g i) = p at hfp ⊢
  have hrounds := des_rounds_reverse h p.1 p.2
  generalize des_rounds SK p.1 p.2 = q at hrounds ⊢
  have hip := des_ip_fp q.2 q.1
  generalize des_fp q.2 q.1 = o at hip ⊢
  obtain ⟨a', b', c', d', hput, hget⟩ := get_put o.1
  obtain ⟨e', f', g', i', hput', hget'⟩ := get_put o.2
  rw [hput, hput']
  refine ⟨rfl, ?_⟩
  rw [List.cons_append, List.cons_append, List.cons_append, List.cons_append, List.nil_append, hcrypt, hget, hget',
    hip, hrounds, hfp, put_get ha hb hc hd, put_get he hf hg hi]
  rfl

/-! ## A text and back -/

/-- There are as many round keys as rounds. -/
theorem length_subkeys (X Y : Word) (n : ℕ) : (subkeys X Y n).length = n := by
  induction n generalizing X Y with
  | zero => rfl
  | succ n ih => rw [subkeys, List.length_cons, ih]

theorem length_des_main_ks {key : Str} (h : key.length = 8) : (des_main_ks key).length = 16 := by
  match key, h with
  | [a, b, c, d, e, f, g, i], _ => exact length_subkeys _ _ 16

/-- The last block is filled up. -/
theorem length_des_tail {text : Str} (h : text.length < 8) : (des_tail text).length = 8 := by
  simp only [des_tail, List.length_append, List.length_cons, List.length_replicate]
  omega

/-- It has bytes, -/
theorem bytes_des_tail {text : Str} (h : Bytes text) : Bytes (des_tail text) := by
  intro c hc
  rcases List.mem_append.mp hc with hc | hc
  · exact h c hc
  · rcases List.mem_cons.mp hc with rfl | hc
    · decide
    · rw [(List.mem_replicate.mp hc).2]
      decide

/-- **What `desencode` writes**: the text and its end, block by block. -/
theorem decodeBlocks_encodeBlocks {SK : List (Word × Word)} (hSK : SK.length % 2 = 0) {text : Str} (h : Bytes text) :
    ∃ body tail, text = body ++ tail ∧ tail.length < 8 ∧ (encodeBlocks SK text).length = body.length + 8 ∧
      body.length % 8 = 0 ∧ decodeBlocks SK.reverse (encodeBlocks SK text) = body ++ des_tail tail := by
  have hdecode : ∀ (SK : List (Word × Word)) (block rest : Str), block.length = 8 →
      decodeBlocks SK (block ++ rest) = des_crypt SK block ++ decodeBlocks SK rest := by
    intro SK block rest hlen
    match block, hlen with
    | [a, b, c, d, e, f, g, i], _ => rfl
  induction text using encodeBlocks.induct with
  | case1 a b c d e f g i text ih =>
    have hblock : Bytes [a, b, c, d, e, f, g, i] := fun x hx => h x (by
      rw [show a :: b :: c :: d :: e :: f :: g :: i :: text = [a, b, c, d, e, f, g, i] ++ text from rfl]
      exact List.mem_append_left _ hx)
    obtain ⟨hlen, hback⟩ := des_crypt_reverse hSK (show [a, b, c, d, e, f, g, i].length = 8 from rfl) hblock
    obtain ⟨body, tail, rfl, htail, henc, hbody, hdec⟩ := ih fun x hx => h x (by
      rw [show a :: b :: c :: d :: e :: f :: g :: i :: text = [a, b, c, d, e, f, g, i] ++ text from rfl]
      exact List.mem_append_right _ hx)
    refine ⟨[a, b, c, d, e, f, g, i] ++ body, tail, rfl, htail, ?_, ?_, ?_⟩
    · rw [encodeBlocks, List.length_append, hlen, henc, List.length_append]
      simp only [List.length_cons, List.length_nil]
      omega
    · rw [List.length_append]
      simp only [List.length_cons, List.length_nil]
      omega
    · rw [encodeBlocks, hdecode _ _ _ hlen, hback, hdec, List.append_assoc]
  | case2 text hnot =>
    have hlt : text.length < 8 := by
      rcases text with _ | ⟨a, _ | ⟨b, _ | ⟨c, _ | ⟨d, _ | ⟨e, _ | ⟨f, _ | ⟨g, _ | ⟨i, text⟩⟩⟩⟩⟩⟩⟩⟩
      case cons.cons.cons.cons.cons.cons.cons.cons => exact absurd rfl (hnot a b c d e f g i text)
      all_goals
        simp only [List.length_cons, List.length_nil]
        omega
    obtain ⟨hlen, hback⟩ := des_crypt_reverse hSK (length_des_tail hlt) (bytes_des_tail h)
    have hstep : encodeBlocks SK text = des_crypt SK (des_tail text) := by
      rw [encodeBlocks]
      exact hnot
    refine ⟨[], text, rfl, hlt, ?_, rfl, ?_⟩
    · rw [hstep, hlen]
      rfl
    · rw [hstep, ← List.append_nil (des_crypt SK (des_tail text)), hdecode _ _ _ hlen, hback]
      simp [decodeBlocks]

/-- as a word has, -/
theorem bytes_put_uint32 (n : Word) : Bytes (put_uint32 n) := by
  have hn := n.isLt
  intro c hc
  simp only [put_uint32, List.mem_cons, List.not_mem_nil, or_false] at hc
  rcases hc with rfl | rfl | rfl | rfl <;> rw [toNat_ofNat (by omega)] <;> omega

/-- a block, -/
theorem bytes_des_crypt (SK : List (Word × Word)) (block : Str) : Bytes (des_crypt SK block) := by
  unfold des_crypt
  split
  · intro x hx
    rcases List.mem_append.mp hx with hx | hx
    · exact bytes_put_uint32 _ x hx
    · exact bytes_put_uint32 _ x hx
  · exact fun x hx => absurd hx List.not_mem_nil

/-- and a whole text. -/
theorem bytes_encodeBlocks (SK : List (Word × Word)) (text : Str) : Bytes (encodeBlocks SK text) := by
  induction text using encodeBlocks.induct with
  | case1 a b c d e f g i text ih =>
    intro x hx
    rw [encodeBlocks] at hx
    rcases List.mem_append.mp hx with hx | hx
    · exact bytes_des_crypt _ _ x hx
    · exact ih x hx
  | case2 text hnot =>
    rw [encodeBlocks]
    · exact bytes_des_crypt _ _
    · exact hnot

/-- The end of a text is found behind its zeros. -/
theorem scanPadding_zeros (one : Bool) (z n padding : ℕ) (rest : Str) (hn : z < n) :
    scanPadding one n padding (List.replicate z (Char.ofNat 0) ++ Char.ofNat 0x80 :: rest) = .ok (padding + z) := by
  induction z generalizing n padding with
  | zero =>
    obtain ⟨n, rfl⟩ := Nat.exists_eq_add_of_lt hn
    rfl
  | succ z ih =>
    obtain ⟨n, rfl⟩ : ∃ n', n = n' + 1 := ⟨n - 1, by omega⟩
    rw [List.replicate_succ, List.cons_append, scanPadding, if_pos rfl, ih n (padding + 1) (by omega)]
    exact congrArg Except.ok (by omega)

/-- A key of eight bytes is taken. -/
theorem des_key_eq {key : Str} (hkey : key.length = 8) : des_key key = .ok (des_main_ks key) :=
  if_neg (not_not_intro hkey)

/-- So a text is encoded, -/
theorem desencode_eq {key text : Str} (hkey : key.length = 8) :
    desencode key text = .ok (encodeBlocks (des_main_ks key) text) := by
  rw [desencode, des_key_eq hkey]
  rfl

/-- **and decoded again.** -/
theorem desdecode_eq {key text : Str} (hkey : key.length = 8) (h : Bytes text) :
    desdecode key (encodeBlocks (des_main_ks key) text) = .ok text := by
  have hks : (des_main_ks key).length % 2 = 0 := by rw [length_des_main_ks hkey]
  obtain ⟨body, tail, rfl, htail, hlen, hbody, hdec⟩ := decodeBlocks_encodeBlocks hks h
  have hreverse : (body ++ des_tail tail).reverse = List.replicate (7 - tail.length) (Char.ofNat 0) ++
      Char.ofNat 0x80 :: (body ++ tail).reverse := by
    simp [des_tail, List.reverse_append]
  unfold desdecode
  rw [des_key_eq hkey]
  simp only [bind, Except.bind]
  rw [if_neg (by omega), hdec, hreverse, scanPadding_zeros _ _ _ _ _ (by omega)]
  simp only
  rw [if_neg (by omega), hlen, des_tail, ← List.append_assoc]
  refine congrArg Except.ok (List.take_left' ?_)
  rw [List.length_append]
  omega

/-- **What was encrypted is read again** with the same key, whatever the text. -/
theorem desdecode_desencode {key text : Str} (hkey : key.length = 8) (h : Bytes text) :
    ∃ etext, desencode key text = .ok etext ∧ desdecode key etext = .ok text :=
  ⟨_, desencode_eq hkey, desdecode_eq hkey h⟩

theorem desdecode_desencode_token : ∃ etext, desencode "secret00".toList "game:token:7".toList = .ok etext ∧
    desdecode "secret00".toList etext = .ok "game:token:7".toList :=
  desdecode_desencode rfl (by decide)

example : (des_crypt (des_main_ks ([0x13, 0x34, 0x57, 0x79, 0x9B, 0xBC, 0xDF, 0xF1].map Char.ofNat))
    ([0x01, 0x23, 0x45, 0x67, 0x89, 0xAB, 0xCD, 0xEF].map Char.ofNat)).map Char.toNat =
      [0x85, 0xE8, 0x13, 0x54, 0x0F, 0x0A, 0xB4, 0x05] := by
  decide +kernel

end Crypt

end Athena
