import Voyager.Base64Tables
import Voyager.Lib.LittleEndian

/-!
`Base64Encode` and `Base64Decode` of util/base64: the loops of modp_b64.cc, which
look characters up in tables and work on words of the machine. The decoder of a
little-endian machine stores four bytes for every three it has, so what it may
overwrite matters; `none` is an access outside of an array.
-/
namespace Voyager.ModpB64

open Lib.LittleEndian Lib.Splices

/-- `modp_b64_encode_len`, the size of what the encoder writes. -/
def encodeLen (n : ℕ) : ℕ := (n + 2) / 3 * 4 + 1

def decodeLen (n : ℕ) : ℕ := n / 4 * 3 + 2

/-- `*p++ = x` for each of `xs`. -/
def store (dest : List Byte) (p : ℕ) (xs : List Byte) : Option (List Byte) :=
  if p + xs.length ≤ dest.length then some (overwrite dest p xs) else none

/-- `uint8_t t = str[i]` -/
def byteAt (str : List Byte) (i : ℕ) : Option ℕ := str[i]?.map UInt8.toNat

/-- The `switch` of `modp_b64_encode`. -/
def encodeLast (str : List Byte) (i : ℕ) : Option (List Byte) :=
  match str.length - i with
  | 0 => some []
  | 1 => (byteAt str i).map fun t1 =>
    [e0.getD t1 0, e1.getD ((t1 &&& 0x03) <<< 4) 0, charPad, charPad]
  | _ => (byteAt str i).bind fun t1 => (byteAt str (i + 1)).map fun t2 =>
    [e0.getD t1 0, e1.getD ((t1 &&& 0x03) <<< 4 ||| (t2 >>> 4 &&& 0x0F)) 0,
      e2.getD ((t2 &&& 0x0F) <<< 2) 0, charPad]

/-- The loop of `modp_b64_encode` and what follows it, with the terminating zero. -/
def encodeFrom (str : List Byte) (i : ℕ) (dest : List Byte) (p : ℕ) :
    Option (List Byte × ℕ) :=
  if i + 2 < str.length then
    (byteAt str i).bind fun t1 => (byteAt str (i + 1)).bind fun t2 =>
      (byteAt str (i + 2)).bind fun t3 =>
        (store dest p [e0.getD t1 0, e1.getD ((t1 &&& 0x03) <<< 4 ||| (t2 >>> 4 &&& 0x0F)) 0,
          e1.getD ((t2 &&& 0x0F) <<< 2 ||| (t3 >>> 6 &&& 0x03)) 0, e2.getD t3 0]).bind fun dest =>
            encodeFrom str (i + 3) dest (p + 4)
  else
    (encodeLast str i).bind fun last =>
      (store dest p (last ++ [0])).map fun dest => (dest, p + last.length)
termination_by str.length - i

/-- The four bytes that an `uint32_t*` reads. -/
def load (src : List Byte) (i : ℕ) : Option ℕ :=
  if 4 * i + 4 ≤ src.length then some (ofBytes ((src.drop (4 * i)).take 4)) else none

/-- `y >> 8 * k & 0xff`. -/
def octet (y k : ℕ) : ℕ := y >>> (8 * k) &&& 0xff

/-- The word of three bytes for four characters. -/
def lookup (y : ℕ) : ℕ :=
  d0.getD (octet y 0) 0 ||| d1.getD (octet y 1) 0 ||| d2.getD (octet y 2) 0 |||
    d3.getD (octet y 3) 0

/-- The loop of `modp_b64_decode` for the next `chunks` words; `next` is `srcInt`, and
the inner `none` is the result -1. -/
def decodeFrom (src : List Byte) : ℕ → ℕ → List Byte → ℕ → ℕ →
    Option (Option (List Byte × ℕ × ℕ))
  | 0, _, dest, p, y => some (some (dest, p, y))
  | chunks + 1, next, dest, p, y =>
    let x := lookup y
    if badChar ≤ x then some none
    else
      (store dest p (toBytes 4 x)).bind fun dest =>
        (load src next).bind fun y => decodeFrom src chunks (next + 1) dest (p + 3) y

/-- What is left of the length without the padding. -/
def unpadded (src : List Byte) : Option ℕ :=
  let len := src.length
  src[len - 1]?.bind fun last =>
    if last = charPad then
      src[len - 2]?.map fun last => if last = charPad then len - 2 else len - 1
    else some len

/-- The `switch` of `modp_b64_decode`: the bytes that are stored behind the loop, and the
word that is then compared to `BADCHAR`. -/
def lastBytes (leftover y : ℕ) : List Byte × ℕ :=
  match leftover with
  | 0 => ((toBytes 4 (lookup y)).take 3, lookup y)
  | 1 => ((toBytes 4 (d0.getD (octet y 0) 0)).take 1, d0.getD (octet y 0) 0)
  | 2 =>
    let x := d0.getD (octet y 0) 0 ||| d1.getD (octet y 1) 0
    ((toBytes 4 x).take 1, x)
  | _ =>
    let x := d0.getD (octet y 0) 0 ||| d1.getD (octet y 1) 0 ||| d2.getD (octet y 2) 0
    ((toBytes 4 x).take 2, x)

/-- The part behind the loop. -/
def finish (leftover chunks : ℕ) :
    Option (List Byte × ℕ × ℕ) → Option (Option (List Byte × ℕ))
  | none => some none
  | some (dest, p, y) =>
    let r := lastBytes leftover y
    if leftover = 0 ∧ badChar ≤ r.2 then some none
    else
      (store dest p r.1).map fun dest =>
        if badChar ≤ r.2 then none
        else if leftover = 0 then some (dest, (chunks + 1) * 3)
        else some (dest, 3 * chunks + 6 * leftover / 8)

/-- `modp_b64_decode`, with the bytes and the number that it returns. -/
def decode (dest src : List Byte) : Option (Option (List Byte × ℕ)) :=
  if src.length = 0 then some (some (dest, 0))
  else if src.length < 4 ∨ src.length % 4 ≠ 0 then some none
  else
    (unpadded src).bind fun len =>
      let leftover := len % 4
      let chunks := if leftover = 0 then len / 4 - 1 else len / 4
      (load src 0).bind fun y =>
        (decodeFrom src chunks 1 dest 0 y).bind (finish leftover chunks)

end Voyager.ModpB64

namespace Voyager

open ModpB64

/-- The lengths are `int`s, so longer inputs are left out. -/
def base64Encode (input : List Byte) : Option (List Byte) :=
  if encodeLen input.length < 2 ^ 31 then
    (encodeFrom input 0 (List.replicate (encodeLen input.length) 0) 0).map fun r => r.1.take r.2
  else none

/-- The inner `none` is `false`. -/
def base64Decode (input : List Byte) : Option (Option (List Byte)) :=
  if input.length < 2 ^ 31 then
    (ModpB64.decode (List.replicate (decodeLen input.length) 0) input).map fun r =>
      r.map fun r => r.1.take r.2
  else none

end Voyager
