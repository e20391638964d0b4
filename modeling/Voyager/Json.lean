import Voyager.Buffer
import Voyager.Lib.CString
import Voyager.Lib.OrderedMap

/-!
`Json` of util/json/json.h and util/json/json.cc: values, the writer and the
recursive reader. A failed assertion of `JsonReader` ends the run. The loops of the
reader are bounded by the bytes that are left and the recursion by a fuel that
`parse` provides.
-/
namespace Voyager.Json

open Lib.CString Lib.OrderedMap

def byte (c : Char) : Byte := UInt8.ofNat c.toNat

def quote : Byte := 34
def backslash : Byte := 92

/-- Null is the pointer without a value. A number is one that is flagged `is_int_`,
with an integer value that a `double` holds exactly; the members of an object are in
the order of their keys. -/
inductive JsonValuePtr
  | null
  | string (value : List Byte)
  | num (value : Int)
  | obj (value : List (List Byte × JsonValuePtr))
  | array (value : List JsonValuePtr)
  | boolean (value : Bool)

/-! The writer. -/

/-- `%04x` -/
def hexDigits (n : ℕ) : List Byte :=
  let digit (d : ℕ) : Byte := if d < 10 then UInt8.ofNat (48 + d) else UInt8.ofNat (87 + d)
  [digit (n / 4096 % 16), digit (n / 256 % 16), digit (n / 16 % 16), digit (n % 16)]

/-- `none` is `continue`. -/
def replacement (c : Byte) : Option (List Byte) :=
  if c = quote then some [backslash, quote]
  else if c = backslash then some [backslash, backslash]
  else if c = byte '/' then some [backslash, byte '/']
  else if c = 8 then some [backslash, byte 'b']
  else if c = 12 then some [backslash, byte 'f']
  else if c = 10 then some [backslash, byte 'n']
  else if c = 13 then some [backslash, byte 'r']
  else if c = 9 then some [backslash, byte 't']
  else if c < 32 then some (backslash :: byte 'u' :: hexDigits c.toNat)
  else none

/-- The loop over `rest`, the part of `s` from `i` on; `begin` is where the run of
bytes starts that are copied as they are. -/
def writeStringFrom (s : List Byte) (begin i : ℕ) (result : List Byte) : List Byte → List Byte
  | [] => result ++ (s.drop begin).take (i - begin)
  | c :: rest =>
    match replacement c with
    | some replace =>
      writeStringFrom s (i + 1) (i + 1) (result ++ (s.drop begin).take (i - begin) ++ replace) rest
    | none => writeStringFrom s begin (i + 1) result rest

def writeString (s : List Byte) : List Byte :=
  writeStringFrom s 0 0 [quote] s ++ [quote]

/-- An integer as `std::ostream` prints it with up to 30 digits. -/
def writeNum (n : Int) : List Byte :=
  let digits := (Nat.toDigits 10 n.natAbs).map byte
  if n < 0 then byte '-' :: digits else digits

def writeBoolean (b : Bool) : List Byte := if b then ascii "true" else ascii "false"

mutual

/-- What is appended to `result`. Every type has its case, so the status is `OK`.
`\x7b` and `\x7d` are the braces. -/
def stringify : JsonValuePtr → List Byte
  | .null => ascii "null"
  | .string s => writeString s
  | .num n => writeNum n
  | .obj m => ascii "\x7b " ++ writeMembers true m ++ ascii " \x7d"
  | .array xs => ascii "[ " ++ writeElements true xs ++ ascii " ]"
  | .boolean b => writeBoolean b

def writeMembers (first : Bool) : List (List Byte × JsonValuePtr) → List Byte
  | [] => []
  | (k, v) :: rest =>
    (if first then [] else ascii ", ") ++ writeString k ++ ascii ": " ++ stringify v ++
      writeMembers false rest

def writeElements (first : Bool) : List JsonValuePtr → List Byte
  | [] => []
  | v :: rest => (if first then [] else ascii ", ") ++ stringify v ++ writeElements false rest

end

/-! The reader. -/

/-- Behind `data` follows the NUL of `c_str`. -/
structure JsonReader where
  data : List Byte
  cur : ℕ
deriving DecidableEq, Repr

/-- How a function of the reader ends. `error` is a status other than `OK`. -/
inductive Outcome (α : Type)
  | ok (a : α) (r : JsonReader)
  | error (info : String)
  | assertion
  | unfinished

def Outcome.bind {α β : Type} : Outcome α → (α → JsonReader → Outcome β) → Outcome β
  | .ok a r, f => f a r
  | .error info, _ => .error info
  | .assertion, _ => .assertion
  | .unfinished, _ => .unfinished

namespace JsonReader

def size (r : JsonReader) : ℕ := r.data.length

def hasEnd (r : JsonReader) : Bool := decide (r.size ≤ r.cur)

def peek (r : JsonReader) : List Byte := r.data.drop r.cur

def read (r : JsonReader) : Outcome Byte :=
  match r.data[r.cur]? with
  | some c => .ok c { r with cur := r.cur + 1 }
  | none => .assertion

def back (r : JsonReader) : Outcome Unit :=
  if 0 < r.cur then .ok () { r with cur := r.cur - 1 } else .assertion

/-- `n` bytes that are not looked at. -/
def skip (r : JsonReader) : ℕ → Outcome Unit
  | 0 => .ok () r
  | n + 1 => r.read.bind fun _ r => r.skip n

/-- The bytes that are left. -/
def left (r : JsonReader) : ℕ := r.size - r.cur

end JsonReader

/-- The position as an `uint32_t`. -/
def info (text : String) (r : JsonReader) : String :=
  text ++ "[pos:" ++ toString (r.cur % 2 ^ 32) ++ "]"

def isWhite (c : Byte) : Bool := c = 32 || c = 9 || c = 13 || c = 10

def skipWhiteSpaceFrom : ℕ → JsonReader → Byte → Outcome Byte
  | 0, r, c => .ok c r
  | n + 1, r, c =>
    if !r.hasEnd && isWhite c then r.read.bind fun c r => skipWhiteSpaceFrom n r c
    else .ok c r

/-- The last byte read, white space at the end of the input only. -/
def skipWhiteSpace (r : JsonReader) : Outcome Byte := skipWhiteSpaceFrom r.left r 32

/-- A byte that is no digit leaves `code`: its error status is dropped. -/
def hexStep (code : ℕ) (c : Byte) : ℕ :=
  if 97 ≤ c ∧ c ≤ 102 then (code * 16 + (c.toNat - 97 + 10)) % 2 ^ 16
  else if 65 ≤ c ∧ c ≤ 70 then (code * 16 + (c.toNat - 65 + 10)) % 2 ^ 16
  else if isDigit c then (code * 16 + (c.toNat - 48)) % 2 ^ 16
  else code

def getHexFrom : ℕ → JsonReader → ℕ → Outcome ℕ
  | 0, r, code => .ok code r
  | n + 1, r, code => r.read.bind fun c r => getHexFrom n r (hexStep code c)

def getHex (r : JsonReader) : Outcome ℕ := getHexFrom 4 r 0

/-- What an escape other than `\u` appends; an unknown one appends nothing. -/
def unescape (c : Byte) : List Byte :=
  if c = backslash ∨ c = quote ∨ c = byte '/' then [c]
  else if c = byte 'b' then [8]
  else if c = byte 'f' then [12]
  else if c = byte 'n' then [10]
  else if c = byte 'r' then [13]
  else if c = byte 't' then [9]
  else []

/-- The variables of `GetString`. `i` bytes from `peek` on, a pointer into the
input, are still to be copied; `i` is an `uint32_t`. -/
structure StringState where
  value : List Byte
  peek : ℕ
  i : ℕ
  c : Byte

def StringState.append (s : StringState) (r : JsonReader) : List Byte :=
  s.value ++ (r.data.drop s.peek).take s.i

def getStringFrom (head : Byte) : ℕ → JsonReader → StringState → Outcome StringState
  | 0, r, s => .ok s r
  | n + 1, r, s =>
    if r.hasEnd then .ok s r
    else
      r.read.bind fun c r =>
        if c = backslash then
          let s : StringState := ⟨s.append r, s.peek + s.i + 2, 0, c⟩
          if r.hasEnd then .ok s r
          else
            r.read.bind fun c r =>
              if c = byte 'u' then
                (getHex r).bind fun icode r =>
                  if 255 < icode then .error (info "get string error(\\u)" r)
                  else
                    getStringFrom head n r
                      ⟨s.value ++ [UInt8.ofNat icode], s.peek + 4, s.i, c⟩
              else getStringFrom head n r { s with value := s.value ++ unescape c, c := c }
        else if c = head then .ok { s with c := c } r
        else getStringFrom head n r { s with i := (s.i + 1) % 2 ^ 32, c := c }

def getString (r : JsonReader) (head : Byte) : Outcome (List Byte) :=
  (getStringFrom head r.left r ⟨[], r.cur, 0, 0⟩).bind fun s r =>
    if s.c ≠ head then .error (info "get string error(\\u)" r)
    else .ok (s.append r) r

structure NumState where
  isOk : Bool
  isFloat : Bool
  isExponential : Bool
  isNeedback : Bool

def getNumFrom : ℕ → JsonReader → NumState → Outcome NumState
  | 0, r, s => .ok s r
  | n + 1, r, s =>
    if r.hasEnd then .ok s r
    else
      r.read.bind fun c r =>
        if isDigit c then getNumFrom n r { s with isOk := true }
        else if c = byte '.' ∧ s.isFloat = false ∧ s.isExponential = false ∧ s.isOk = true then
          getNumFrom n r { s with isOk := false, isFloat := true }
        else if (c = byte 'e' ∨ c = byte 'E') ∧ s.isExponential = false ∧ s.isOk = true then
          let s : NumState := { s with isOk := false, isExponential := true }
          if r.hasEnd then .ok s r
          else
            r.read.bind fun c r =>
              if c = byte '-' ∨ c = byte '+' then getNumFrom n r s
              else if isDigit c then getNumFrom n r { s with isOk := true }
              else .ok { s with isNeedback := true } r
        else .ok { s with isNeedback := true } r

/-- The number goes into a node that is not handed out: `p` stays as it is. -/
def getNum (r : JsonReader) (head : Byte) (p : JsonValuePtr) : Outcome JsonValuePtr :=
  (getNumFrom r.left r ⟨head ≠ byte '-', false, false, false⟩).bind fun s r =>
    if s.isOk = false then .error (info "get num error" r)
    else if s.isNeedback then r.back.bind fun _ r => .ok p r
    else .ok p r

/-- `Peek` is already behind the first letter `c`. -/
def getBoolean (r : JsonReader) (c : Byte) : Outcome JsonValuePtr :=
  if (c = byte 't' ∨ c = byte 'T') ∧ strncasecmp r.peek (ascii "true") 4 = 0 then
    (r.skip 3).bind fun _ r => .ok (.boolean true) r
  else if (c = byte 'f' ∨ c = byte 'F') ∧ strncasecmp r.peek (ascii "false") 5 = 0 then
    (r.skip 4).bind fun _ r => .ok (.boolean false) r
  else .error (info "get bool error" r)

def getNull (r : JsonReader) (p : JsonValuePtr) : Outcome JsonValuePtr :=
  if strncasecmp r.peek (ascii "null") 4 = 0 then (r.skip 3).bind fun _ r => .ok p r
  else .error (info "get NULL error" r)

mutual

def getValue : ℕ → JsonReader → JsonValuePtr → Outcome JsonValuePtr
  | 0, _, _ => .unfinished
  | n + 1, r, p =>
    (skipWhiteSpace r).bind fun c r =>
      if c = byte '{' then getObjFrom n r true []
      else if c = byte '[' then (skipWhiteSpace r).bind fun c r => getArrayFrom n r c true []
      else if c = quote then (getString r c).bind fun value r => .ok (.string value) r
      else if c = byte 'T' ∨ c = byte 't' ∨ c = byte 'F' ∨ c = byte 'f' then getBoolean r c
      else if isDigit c ∨ c = byte '-' then getNum r c p
      else if c = byte 'n' ∨ c = byte 'N' then getNull r p
      else
        .error ("buffer overflow when peekBuf, over " ++ toString (r.cur % 2 ^ 32) ++ ".")

/-- The loop of `GetObj`. -/
def getObjFrom : ℕ → JsonReader → Bool → List (List Byte × JsonValuePtr) → Outcome JsonValuePtr
  | 0, _, _, _ => .unfinished
  | n + 1, r, isFirst, value =>
    (skipWhiteSpace r).bind fun c r =>
      if c = byte '}' ∧ isFirst = true then .ok (.obj value) r
      else if c ≠ quote then .error (info "get obj error(key is not string)" r)
      else
        (getString r quote).bind fun str r =>
          (skipWhiteSpace r).bind fun c r =>
            if c ≠ byte ':' then .error (info "get obj error(: not find)" r)
            else
              (getValue n r .null).bind fun temp r =>
                let value := insert str temp value
                (skipWhiteSpace r).bind fun c r =>
                  if c = byte ',' then getObjFrom n r false value
                  else if c = byte '}' then .ok (.obj value) r
                  else .error (info "get obj error(, not find)" r)

/-- The loop of `GetArray`; `c` is the byte read ahead of it. -/
def getArrayFrom : ℕ → JsonReader → Byte → Bool → List JsonValuePtr → Outcome JsonValuePtr
  | 0, _, _, _, _ => .unfinished
  | n + 1, r, c, isFirst, value =>
    if r.hasEnd then .error (info "get vector error(] not find )" r)
    else if isFirst = true ∧ c = byte ']' then .ok (.array value) r
    else
      (if isFirst = true then r.back else .ok () r).bind fun _ r =>
        (getValue n r .null).bind fun valuePtr r =>
          let value := value ++ [valuePtr]
          (skipWhiteSpace r).bind fun c r =>
            if c = byte ',' then getArrayFrom n r c false value
            else if c = byte ']' then .ok (.array value) r
            else .error (info "get vector error(, not find )" r)

end

/-- `p` is what the caller's pointer holds. -/
def parse (str : List Byte) (p : JsonValuePtr) : Outcome JsonValuePtr :=
  getValue (2 * str.length + 2) ⟨str, 0⟩ p

end Voyager.Json
