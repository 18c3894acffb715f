/-! Texts as bytes. -/
namespace TaintReach.Text

/-- The bytes that encode a character. -/
def bytesOf (c : Char) : List Nat := c.toString.toUTF8.toList.map UInt8.toNat

/-- The character with the code of the first byte of a character's encoding. -/
def firstByte (c : Char) : Char :=
  (c.toString.toUTF8.data[0]?).elim c fun b => Char.ofNat b.toNat

/-- The character that the bytes in front encode, and how many they are. -/
def charAt? : List Nat → Option (Char × Nat)
  | a :: rest =>
    let trail (bits : Nat) (count : Nat) (least : Nat) : Option (Char × Nat) :=
      let bytes := rest.take count
      let code := bytes.foldl (fun n b => n * 0x40 + b % 0x40) bits
      if bytes.length = count && bytes.all (fun b => b / 0x40 = 2) && least ≤ code &&
          (code < 0xD800 || (0xDFFF < code && code ≤ 0x10FFFF)) then
        some (Char.ofNat code, count + 1)
      else none
    if a < 0x80 then some (Char.ofNat a, 1)
    else if a < 0xC0 then none
    else if a < 0xE0 then trail (a % 0x20) 1 0x80
    else if a < 0xF0 then trail (a % 0x10) 2 0x800
    else if a < 0xF8 then trail (a % 0x08) 3 0x10000
    else none
  | [] => none

/-- Reads at most `n` characters; a byte that is part of none counts as one that cannot
be shown. -/
def charsWithin : Nat → List Nat → List Char
  | 0, _ => []
  | _, [] => []
  | n + 1, b :: bytes =>
    match charAt? (b :: bytes) with
    | some (c, count) => c :: charsWithin n ((b :: bytes).drop count)
    | none => '\ufffd' :: charsWithin n bytes

def ofBytes (bytes : List Nat) : List Char := charsWithin bytes.length bytes

/-! ### Base 64 -/

/-- The value of a digit in base 64. -/
def base64Digit? (c : Char) : Option Nat :=
  if c.isUpper then some (c.toNat - 'A'.toNat)
  else if c.isLower then some (c.toNat - 'a'.toNat + 26)
  else if c.isDigit then some (c.toNat - '0'.toNat + 52)
  else if c = '+' then some 62
  else if c = '/' then some 63
  else none

/-- The bytes of groups of four digits, the last group filled up with equals signs. -/
def base64Groups : List Char → Option (List Nat)
  | [] => some []
  | [a, b, '=', '='] => do
    let n := (← base64Digit? a) * 0x40 + (← base64Digit? b)
    return [n / 0x10]
  | [a, b, c, '='] => do
    let n := ((← base64Digit? a) * 0x40 + (← base64Digit? b)) * 0x40 + (← base64Digit? c)
    return [n / 0x400, n / 4 % 0x100]
  | a :: b :: c :: d :: rest => do
    let n := (((← base64Digit? a) * 0x40 + (← base64Digit? b)) * 0x40 + (← base64Digit? c)) * 0x40 +
      (← base64Digit? d)
    return n / 0x10000 :: n / 0x100 % 0x100 :: n % 0x100 :: (← base64Groups rest)
  | _ => none

/-- The bytes of a text in base 64, line breaks aside. -/
def base64? (cs : List Char) : Option (List Nat) :=
  base64Groups (cs.filter fun c => c ≠ '\n' && c ≠ '\r')

end TaintReach.Text
