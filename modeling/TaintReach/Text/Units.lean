/-! Text as 16-bit units.

A character beyond the first plane takes two units, a surrogate pair. Escapes can
name units one by one, so half of a pair may stand alone. -/
namespace TaintReach.Text

/-- The units that a code point takes. -/
def unitsOf (code : Nat) : List Nat :=
  if code ≤ 0xFFFF then [code]
  else [0xD800 + (code - 0x10000) / 0x400, 0xDC00 + (code - 0x10000) % 0x400]

/-- Units as text; half of a pair that stands alone becomes the replacement character. -/
def ofUnits : List Nat → List Char
  | [] => []
  | hi :: rest =>
    if 0xD800 ≤ hi && hi < 0xDC00 then
      match rest with
      | lo :: rest' =>
        if 0xDC00 ≤ lo && lo < 0xE000 then
          Char.ofNat (0x10000 + (hi - 0xD800) * 0x400 + (lo - 0xDC00)) :: ofUnits rest'
        else '�' :: ofUnits (lo :: rest')
      | [] => ['�']
    else if 0xDC00 ≤ hi && hi < 0xE000 then '�' :: ofUnits rest
    else Char.ofNat hi :: ofUnits rest

end TaintReach.Text
