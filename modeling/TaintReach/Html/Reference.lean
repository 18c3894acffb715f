import TaintReach.Text.Digit

/-! Character references in attribute values.

Only values that name a type of script are ever looked at. Of the named references
those are resolved that give white space, a slash, or a letter with a small form
inside ASCII; every other one gives a character that no such name has, and is left
as it stands. -/
namespace TaintReach.Html.Reference

/-- Named references, with the semicolon they end in. -/
def named : List (String × List Nat) :=
  [("Tab;", [0x9]), ("NewLine;", [0xA]), ("sol;", [0x2F]), ("nbsp;", [0xA0]), ("nbsp", [0xA0]),
    ("NonBreakingSpace;", [0xA0]), ("ensp;", [0x2002]), ("emsp;", [0x2003]), ("emsp13;", [0x2004]),
    ("emsp14;", [0x2005]), ("numsp;", [0x2007]), ("puncsp;", [0x2008]), ("thinsp;", [0x2009]),
    ("ThinSpace;", [0x2009]), ("hairsp;", [0x200A]), ("VeryThinSpace;", [0x200A]),
    ("MediumSpace;", [0x205F]), ("ThickSpace;", [0x205F, 0x200A]), ("Idot;", [0x130])]

/-- What numbers from 0x80 to 0x9F stand for. -/
def windowsNumbers : List Nat :=
  [0x20AC, 0x81, 0x201A, 0x192, 0x201E, 0x2026, 0x2020, 0x2021, 0x2C6, 0x2030, 0x160, 0x2039,
    0x152, 0x8D, 0x17D, 0x8F, 0x90, 0x2018, 0x2019, 0x201C, 0x201D, 0x2022, 0x2013, 0x2014, 0x2DC,
    0x2122, 0x161, 0x203A, 0x153, 0x9D, 0x17E, 0x178]

/-- The character of a number, which is taken in 32 bits. -/
def ofNumber (n : Nat) : Char :=
  let n := n % 0x100000000
  if 0x80 ≤ n && n ≤ 0x9F then Char.ofNat (windowsNumbers.getD (n - 0x80) 0xFFFD)
  else if n = 0 || (0xD800 ≤ n && n ≤ 0xDFFF) || 0x10FFFF < n then '�'
  else Char.ofNat n

/-- A reference by number, read behind the number sign: its character and how many
characters it takes, a semicolon included. -/
def number? (cs : List Char) : Option (Char × Nat) :=
  let (base, lead) := match cs with
    | 'x' :: _ | 'X' :: _ => (16, 1)
    | _ => (10, 0)
  let run := (cs.drop lead).takeWhile (Text.isDigitIn base)
  let taken := lead + run.length
  let taken := if (cs.drop taken).head? = some ';' then taken + 1 else taken
  -- One more character than the sign has to be there in any case.
  if taken ≤ 1 || cs.length ≤ 1 then none else some (ofNumber (Text.valueIn base run), taken)

/-- A reference, read behind the ampersand: its characters and its length. -/
def find? (cs : List Char) : Option (List Char × Nat) :=
  match cs with
  | '#' :: rest => (number? rest).map fun (c, n) => ([c], n + 1)
  | _ =>
    let run := cs.takeWhile Char.isAlphanum
    let rest := cs.drop run.length
    let name := if rest.head? = some ';' then run ++ [';'] else run
    -- Without its semicolon a reference is none in front of an equals sign.
    if name = run && rest.head? = some '=' then none
    else (named.lookup (String.ofList name)).map fun codes => (codes.map Char.ofNat, name.length)

/-- Resolves the references in a text. -/
def resolve (cs : List Char) : List Char :=
  match cs with
  | [] => []
  | c :: rest =>
    if c = '&' then
      match find? rest with
      | some (found, n) => found ++ resolve (rest.drop n)
      | none => c :: resolve rest
    else c :: resolve rest
termination_by cs.length
decreasing_by all_goals simp +arith [List.length_drop]

end TaintReach.Html.Reference
