import TaintReach.Text.Blank

/-! Files of variables: a name, an equals sign or a colon, and a value a line.

A value in quotes may go on over several lines. Inside double quotes and outside all
quotes, names behind a dollar sign stand for the values of variables: those of the
environment, else those given in the file so far. -/
namespace TaintReach.Dotenv

/-- Why a file of variables cannot be read. -/
inductive Problem where
  | unclosedQuote
  | badLine (line : String)
  | unsetVariable (line : String)
deriving DecidableEq, Repr

def Problem.message : Problem → String
  | .unclosedQuote => "missing quotes"
  | .badLine line => "line \x60" ++ line ++ "\x60 doesn't match format"
  | .unsetVariable line => "line \x60" ++ line ++ "\x60 has an unset variable"

/-- Variables with their values, the last given first. -/
abbrev Variables := List (String × String)

/-! ### Lines -/

/-- The lines of a text, which end with a line feed, a return or both, behind a part
of the first one. -/
def linesAfter (line : List Char) : List Char → List (List Char)
  | [] => if line.isEmpty then [] else [line.reverse]
  | '\r' :: '\n' :: cs => line.reverse :: linesAfter [] cs
  | c :: cs =>
    if c = '\n' || c = '\r' then line.reverse :: linesAfter [] cs else linesAfter (c :: line) cs

/-- Where a character stands last. -/
def lastIndex? (c : Char) (cs : List Char) : Option Nat :=
  if cs.contains c then some (cs.length - 1 - cs.reverse.findIdx (· = c)) else none

/-- The quote that a line opens and does not close. -/
def openQuote? (line : List Char) : Option Char :=
  let i := if line.contains '=' then line.findIdx (· = '=') else line.findIdx (· = ':')
  if i = 0 || line.length ≤ i + 1 then none
  else
    let value := Text.trim (line.drop (i + 1))
    match value with
    | q :: rest =>
      if q = '"' || q = '\'' then
        match lastIndex? q rest with
        | some i => if value[i]? = some '\\' then some q else none
        | none => some q
      else none
    | [] => none

/-- Adds lines up to the one that closes a quote; gives the lines left. -/
def closeQuote (q : Char) (line : List Char) :
    List (List Char) → Option (List Char × List (List Char))
  | [] => none
  | next :: rest =>
    let line := line ++ '\n' :: next
    match lastIndex? q next with
    | some i =>
      if 0 < i && next[i - 1]? = some '\\' then closeQuote q line rest else some (line, rest)
    | none => closeQuote q line rest

/-! ### Values -/

def isSpace (c : Char) : Bool :=
  c = ' ' || c = '\t' || c = '\n' || c = '\r' || c = '\x0c'

def isNameChar (c : Char) : Bool := c.isAlphanum || c = '_' || c = '.'

/-- Blanks and a comment up to the end of the line. -/
def isTail (cs : List Char) : Bool :=
  match cs.dropWhile isSpace with
  | [] => true
  | '#' :: rest => !rest.contains '\n'
  | _ => false

/-- The longest part from a quote to another one with only a comment behind it. -/
def quoted? (q : Char) (cs : List Char) : Option (List Char) :=
  if cs.head? ≠ some q then none
  else
    ((List.range cs.length).reverse.find? fun i =>
      0 < i && cs[i]? = some q && isTail (cs.drop (i + 1))).map fun i => cs.take (i + 1)

/-- The value in front of a comment. -/
def value? (cs : List Char) : Option (List Char) :=
  match quoted? '\'' cs <|> quoted? '"' cs with
  | some v => some v
  | none =>
    let v := cs.takeWhile fun c => c ≠ '#' && c ≠ '\n'
    if isTail (cs.drop v.length) then some v else none

/-- The value behind a colon and at least one blank, the fewest that make one. -/
def valueBehindBlanks? : List Char → Option (List Char)
  | c :: cs => if isSpace c then value? cs <|> valueBehindBlanks? cs else none
  | [] => none

/-- The value behind the name: an equals sign among blanks, or a colon, divides them. -/
def separated? (cs : List Char) : Option (List Char) :=
  match cs.dropWhile isSpace with
  | '=' :: rest => value? (rest.dropWhile isSpace)
  | _ =>
    match cs with
    | ':' :: rest => valueBehindBlanks? rest
    | _ => none

/-- A name and its value. -/
def pair? (cs : List Char) : Option (List Char × List Char) :=
  let name := cs.takeWhile isNameChar
  if name.isEmpty then none else (separated? (cs.drop name.length)).map (name, ·)

/-- The word that may announce a variable. -/
def announced : List Char := ['e', 'x', 'p', 'o', 'r', 't']

/-- A name and its value, with an announcement in front on demand. -/
def assignment? (line : List Char) : Option (List Char × List Char) :=
  let cs := line.dropWhile isSpace
  let rest := cs.drop announced.length
  (if announced.isPrefixOf cs && rest.head?.any isSpace then pair? (rest.dropWhile isSpace)
    else none) <|> pair? cs

/-- Replaces the escapes of breaks in double quotes. -/
def breaks : List Char → List Char
  | '\\' :: 'n' :: cs => '\n' :: breaks cs
  | '\\' :: 'r' :: cs => '\r' :: breaks cs
  | c :: cs => c :: breaks cs
  | [] => []

/-- Leaves backslashes out, except in front of a dollar sign. -/
def unescape : List Char → List Char
  | '\\' :: c :: cs => if c = '$' then '\\' :: '$' :: unescape cs else c :: unescape cs
  | c :: cs => c :: unescape cs
  | [] => []

/-- A name in upper case, with the braces around it. -/
def reference (cs : List Char) : List Char :=
  let front := if cs.head? = some '\x7b' then ['\x7b'] else []
  let name := (cs.drop front.length).takeWhile fun c => c.isUpper || c.isDigit || c = '_'
  let behind := cs.drop (front.length + name.length)
  front ++ name ++ (if behind.head? = some '\x7d' then ['\x7d'] else [])

/-- Replaces names behind dollar signs; a backslash keeps a dollar sign, and so does
the lack of a name. -/
def expand (lookup : String → String) : Nat → List Char → List Char
  | 0, cs => cs
  | _, [] => []
  | fuel + 1, '\\' :: '$' :: cs =>
    let r := reference cs
    '$' :: r ++ expand lookup fuel (cs.drop r.length)
  | fuel + 1, '$' :: cs =>
    let r := reference cs
    let name := r.filter fun c => c ≠ '\x7b' && c ≠ '\x7d'
    (if name.isEmpty then '$' :: r else (lookup (String.ofList name)).toList) ++
      expand lookup fuel (cs.drop r.length)
  | fuel + 1, c :: cs => c :: expand lookup fuel cs

/-- What a value stands for. -/
def meaning (environment given : Variables) (value : List Char) : List Char :=
  let inside := (value.drop 1).dropLast
  let enclosed (q : Char) : Bool :=
    1 < value.length && value.head? = some q && value.getLast? = some q
  let lookup (name : String) : String :=
    (environment.lookup name <|> given.lookup name).getD ""
  if enclosed '\'' then inside
  else
    let text := if enclosed '"' then unescape (breaks inside) else value
    expand lookup text.length text

/-! ### Files -/

/-- Adds what a line gives. -/
def readLine (environment given : Variables) (line : List Char) : Except Problem Variables :=
  match assignment? line with
  | some (name, value) =>
    .ok ((String.ofList name, String.ofList (meaning environment given (Text.trim value))) :: given)
  | none =>
    let text := String.ofList line
    let rest := (line.dropWhile (· ≠ ' ')).drop 1
    if announced.isPrefixOf line && line.contains ' ' &&
        (given.lookup (String.ofList rest)).isNone then .error (.unsetVariable text)
    else .error (.badLine text)

def readLines (environment : Variables) :
    Nat → Variables → List (List Char) → Except Problem Variables
  | 0, given, _ | _, given, [] => .ok given
  | fuel + 1, given, line :: rest => do
    let line := Text.trim line
    if line.isEmpty || line.head? = some '#' then readLines environment fuel given rest
    else
      let (line, rest) ← match openQuote? line with
        | none => .ok (line, rest)
        | some q => match closeQuote q line rest with
          | some found => .ok found
          | none => .error .unclosedQuote
      readLines environment fuel (← readLine environment given line) rest

/-- The variables a file gives, the last first. -/
def read (environment : Variables) (text : String) : Except Problem Variables :=
  let cs := match text.toList with
    | '\ufeff' :: cs => cs
    | cs => cs
  let ls := linesAfter [] cs
  readLines environment (ls.length + 1) [] ls

end TaintReach.Dotenv
