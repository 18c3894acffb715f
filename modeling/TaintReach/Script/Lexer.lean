import TaintReach.Script.Quoted
import TaintReach.Script.Token
import TaintReach.Text.Blank

/-! Reading one token at a time.

Whether a slash opens a regular expression and where a template goes on is for
the grammar to say, so tokens are read on demand. A line break counts only where
it could end a statement: behind a token that can stand last in one. A block
comment that holds a line break counts wherever it stands. -/
namespace TaintReach.Script

/-! ### Blanks and comments -/

/-- White space that is no line break. -/
def isInlineBlank (c : Char) : Bool :=
  !isLineBreak c && (Text.isBlank c || c.toNat = 0xFEFF)

inductive TriviaMode where
  | code
  | lineComment
  | blockComment (sawBreak : Bool)
deriving DecidableEq, Repr

/-- What stands before a token: its length, whether a line break behind it could
still end a statement, whether one did, and whether all comments are closed. -/
structure Trivia where
  length : Nat
  canEnd : Bool
  ended : Bool
  closed : Bool := true

def trivia : TriviaMode → Bool → Bool → Nat → List Char → Trivia
  | .blockComment _, canEnd, ended, n, [] => ⟨n, canEnd, ended, false⟩
  | _, canEnd, ended, n, [] => ⟨n, canEnd, ended, true⟩
  | .code, canEnd, ended, n, '/' :: '/' :: rest => trivia .lineComment canEnd ended (n + 2) rest
  | .code, canEnd, ended, n, '/' :: '*' :: rest =>
    trivia (.blockComment false) canEnd ended (n + 2) rest
  | .code, canEnd, ended, n, c :: rest =>
    if isLineBreak c then trivia .code false (ended || canEnd) (n + 1) rest
    else if isInlineBlank c then trivia .code canEnd ended (n + 1) rest
    else ⟨n, canEnd, ended, true⟩
  | .lineComment, canEnd, ended, n, c :: rest =>
    if isLineBreak c then trivia .code false (ended || canEnd) (n + 1) rest
    else trivia .lineComment canEnd ended (n + 1) rest
  | .blockComment sawBreak, canEnd, ended, n, '*' :: '/' :: rest =>
    if sawBreak then trivia .code false true (n + 2) rest
    else trivia .code canEnd ended (n + 2) rest
  | .blockComment sawBreak, canEnd, ended, n, c :: rest =>
    trivia (.blockComment (sawBreak || isLineBreak c)) canEnd ended (n + 1) rest

/-- Blanks and comments before a token. A text may open with an interpreter line. -/
def triviaBefore (canEnd : Bool) (k : Cursor) : Trivia :=
  match k.pos.offset, k.rest with
  | 0, '#' :: '!' :: rest => trivia .lineComment canEnd false 2 rest
  | _, rest => trivia .code canEnd false 0 rest

/-! ### Names -/

/-- A name found at the start of a text. -/
structure Name where
  length : Nat
  text : List Char
  escaped : Bool

/-- Reads a name; `first` holds at its first character. None when an escape is
malformed or gives a character that may not stand there. -/
def name? (first : Bool) (cs : List Char) : Option Name :=
  match cs with
  | [] => some ⟨0, [], false⟩
  | c :: rest =>
    if c = '\\' then
      match rest with
      | 'u' :: code =>
        match Quoted.unicodeEscape code with
        | none => none
        | some (value, n) =>
          let c := Char.ofNat value
          if if first then Text.isNameStart c else Text.isNamePart c then
            (name? false (code.drop n)).map fun m => ⟨m.length + n + 2, c :: m.text, true⟩
          else none
      | _ => none
    else if Text.isNamePart c then
      (name? false rest).map fun m => ⟨m.length + 1, c :: m.text, m.escaped⟩
    else some ⟨0, [], false⟩
termination_by cs.length
decreasing_by all_goals simp +arith [List.length_drop]

/-! ### Tokens -/

/-- A token as it stands in the text. -/
structure Lexeme where
  token : Token
  /-- The spelling, of a private name without its mark. -/
  raw : String := ""
  /-- The name that a word or private name spells. -/
  name : String := ""
  pos : Pos := {}
  /-- A line break before the token can end a statement. -/
  afterBreak : Bool := false

instance : Inhabited Lexeme := ⟨{ token := .illegal }⟩

/-- A token, the place behind it, and whether a line break there could end a statement. -/
structure Scanned where
  lexeme : Lexeme
  after : Cursor
  canEnd : Bool

/-- Whether a soft word may be used as a name. -/
def softAllowed (awaitReserved yieldReserved : Bool) (word : String) : Bool :=
  if word = "await" then !awaitReserved
  else if word = "yield" then !yieldReserved
  else true

/-- Blanks in front of a line break, with the first half of a double break; none
when something else follows the blanks. -/
def blanksBeforeBreak (cs : List Char) : Option Nat :=
  let blanks := (cs.takeWhile isInlineBlank).length
  match cs.drop blanks with
  | '\r' :: '\n' :: _ => some (blanks + 1)
  | c :: _ => if isLineBreak c then some blanks else none
  | [] => none

/-- What a word is: its token, whether a line break behind it could end a
statement, and how many blanks behind it are read along. -/
structure Word where
  token : Token
  canEnd : Bool
  blanks : Nat := 0

/-- Reads a word; `before` is what held before it, `rest` what follows. A word that
is reserved loses its meaning when it is escaped. `async` is read together with
the blanks behind it, and is a plain name if the line ends there. -/
def Word.of (awaitReserved yieldReserved before : Bool) (word : String) (escaped : Bool)
    (rest : List Char) : Word :=
  let soft := Token.softWords.contains word
  if escaped then
    if (soft && softAllowed awaitReserved yieldReserved word) ||
        !(soft || Token.keywords.contains word || Token.futureWords.contains word) then
      ⟨.identifier, true, 0⟩
    else ⟨.escapedWord, true, 0⟩
  else if word = "async" then
    match blanksBeforeBreak rest with
    | some n => ⟨.identifier, true, n⟩
    | none => ⟨.soft word, before, (rest.takeWhile isInlineBlank).length⟩
  else if soft then ⟨.soft word, before || Token.endsStatement.contains word, 0⟩
  else if Token.keywords.contains word then
    ⟨.keyword word, before || Token.endsStatement.contains word, 0⟩
  else if Token.futureWords.contains word then ⟨.future, before, 0⟩
  else ⟨.identifier, true, 0⟩

/-- The longest mark that a text starts with. A question mark and a point join
unless a digit follows. -/
def mark? (cs : List Char) : Option String :=
  match cs with
  | '?' :: '.' :: rest =>
    if rest.head?.any Char.isDigit then some "?" else some "?."
  | _ => Token.marks.find? fun m => m.toList.isPrefixOf cs

/-- Reads the next token. `canEnd` says whether a line break at `k` could end a
statement. -/
def scan (awaitReserved yieldReserved canEnd : Bool) (k : Cursor) : Scanned :=
  let gap := triviaBefore canEnd k
  let start := k.forward gap.length
  let lexeme (token : Token) (n : Nat) (name : String) : Lexeme :=
    { token, raw := String.ofList (start.rest.take n), name, pos := start.pos
      afterBreak := gap.ended }
  let found (token : Token) (n : Nat) (canEnd : Bool) : Scanned :=
    ⟨lexeme token n "", start.forward n, canEnd⟩
  if !gap.closed then found .illegal 0 false else
  match start.rest with
  | [] => ⟨{ lexeme .eof 0 "" with afterBreak := gap.ended || gap.canEnd }, start, false⟩
  | c :: rest =>
    if Text.isNameStart c || c = '\\' then
      match name? true start.rest with
      | none => found .illegal 0 false
      | some m =>
        let word := String.ofList m.text
        let found :=
          Word.of awaitReserved yieldReserved gap.canEnd word m.escaped (start.rest.drop m.length)
        ⟨lexeme found.token m.length word, start.forward (m.length + found.blanks), found.canEnd⟩
    else if c.isDigit || (c = '.' && rest.head?.any Char.isDigit) then
      let number := Numeral.find start.rest
      match number.value with
      | some value => found (.number value) number.length true
      | none => found .illegal number.length true
    else if c = '"' || c = '\'' then
      match Quoted.stringBody c rest with
      | none => found .illegal 1 true
      | some n =>
        match Quoted.cook false (rest.take n) with
        | none => found .illegal (n + 2) true
        | some units => found (.string units) (n + 2) true
    else if c = '\x60' then found .backtick 1 false
    else if c = '#' then
      match name? true rest with
      | some m =>
        if m.length = 0 then found .illegal 1 false
        else
          ⟨{ lexeme .privateName 0 (String.ofList m.text) with
              raw := String.ofList (rest.take m.length) },
            start.forward (m.length + 1), true⟩
      | none => found .illegal 1 false
    else
      match mark? start.rest with
      | none => found .illegal 1 false
      | some m =>
        if m = "=>" && gap.ended then found .illegal 2 false
        else found (.punct m) m.length (Token.closingMarks.contains m)

end TaintReach.Script
