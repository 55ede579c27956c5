import Scriptlet.Text.Letter
import Scriptlet.Token.Fault

namespace Scriptlet

/-!
From characters to tokens.  A scanner holds what has not been read and the line it has
reached; each scan skips what separates tokens and takes the longest lexeme in front.  A
lexer adds one token of lookahead.
-/

/-- What the characters of a lexeme amount to. -/
inductive Lexeme.Shape where
  | token (kind : Token.Kind)
  | openString
  | unknown
  deriving DecidableEq

/-- A lexeme in front of some text, and the text behind it. -/
structure Lexeme where
  shape : Lexeme.Shape
  spelling : List Char
  rest : List Char

namespace Lexeme

/-- Blanks within a line. -/
def isSpacing (c : Char) : Bool :=
  c = ' ' || c = '\t' || c = '\r' || c = '\x0c'

def isNumeral (c : Char) : Bool :=
  c.isDigit || c = '.'

def startsWord (c : Char) : Bool :=
  Text.isLetter c || c = '_'

def continuesWord (c : Char) : Bool :=
  startsWord c || Text.isNumeric c

/-- What follows the blanks and the comment in front of a text.  A comment runs up to the
line break, which is a token of its own. -/
def afterIgnored (cs : List Char) : List Char :=
  match cs.dropWhile isSpacing with
  | '/' :: '/' :: rest => rest.dropWhile (· ≠ '\n')
  | others => others

/-- The marks of a single character. -/
def markKind? (c : Char) : Option Token.Kind :=
  match c with
  | '=' => some .equals
  | '-' => some .minus
  | '+' | '*' | '/' | '%' | '>' | '<' => some .binaryOperator
  | '(' => some .openParen
  | ')' => some .closeParen
  | '[' => some .openBracket
  | ']' => some .closeBracket
  | '\x7b' => some .openBrace
  | '\x7d' => some .closeBrace
  | ',' => some .comma
  | '.' => some .dot
  | ':' => some .colon
  | '\n' => some .newLine
  | _ => none

/-- Digits and points.  Two points or more make a range of it. -/
def numeral (cs : List Char) : Lexeme :=
  let spelling := cs.takeWhile isNumeral
  let kind := if spelling.count '.' < 2 then .number else .range
  ⟨.token kind, spelling, cs.dropWhile isNumeral⟩

def word (cs : List Char) : Lexeme :=
  let spelling := cs.takeWhile continuesWord
  ⟨.token (Token.kindOfWord (String.ofList spelling)), spelling, cs.dropWhile continuesWord⟩

/-- A string literal after its opening quote.  Without a closing quote it takes all that is
left. -/
def quoted (cs : List Char) : Lexeme :=
  let body := cs.takeWhile (· ≠ '"')
  match cs.dropWhile (· ≠ '"') with
  | [] => ⟨.openString, '"' :: body, []⟩
  | close :: rest => ⟨.token .string, '"' :: body ++ [close], rest⟩

/-- A point is a mark by itself and a range when another follows. -/
def points (cs : List Char) : Lexeme :=
  let run := cs.takeWhile (· = '.')
  let kind := if run.isEmpty then .dot else .range
  ⟨.token kind, '.' :: run, cs.dropWhile (· = '.')⟩

/-- The lexeme that starts with the character `c`. -/
def first (c : Char) (cs : List Char) : Lexeme :=
  if c.isDigit then numeral (c :: cs)
  else if startsWord c then word (c :: cs)
  else if c = '"' then quoted cs
  else if c = '.' then points cs
  else
    match markKind? c with
    | some kind => ⟨.token kind, [c], cs⟩
    | none => ⟨.unknown, [c], cs⟩

/-- The token text of a lexeme: a string literal loses its quotes. -/
def text (lexeme : Lexeme) : String :=
  String.ofList <|
    if lexeme.shape = .token .string then lexeme.spelling.tail.dropLast else lexeme.spelling

/-- What a lexeme that spans the two lines is reported as. -/
def outcome (lexeme : Lexeme) (firstLine lastLine : Nat) : Except SyntaxFault Token :=
  match lexeme.shape with
  | .token kind => .ok ⟨kind, lexeme.text, firstLine⟩
  | .openString => .error (.unterminatedString lexeme.text lastLine)
  | .unknown => .error (.unknownSymbol lexeme.text firstLine)

end Lexeme

/-- Unread text and the line it starts on. -/
structure Scanner where
  rest : List Char
  line : Nat

namespace Scanner

/-- Reads one token.  At the end of the text every scan gives the end token. -/
def scan (scanner : Scanner) : Except SyntaxFault Token × Scanner :=
  match Lexeme.afterIgnored scanner.rest with
  | [] => (.ok ⟨.endOfFile, "", scanner.line⟩, ⟨[], scanner.line⟩)
  | c :: cs =>
      let lexeme := Lexeme.first c cs
      let line := scanner.line + lexeme.spelling.count '\n'
      (lexeme.outcome scanner.line line, ⟨lexeme.rest, line⟩)

end Scanner

/-- A scanner with at most one token read ahead. -/
structure Lexer where
  scanner : Scanner
  ahead : Option Token := none

namespace Lexer

def ofSource (source : String) : Lexer :=
  { scanner := ⟨source.toList, 1⟩ }

/-- The line that scanning has reached, a token read ahead included. -/
def line (lexer : Lexer) : Nat :=
  lexer.scanner.line

/-- What is left to read: the characters that have not been scanned, and a token read
ahead. -/
def remaining (lexer : Lexer) : Nat :=
  lexer.scanner.rest.length + (if lexer.ahead.isSome then 1 else 0)

/-- Takes the next token.  A fault takes the characters it reports. -/
def next : EStateM SyntaxFault Lexer Token := fun lexer =>
  match lexer.ahead with
  | some token => .ok token { lexer with ahead := none }
  | none =>
      match lexer.scanner.scan with
      | (.ok token, scanner) => .ok token { scanner }
      | (.error fault, scanner) => .error fault { scanner }

/-- Shows the next token and keeps it.  A fault takes the characters it reports and keeps
nothing. -/
def peek : EStateM SyntaxFault Lexer Token := fun lexer =>
  match lexer.ahead with
  | some token => .ok token lexer
  | none =>
      match lexer.scanner.scan with
      | (.ok token, scanner) => .ok token { scanner, ahead := some token }
      | (.error fault, scanner) => .error fault { scanner }

end Lexer
end Scriptlet
