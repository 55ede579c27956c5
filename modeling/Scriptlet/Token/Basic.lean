namespace Scriptlet

/-!
Tokens: the classified words and marks that source text is made of.
-/

/-- The classes of tokens. -/
inductive Token.Kind where
  | number
  | string
  | identifier
  | keyword
  | equals
  | minus
  | binaryOperator
  | unaryOperator
  | openParen
  | closeParen
  | openBracket
  | closeBracket
  | openBrace
  | closeBrace
  | comma
  | dot
  | colon
  | typeTag
  | range
  | newLine
  | endOfFile
  deriving DecidableEq

/-- How messages name a class. -/
def Token.Kind.describe : Token.Kind → String
  | .number => "number"
  | .string => "string"
  | .identifier => "identifier"
  | .keyword => "keyword"
  | .equals => "'='"
  | .minus => "'-'"
  | .binaryOperator => "operator"
  | .unaryOperator => "unary operator"
  | .openParen => "'('"
  | .closeParen => "')'"
  | .openBracket => "'['"
  | .closeBracket => "']'"
  | .openBrace => "'\x7b'"
  | .closeBrace => "'\x7d'"
  | .comma => "','"
  | .dot => "'.'"
  | .colon => "':'"
  | .typeTag => "type name"
  | .range => "range"
  | .newLine => "end of line"
  | .endOfFile => "end of input"

/-- A token with the line it begins on.  The text of a string token is what stands between
its quotes. -/
structure Token where
  kind : Token.Kind
  text : String
  line : Nat
  deriving DecidableEq

namespace Token

/-- How messages show a token. -/
def describe (token : Token) : String :=
  match token.kind with
  | .newLine | .endOfFile => token.kind.describe
  | .string => "\"" ++ token.text ++ "\""
  | _ => "'" ++ token.text ++ "'"

def isKeyword (token : Token) (word : String) : Bool :=
  token.kind = .keyword && token.text = word

/-- The words reserved for statements and truth values. -/
def keywords : List String :=
  ["if", "else", "for", "in", "with", "break", "return", "true", "false"]

/-- The words that name the type of a parameter. -/
def typeNames : List String :=
  ["number", "string", "bool", "array", "object"]

/-- The class of a word. -/
def kindOfWord (word : String) : Kind :=
  if word = "not" then .unaryOperator
  else if word = "and" ∨ word = "or" then .binaryOperator
  else if word ∈ keywords then .keyword
  else if word ∈ typeNames then .typeTag
  else .identifier

end Token
end Scriptlet
