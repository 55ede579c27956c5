import Scriptlet.Token.Basic

namespace Scriptlet

/-!
What can be wrong with source text.
-/

/-- What a place in the source calls for. -/
inductive Expected where
  | kind (wanted : Token.Kind)
  | either (first second : Token.Kind)
  | keyword (word : String)
  | expression
  deriving DecidableEq

def Expected.describe : Expected → String
  | .kind wanted => wanted.describe
  | .either first second => first.describe ++ " or " ++ second.describe
  | .keyword word => "'" ++ word ++ "'"
  | .expression => "expression"

/-- Which part of a `name: type` declaration is missing, and what stands there instead. -/
inductive DeclarationFault where
  | noName (found : Token)
  | noColon (name : String) (found : Token)
  | noType (name : String) (found : Token)
  deriving DecidableEq

namespace DeclarationFault

def found : DeclarationFault → Token
  | .noName found | .noColon _ found | .noType _ found => found

def details : DeclarationFault → String
  | .noName found => "expected a parameter name, found " ++ found.describe
  | .noColon name found => "expected ':' after '" ++ name ++ "', found " ++ found.describe
  | .noType name found => "expected a type name for '" ++ name ++ "', found " ++ found.describe

end DeclarationFault

/-- A fault of the source text.  Where a token is at fault, the fault lies on its line. -/
inductive SyntaxFault where
  | unknownSymbol (symbol : String) (line : Nat)
  | unexpectedToken (found : Token) (expected : Expected)
  | unexpectedStatement (found : Token)
  | unterminatedString (literal : String) (line : Nat)
  | unterminatedArray (line : Nat)
  | invalidNumber (literal : String) (line : Nat)
  | invalidRange (literal : String) (line : Nat)
  | malformedDeclaration (fault : DeclarationFault)
  deriving DecidableEq

namespace SyntaxFault

def line : SyntaxFault → Nat
  | .unknownSymbol _ line => line
  | .unexpectedToken found _ => found.line
  | .unexpectedStatement found => found.line
  | .unterminatedString _ line => line
  | .unterminatedArray line => line
  | .invalidNumber _ line => line
  | .invalidRange _ line => line
  | .malformedDeclaration fault => fault.found.line

def details : SyntaxFault → String
  | .unknownSymbol symbol _ => "Unknown symbol: " ++ symbol
  | .unexpectedToken found expected =>
      "Unexpected token " ++ found.describe ++ ", expected " ++ expected.describe
  | .unexpectedStatement found => "Unexpected statement " ++ found.describe
  | .unterminatedString literal _ => "Unexpected end of input in literal " ++ literal
  | .unterminatedArray _ => "Unterminated array literal"
  | .invalidNumber literal _ => "Invalid number literal " ++ literal
  | .invalidRange literal _ => "Invalid range literal " ++ literal
  | .malformedDeclaration fault => "Malformed parameter declaration: " ++ fault.details

def message (fault : SyntaxFault) : String :=
  "Syntax error on line " ++ toString fault.line ++ ": " ++ fault.details

end SyntaxFault
end Scriptlet
