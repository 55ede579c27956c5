import Scriptlet.Proofs.Ensures
import Scriptlet.Proofs.Scanning
import Scriptlet.Reading.Statement

namespace Scriptlet
namespace Reader

/-!
# What a reader makes of a text

A step reads a text when it succeeds on every reader that stands in front of it.  The text
decides what the step returns and which text it leaves; the lines and the host's arguments
play no part in it.
-/

/-- The reader is in front of the text: its next token is the first one of the text, whether it
has been looked at or not. -/
def At (reader : Reader) (text : List Char) : Prop :=
  ∃ line, Lexer.next reader.lexer = Lexer.next { scanner := ⟨text, line⟩ }

theorem At.blank {reader : Reader} {text : List Char} (stands : At reader (' ' :: text)) :
    At reader text := by
  rcases stands with ⟨line, same⟩
  refine ⟨line, same.trans ?_⟩
  simp only [Lexer.next, Scanner.scan, Lexeme.afterIgnored_blank]

/-- From in front of the text the step succeeds, takes no argument, and gets in front of a text
that its result stands in the given relation to. -/
def Reads {α : Type} (text : List Char) (step : Read α) (post : α → List Char → Prop) : Prop :=
  ∀ reader, At reader text → ∃ result after rest, step reader = .ok result after ∧
    after.arguments = reader.arguments ∧ At after rest ∧ post result rest

section Composition

variable {α β : Type} {text rest : List Char} {post : α → List Char → Prop}

theorem Reads.pure {result : α} (holds : post result text) :
    Reads text (Pure.pure result) post :=
  fun reader stands => ⟨result, reader, text, rfl, rfl, stands, holds⟩

theorem Reads.bind {step : Read α} {next : α → Read β} {last : β → List Char → Prop}
    (first : Reads text step post)
    (second : ∀ result rest, post result rest → Reads rest (next result) last) :
    Reads text (step >>= next) last := by
  intro reader stands
  rcases first reader stands with ⟨result, between, rest, ran, arguments, atRest, holds⟩
  rcases second result rest holds between atRest with
    ⟨final, after, left, ranOn, argumentsOn, atLeft, holdsOn⟩
  refine ⟨final, after, left, ?_, argumentsOn.trans arguments, atLeft, holdsOn⟩
  rw [bind_of_ok ran]
  exact ranOn

theorem Reads.weaken {step : Read α} {weaker : α → List Char → Prop} (first : Reads text step post)
    (implies : ∀ result rest, post result rest → weaker result rest) :
    Reads text step weaker := by
  intro reader stands
  rcases first reader stands with ⟨result, after, rest, ran, arguments, atRest, holds⟩
  exact ⟨result, after, rest, ran, arguments, atRest, implies result rest holds⟩

/-- Blanks in front of a text do not matter. -/
theorem Reads.blank {step : Read α} (first : Reads text step post) :
    Reads (' ' :: text) step post :=
  fun reader stands => first reader stands.blank

end Composition

/-! ## Single tokens -/

theorem peek_of_next {lexer after : Lexer} {token : Token}
    (taken : Lexer.next lexer = .ok token after) :
    ∃ kept, Lexer.peek lexer = .ok token kept ∧ Lexer.next kept = .ok token after := by
  rcases lexer with ⟨scanner, ahead⟩
  cases ahead with
  | some found =>
      cases taken
      exact ⟨⟨scanner, some token⟩, rfl, rfl⟩
  | none =>
      simp only [Lexer.next] at taken
      simp only [Lexer.peek]
      rcases scanned : scanner.scan with ⟨outcome, left⟩
      rw [scanned] at taken
      cases outcome with
      | error fault => cases taken
      | ok found =>
          cases taken
          exact ⟨⟨left, some token⟩, rfl, rfl⟩

section Tokens

variable {α : Type} {text rest : List Char} {kind : Token.Kind} {word : String}
variable {post : α → List Char → Prop} (scans : Scanner.Scans text kind word rest)
include scans

theorem lexer_next {lexer : Lexer} {line : Nat}
    (same : Lexer.next lexer = Lexer.next { scanner := ⟨text, line⟩ }) :
    ∃ first last, Lexer.next lexer = .ok ⟨kind, word, first⟩ { scanner := ⟨rest, last⟩ } := by
  rcases scans line with ⟨first, last, scanned⟩
  refine ⟨first, last, same.trans ?_⟩
  simp only [Lexer.next, scanned]

theorem Reads.next {next : Token → Read α}
    (after : ∀ line, Reads rest (next ⟨kind, word, line⟩) post) :
    Reads text (Reader.next >>= next) post := by
  intro reader stands
  rcases stands with ⟨line, same⟩
  rcases lexer_next scans same with ⟨first, last, taken⟩
  have ran : Reader.next reader =
      .ok ⟨kind, word, first⟩ { reader with lexer := { scanner := ⟨rest, last⟩ } } := by
    simp only [Reader.next, onLexer, taken]
  rcases after first { reader with lexer := { scanner := ⟨rest, last⟩ } } ⟨last, rfl⟩ with
    ⟨result, final, left, ranOn, arguments, atLeft, holds⟩
  refine ⟨result, final, left, ?_, arguments, atLeft, holds⟩
  rw [bind_of_ok ran]
  exact ranOn

theorem Reads.peek {next : Token → Read α}
    (after : ∀ line, Reads text (next ⟨kind, word, line⟩) post) :
    Reads text (Reader.peek >>= next) post := by
  intro reader stands
  rcases stands with ⟨line, same⟩
  rcases lexer_next scans same with ⟨first, last, taken⟩
  rcases peek_of_next taken with ⟨kept, looked, again⟩
  have ran : Reader.peek reader = .ok ⟨kind, word, first⟩ { reader with lexer := kept } := by
    simp only [Reader.peek, onLexer, looked]
  rcases after first { reader with lexer := kept } ⟨line, again.trans (taken.symm.trans same)⟩ with
    ⟨result, final, left, ranOn, arguments, atLeft, holds⟩
  refine ⟨result, final, left, ?_, arguments, atLeft, holds⟩
  rw [bind_of_ok ran]
  exact ranOn

theorem Reads.peekKind {next : Token.Kind → Read α} (after : Reads text (next kind) post) :
    Reads text (Reader.peekKind >>= next) post := by
  have looked : Reads text Reader.peekKind (fun found left => found = kind ∧ left = text) :=
    Reads.peek scans fun _ => .pure ⟨rfl, rfl⟩
  apply Reads.bind looked
  rintro _ _ ⟨rfl, rfl⟩
  exact after

theorem Reads.skip {next : Unit → Read α} (after : Reads rest (next ()) post) :
    Reads text (Reader.skip >>= next) post := by
  have skipped : Reads text Reader.skip (fun _ left => left = rest) :=
    Reads.next scans fun _ => .pure rfl
  apply Reads.bind skipped
  rintro _ _ rfl
  exact after

theorem Reads.consume {next : Token → Read α}
    (after : ∀ line, Reads rest (next ⟨kind, word, line⟩) post) :
    Reads text (Reader.consume kind >>= next) post := by
  have taken : Reads text (Reader.consume kind)
      (fun token left => (∃ line, token = ⟨kind, word, line⟩) ∧ left = rest) := by
    apply Reads.next scans
    intro line
    rw [if_pos rfl]
    exact .pure ⟨⟨line, rfl⟩, rfl⟩
  apply Reads.bind taken
  rintro _ _ ⟨⟨line, rfl⟩, rfl⟩
  exact after line

end Tokens

theorem Reads.consumeIdentifier {α : Type} {text rest : List Char} {name : String}
    {post : α → List Char → Prop} {next : String → Read α}
    (scans : Scanner.Scans text .identifier name rest) (after : Reads rest (next name) post) :
    Reads text (Reader.consumeIdentifier >>= next) post := by
  have taken : Reads text Reader.consumeIdentifier (fun found left => found = name ∧ left = rest) :=
    Reads.consume scans fun _ => .pure ⟨rfl, rfl⟩
  apply Reads.bind taken
  rintro _ _ ⟨rfl, rfl⟩
  exact after

theorem Reads.consumeKeyword {α : Type} {text rest : List Char} {word : String}
    {post : α → List Char → Prop} {next : Token → Read α}
    (scans : Scanner.Scans text .keyword word rest)
    (after : ∀ line, Reads rest (next ⟨.keyword, word, line⟩) post) :
    Reads text (Reader.consumeKeyword word >>= next) post := by
  have taken : Reads text (Reader.consumeKeyword word)
      (fun token left => (∃ line, token = ⟨.keyword, word, line⟩) ∧ left = rest) := by
    apply Reads.next scans
    intro line
    rw [if_pos (by simp [Token.isKeyword])]
    exact .pure ⟨⟨line, rfl⟩, rfl⟩
  apply Reads.bind taken
  rintro _ _ ⟨⟨line, rfl⟩, rfl⟩
  exact after line

end Reader
end Scriptlet
