import Scriptlet.Script
import Scriptlet.Tree.Outline

namespace Scriptlet

/-!
The command line: from words to a request, and from a request to what is written and the
exit code.
-/

/-- A script to run, with the choices made for the run. -/
structure Invocation where
  fromFile : Bool
  tree : Bool
  config : Config
  contents : String
  values : List String

inductive Request where
  | run (invocation : Invocation)
  | version
  | help

/-- Why the words make no request. -/
inductive UsageFault where
  | unknownOption (word : String)
  | repeatedOption (word : String)
  | unwantedValue (word : String)
  | badDepth (word : String)
  | missingDepth
  | missingContents

def UsageFault.message : UsageFault → String
  | .unknownOption word => "unexpected argument '" ++ word ++ "' found"
  | .repeatedOption word => "the argument '" ++ word ++ "' cannot be used multiple times"
  | .unwantedValue word => "unexpected value for '" ++ word ++ "' found"
  | .badDepth word => "invalid value '" ++ word ++ "' for '--max-scope-depth <N>'"
  | .missingDepth => "a value is required for '--max-scope-depth <N>' but none was supplied"
  | .missingContents => "the following required arguments were not provided: <CONTENTS>"

namespace CommandLine

/-- The options that stand by themselves. -/
inductive Switch where
  | file
  | tree
  | closeScopes
  | help
  | version
  deriving DecidableEq

def Switch.ofLetter? : Char → Option Switch
  | 'f' => some .file
  | 't' => some .tree
  | 'h' => some .help
  | 'V' => some .version
  | _ => none

def Switch.ofName? (name : String) : Option Switch :=
  if name = "file" then some .file
  else if name = "tree" then some .tree
  else if name = "close-scopes" then some .closeScopes
  else if name = "help" then some .help
  else if name = "version" then some .version
  else none

/-- The one option that has a value. -/
def depthOption : String :=
  "max-scope-depth"

/-- What the words so far have said. -/
structure Progress where
  fromFile : Bool := false
  tree : Bool := false
  closesEarly : Bool := false
  depthLimit : Option Nat := none
  contents : Option String := none

/-- The effect of a word: the words go on, or the request is settled by it. -/
inductive Step where
  | proceed (progress : Progress)
  | settled (request : Request)

/-- Turns a switch on, once. -/
def turnOn (word : String) (progress : Progress) : Switch → Except UsageFault Step
  | .file =>
      if progress.fromFile then .error (.repeatedOption word)
      else .ok (.proceed { progress with fromFile := true })
  | .tree =>
      if progress.tree then .error (.repeatedOption word)
      else .ok (.proceed { progress with tree := true })
  | .closeScopes =>
      if progress.closesEarly then .error (.repeatedOption word)
      else .ok (.proceed { progress with closesEarly := true })
  | .help => .ok (.settled .help)
  | .version => .ok (.settled .version)

/-- Turns on the switches of a word of letters, from left to right. -/
def turnOnAll (word : String) (progress : Progress) : List Char → Except UsageFault Step
  | [] => .ok (.proceed progress)
  | letter :: rest =>
      match Switch.ofLetter? letter with
      | none => .error (.unknownOption word)
      | some switch =>
          match turnOn word progress switch with
          | .ok (.proceed after) => turnOnAll word after rest
          | other => other

/-- A depth: digits with an optional plus sign, within 64 bits. -/
def depth? (word : String) : Option Nat :=
  let digits := if word.toList.head? = some '+' then word.toList.drop 1 else word.toList
  if digits.isEmpty ∨ !digits.all Char.isDigit then none
  else if Number.decimalValue digits < Number.twoTo 64 then some (Number.decimalValue digits)
  else none

def setDepth (progress : Progress) (word : String) : Except UsageFault Progress :=
  if progress.depthLimit.isSome then .error (.repeatedOption ("--" ++ depthOption))
  else
    match depth? word with
    | some depth => .ok { progress with depthLimit := some depth }
    | none => .error (.badDepth word)

/-- How a word looks.  A long option may carry a value behind an equals sign. -/
inductive Look where
  | separator
  | long (name : String) (value : Option String)
  | letters (letters : List Char)
  | plain

def look (word : String) : Look :=
  match word.toList with
  | ['-', '-'] => .separator
  | '-' :: '-' :: rest =>
      let name := String.ofList (rest.takeWhile (· ≠ '='))
      match rest.dropWhile (· ≠ '=') with
      | [] => .long name none
      | _ :: value => .long name (some (String.ofList value))
  | '-' :: letter :: rest => .letters (letter :: rest)
  | _ => .plain

def isSeparator (word : String) : Bool :=
  word = "--"

/-- Whether a word is written like one of the options. -/
def isOption (word : String) : Bool :=
  match look word with
  | .separator => false
  | .long name _ => name = depthOption || (Switch.ofName? name).isSome
  | .letters letters => letters.all fun letter => (Switch.ofLetter? letter).isSome
  | .plain => false

def finish (progress : Progress) (values : List String) : Except UsageFault Request :=
  match progress.contents with
  | none => .error .missingContents
  | some contents =>
      .ok <| .run
        { fromFile := progress.fromFile
          tree := progress.tree
          config :=
            { depthLimit := progress.depthLimit.getD Store.defaultDepthLimit
              closesEarly := progress.closesEarly }
          contents
          values }

/-- Words after the separator are the contents, if they are still missing, and values. -/
def finishPlain (progress : Progress) (words : List String) : Except UsageFault Request :=
  match progress.contents, words with
  | none, word :: rest => finish { progress with contents := some word } rest
  | _, _ => finish progress words

/-- A long option that has no value of its own. -/
def longSwitch (word name : String) (value : Option String) (progress : Progress) :
    Except UsageFault Step :=
  match Switch.ofName? name, value with
  | none, _ => .error (.unknownOption word)
  | some _, some _ => .error (.unwantedValue word)
  | some switch, none => turnOn word progress switch

/-- Reads the words from left to right.  The first plain word is the contents.  After it,
options count until a word that is none of them; that word and all behind it are values. -/
def parse (progress : Progress) : List String → Except UsageFault Request
  | [] => finish progress []
  | word :: rest =>
      if progress.contents.isSome ∧ !isSeparator word ∧ !isOption word then
        finish progress (word :: rest)
      else
        match look word with
        | .separator => finishPlain progress rest
        | .plain => parse { progress with contents := some word } rest
        | .letters letters =>
            match turnOnAll word progress letters with
            | .error fault => .error fault
            | .ok (.settled request) => .ok request
            | .ok (.proceed after) => parse after rest
        | .long name value =>
            if name = depthOption then
              match value with
              | some depth =>
                  match setDepth progress depth with
                  | .error fault => .error fault
                  | .ok after => parse after rest
              | none =>
                  match rest with
                  | [] => .error .missingDepth
                  | depth :: others =>
                      match setDepth progress depth with
                      | .error fault => .error fault
                      | .ok after => parse after others
            else
              match longSwitch word name value progress with
              | .error fault => .error fault
              | .ok (.settled request) => .ok request
              | .ok (.proceed after) => parse after rest

/-- The request that the words of a command line make. -/
def request (words : List String) : Except UsageFault Request :=
  parse {} words

/-- What a run of the program comes to. -/
structure Outcome where
  exitCode : Nat
  output : String := ""
  diagnostics : String := ""

def versionText : String :=
  "sgl 0.1.0\n"

def helpText : String :=
  "Usage: sgl [OPTIONS] <CONTENTS> [ARGS]...\n\n" ++
    "  -f, --file               look at a file instead of a script\n" ++
    "  -t, --tree               print the parsed program as a tree before running it\n" ++
    "      --max-scope-depth N  maximum number of nested scopes before the run fails\n" ++
    "      --close-scopes       close a block's scope when it is left early\n" ++
    "  -h, --help               print help\n" ++
    "  -V, --version            print version\n"

def unreadable (path : String) : Outcome :=
  { exitCode := 1
    diagnostics :=
      "Failed to read the input file '" ++ path ++ "'. Perhaps this file does not exist?\n" }

/-- Runs a script.  The values after it are queued as texts, and the outline, if asked for,
is printed before the script runs. -/
def perform (invocation : Invocation) (source : String) : Outcome :=
  let registry : Registry := { queue := invocation.values.map Value.text }
  match compile registry.library source ⟨registry.queue, .empty⟩ with
  | .error fault _ => { exitCode := 1, diagnostics := fault.message ++ "\n" }
  | .ok program arguments =>
      let outline := if invocation.tree then program.outline arguments.heap else ""
      let machine := Machine.start invocation.config { heap := arguments.heap }
      match Machine.run ⟨registry.library, invocation.config⟩ program machine with
      | .ok _ after => { exitCode := 0, output := outline ++ after.world.sink.output }
      | .error fault after =>
          { exitCode := 1
            output := outline ++ after.world.sink.output
            diagnostics := fault.message ++ "\n" }

/-- Answers a command line, given the text of every readable file. -/
def answer (file : String → Option String) (words : List String) : Outcome :=
  match request words with
  | .error fault => { exitCode := 2, diagnostics := "error: " ++ fault.message ++ "\n" }
  | .ok .version => { exitCode := 0, output := versionText }
  | .ok .help => { exitCode := 0, output := helpText }
  | .ok (.run invocation) =>
      if invocation.fromFile then
        match file invocation.contents with
        | some source => perform invocation source
        | none => unreadable invocation.contents
      else perform invocation invocation.contents

end CommandLine
end Scriptlet
