import GraphqlCrud.Text.Basic
/-!
The words of a command line. A command is followed by its settings: flags, and settings that take a
value, which follows as the next word or stands in the same word. Nothing else is understood.
-/
namespace GraphqlCrud.Command

inductive Setting where
  | schema
  | config
  | output
  | dryRun
  | visualize
  | verbose
deriving Repr, DecidableEq

namespace Setting

def longName : Setting → String
  | .schema => "schema"
  | .config => "config"
  | .output => "output"
  | .dryRun => "dry-run"
  | .visualize => "visualize"
  | .verbose => "verbose"

def letter? : Setting → Option Char
  | .schema => some 's'
  | .config => some 'c'
  | .output => some 'o'
  | .dryRun | .visualize => none
  | .verbose => some 'v'

def takesValue : Setting → Bool
  | .schema | .config | .output => true
  | .dryRun | .visualize | .verbose => false

end Setting

inductive CommandName where
  | check
  | generate
  | clean
deriving Repr, DecidableEq

namespace CommandName

def all : List CommandName := [.check, .generate, .clean]

def word : CommandName → String
  | .check => "check"
  | .generate => "generate"
  | .clean => "clean"

def settings : CommandName → List Setting
  | .check => [.schema, .config, .verbose]
  | .generate => [.schema, .config, .output, .dryRun, .visualize, .verbose]
  | .clean => [.schema, .config, .output, .dryRun, .verbose]

end CommandName

/-- Settings with their values; flags have none. -/
abbrev Given := List (Setting × Option String)

/-- What a word says: settings, the last of which may still lack its value. -/
structure Reading where
  given : Given := []
  awaiting : Option Setting := none
deriving Repr, DecidableEq

/-- A setting with the value in its word. Values are not empty, and flags have none. -/
def valued? (s : Setting) (value : List Char) : Option Reading :=
  if s.takesValue && !value.isEmpty then
    some { given := [(s, some (String.ofList value))] }
  else none

def bare (s : Setting) : Reading :=
  if s.takesValue then { awaiting := some s } else { given := [(s, none)] }

def readLong? (known : List Setting) (word : List Char) : Option Reading :=
  match Text.cut? ['='] word with
  | some (name, value) => do
    let s ← known.find? (·.longName.toList == name)
    valued? s value
  | none => (known.find? (·.longName.toList == word)).map bare

/-- The letters after one dash. A letter that takes a value has the rest of the word as its value,
which may be set off by an equals sign. -/
def readLetters? (known : List Setting) : List Char → Option Reading
  | [] => some {}
  | c :: rest => do
    let s ← known.find? (·.letter? == some c)
    if s.takesValue then
      match rest with
      | [] => some (bare s)
      | '=' :: value => valued? s value
      | value => valued? s value
    else
      let more ← readLetters? known rest
      some { more with given := (s, none) :: more.given }

def readWord? (known : List Setting) (word : String) : Option Reading :=
  match word.toList with
  | '-' :: '-' :: long => readLong? known long
  | '-' :: c :: letters => readLetters? known (c :: letters)
  | _ => none

def canBeValue (word : String) : Bool :=
  word != "" && (word == "-" || !Text.begins "-" word)

/-- The settings in words, the first of which may be the value that a setting awaits. Two dashes end
the settings, and nothing follows them. -/
def readSettings? (known : List Setting) (awaiting : Option Setting) :
    List String → Option Given
  | [] => if awaiting.isNone then some [] else none
  | word :: rest =>
    match awaiting with
    | some s => do
      guard (canBeValue word)
      return (s, some word) :: (← readSettings? known none rest)
    | none =>
      if word = "--" then
        if rest.isEmpty then some [] else none
      else do
        let reading ← readWord? known word
        return reading.given ++ (← readSettings? known reading.awaiting rest)

def areDistinct (given : Given) : Bool := decide (given.map (·.1)).Nodup

structure Request where
  command : CommandName
  given : Given
deriving Repr, DecidableEq

namespace Request

def value? (r : Request) (s : Setting) : Option String := (r.given.lookup s).join

def has (r : Request) (s : Setting) : Bool := (r.given.lookup s).isSome

end Request

def leadingSettings : List Setting := [.verbose]

def readAfter? (leading : Given) : List String → Option Request
  | [] => none
  | word :: rest =>
    match CommandName.all.find? (·.word == word) with
    | some command => do
      let given ← readSettings? command.settings none rest
      if areDistinct leading && areDistinct given then
        return { command, given := leading ++ given }
      else none
    | none => do
      let reading ← readWord? leadingSettings word
      readAfter? (leading ++ reading.given) rest

def Request.read? (words : List String) : Option Request := readAfter? [] words

end GraphqlCrud.Command
