import Chip8.CommandLine.Decimal

/-!
# Requests of the command line

Arguments are read from left to right.  A request for help or for the version takes
effect where it is reached, and so does an error.  Everything else is gathered until
the arguments end.
-/

namespace Chip8

structure RunOptions where
  path : String
  rate : UInt32 := 700
  indexOverflowSetsFlag : Bool := false
  seed : Option UInt64 := none
deriving DecidableEq

inductive Request where
  | run (options : RunOptions)
  | shortHelp
  | longHelp
  | version
deriving DecidableEq

inductive UsageError where
  | missingProgram
  | emptyProgram
  | unexpectedArgument (argument : String)
  | missingValue (option : String)
  | invalidValue (option value : String)
  | needlessValue (option value : String)
  | repeated (option : String)
deriving DecidableEq

namespace UsageError

def message : UsageError → String
  | .missingProgram => "the path to a program is missing"
  | .emptyProgram => "the path to the program is empty"
  | .unexpectedArgument argument => "unexpected argument '" ++ argument ++ "'"
  | .missingValue option => "a value is missing for '" ++ option ++ "'"
  | .invalidValue option value => "invalid value '" ++ value ++ "' for '" ++ option ++ "'"
  | .needlessValue option value =>
      "unexpected value '" ++ value ++ "' for '" ++ option ++ "'"
  | .repeated option => "'" ++ option ++ "' is given more than once"

end UsageError

namespace CommandLine

/-- One argument before its role is known. -/
inductive Token where
  /-- The mark after which no options follow. -/
  | separator
  | long (name : String) (value : Option String)
  /-- A cluster of short options, of which the first one decides. -/
  | short (first : Char) (rest : List Char)
  | positional (text : String)
deriving DecidableEq

/-- The name before the first equals sign, and the value after it. -/
def splitValue : List Char → List Char × Option (List Char)
  | [] => ([], none)
  | '=' :: value => ([], some value)
  | c :: rest =>
      let (name, value) := splitValue rest
      (c :: name, value)

def Token.ofArgument (argument : String) : Token :=
  match argument.toList with
  | ['-', '-'] => .separator
  | '-' :: '-' :: rest =>
      let (name, value) := splitValue rest
      .long (String.ofList name) (value.map String.ofList)
  | '-' :: first :: rest => .short first rest
  | _ => .positional argument

/-- Whether an argument may be the value of the option before it. -/
def isValue (argument : String) : Bool :=
  match Token.ofArgument argument with
  | .positional _ => true
  | _ => false

structure Draft where
  path : Option String := none
  rate : Option UInt32 := none
  indexOverflowSetsFlag : Bool := false
  seed : Option UInt64 := none

namespace Draft

def addPath (draft : Draft) (path : String) : Except UsageError Draft :=
  match draft.path with
  | some _ => .error (.unexpectedArgument path)
  | none => if path = "" then .error .emptyProgram else .ok { draft with path := some path }

def addRate (draft : Draft) (value : String) : Except UsageError Draft :=
  match draft.rate, Decimal.bounded? 0xFFFFFFFF value with
  | some _, _ => .error (.repeated "--ips")
  | none, none => .error (.invalidValue "--ips" value)
  | none, some rate => .ok { draft with rate := some (UInt32.ofNat rate) }

def addSeed (draft : Draft) (value : String) : Except UsageError Draft :=
  match draft.seed, Decimal.boundedUnsigned? 0xFFFFFFFFFFFFFFFF value with
  | some _, _ => .error (.repeated "--seed")
  | none, none => .error (.invalidValue "--seed" value)
  | none, some seed => .ok { draft with seed := some (UInt64.ofNat seed) }

def addIndexOverflow (draft : Draft) : Except UsageError Draft :=
  if draft.indexOverflowSetsFlag then .error (.repeated "--index-overflow-sets-vf")
  else .ok { draft with indexOverflowSetsFlag := true }

def finish (draft : Draft) : Except UsageError Request :=
  match draft.path with
  | none => .error .missingProgram
  | some path =>
      .ok (.run
        { path
          rate := draft.rate.getD 700
          indexOverflowSetsFlag := draft.indexOverflowSetsFlag
          seed := draft.seed })

/-- Reads arguments that are all positional. -/
def readPositionals (draft : Draft) : List String → Except UsageError Request
  | [] => draft.finish
  | argument :: rest =>
      match draft.addPath argument with
      | .ok draft => draft.readPositionals rest
      | .error error => .error error

end Draft

/-- How an option with a value extends a draft. -/
def valueOption? (name : String) :
    Option (Draft → String → Except UsageError Draft) :=
  if name = "ips" then some Draft.addRate
  else if name = "seed" then some Draft.addSeed
  else none

/-- What an option without a value does: it extends the draft or is a request. -/
def plainOption? (name : String) : Option (Draft → Except UsageError (Draft ⊕ Request)) :=
  if name = "index-overflow-sets-vf" then
    some (fun draft ↦ draft.addIndexOverflow.map Sum.inl)
  else if name = "help" then some (fun _ ↦ .ok (.inr .longHelp))
  else if name = "version" then some (fun _ ↦ .ok (.inr .version))
  else none

def shortOption? (c : Char) : Option Request :=
  if c = 'h' then some .shortHelp else if c = 'V' then some .version else none

def readFrom (draft : Draft) : List String → Except UsageError Request
  | [] => draft.finish
  | argument :: rest =>
      match Token.ofArgument argument with
      | .separator => draft.readPositionals rest
      | .positional path =>
          match draft.addPath path with
          | .ok draft => readFrom draft rest
          | .error error => .error error
      | .short first _ =>
          match shortOption? first with
          | some request => .ok request
          | none => .error (.unexpectedArgument argument)
      | .long name value =>
          match valueOption? name, plainOption? name, value, rest with
          | some extend, _, some value, rest =>
              match extend draft value with
              | .ok draft => readFrom draft rest
              | .error error => .error error
          | some extend, _, none, value :: rest =>
              if isValue value then
                match extend draft value with
                | .ok draft => readFrom draft rest
                | .error error => .error error
              else .error (.missingValue argument)
          | some _, _, none, [] => .error (.missingValue argument)
          | none, some _, some value, _ => .error (.needlessValue argument value)
          | none, some extend, none, rest =>
              match extend draft with
              | .ok (.inl draft) => readFrom draft rest
              | .ok (.inr request) => .ok request
              | .error error => .error error
          | none, none, _, _ => .error (.unexpectedArgument argument)

def parse (arguments : List String) : Except UsageError Request := readFrom {} arguments

end CommandLine
end Chip8
