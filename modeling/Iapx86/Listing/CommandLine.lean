import Iapx86.Listing.Program
import Iapx86.Text.Command

/-!
# The command line of the disassembler

How the arguments on a command line are taken apart, and what is said of those that are refused.
This is the outer layer of the program, and it does by itself what is commonly left to a library for
command lines. What is listed depends on it only through the `Arguments` that it comes to.
-/

namespace Iapx86

namespace CommandLine

/-- An argument as it is repeated in messages: whatever it holds, it commands nothing to the
terminal. -/
def printable (argument : String) : String :=
  String.ofList (Text.withoutCommands argument.toList)

/-- What is said of an option that is refused. -/
def Refusal.message : Refusal → String
  | model value cause => invalid value "--model <MODEL>" cause.message
  | chunkSize value cause => invalid value "--chunk-size <BYTES>" cause.message
  | origin value cause => invalid value "--origin <ADDR>" cause.message
where
  /-- A value, the option that it is for, and the reason. -/
  invalid (value option reason : String) : String :=
    "error: invalid value '" ++ printable value ++ "' for '" ++ option ++ "': " ++ reason

/-- Why the arguments are not understood. -/
inductive UsageError where
  | unexpected (argument : String)
  | missingValue (option : String)
  | repeated (option : String)
  | missingInput
  deriving DecidableEq, Repr

/-- What is said of arguments that are not understood. -/
def UsageError.message : UsageError → String
  | unexpected argument => "error: unexpected argument '" ++ printable argument ++ "' found"
  | missingValue option =>
      "error: a value is required for '" ++ option ++ "' but none was supplied"
  | repeated option => "error: the argument '" ++ option ++ "' cannot be used multiple times"
  | missingInput => "error: the following required arguments were not provided: <INPUT>"

/-- The name of an option, and the value that an equals sign gives it. -/
def splitOption (argument : String) : String × Option String :=
  match argument.toList.span (· ≠ '=') with
  | (name, _ :: value) => (String.ofList name, some (String.ofList value))
  | (_, []) => (argument, none)

/-- Sets an option that may be given once. -/
def setOnce (name : String) (present : Option String) (value : String) :
    Except UsageError (Option String) :=
  if present.isSome then .error (.repeated name) else .ok (some value)

namespace Arguments

/-- Gives an option its value. -/
def set (a : Arguments) (name value : String) : Except UsageError Arguments :=
  match name with
  | "--model" => (setOnce name a.model value).map ({ a with model := · })
  | "--chunk-size" => (setOnce name a.chunkSize value).map ({ a with chunkSize := · })
  | "--origin" => (setOnce name a.origin value).map ({ a with origin := · })
  | _ => .error (.unexpected name)

/-- Whether an option of this name takes a value. -/
def takesValue (name : String) : Bool := name ∈ ["--model", "--chunk-size", "--origin"]

/-- Takes in the remaining arguments, when the input has been named or not. -/
def read (a : Arguments) (named : Bool) : List String → Except UsageError Arguments
  | [] => if named then .ok a else .error .missingInput
  | argument :: rest =>
      if argument = "--json" then
        if a.json then .error (.repeated argument) else read { a with json := true } named rest
      else if argument.toList.head? = some '-' ∧ argument ≠ "-" then
        match splitOption argument, rest with
        | (name, some value), rest => (a.set name value).bind fun a => a.read named rest
        | (name, none), value :: rest =>
            if takesValue name then (a.set name value).bind fun a => a.read named rest
            else .error (.unexpected name)
        | (name, none), [] =>
            .error (if takesValue name then .missingValue name else .unexpected name)
      else if named then .error (.unexpected argument)
      else read { a with input := argument } true rest

/-- Reads the arguments on a command line: the input, and options before and after it. -/
def ofList (arguments : List String) : Except UsageError Arguments :=
  read { input := "" } false arguments

end Arguments

/-- What is printed when the arguments are refused. -/
def refusalOutput (message : String) : Output :=
  { status := 2, errors := [message, "", "For more information, try '--help'."] }

end CommandLine

end Iapx86
