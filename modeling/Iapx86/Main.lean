import Iapx86.FileTree
import Iapx86.Listing.CommandLine

/-!
# The disassembler

Reads the file that the command line names, and prints what `CommandLine.disassemble` makes of it.
-/

namespace Iapx86

namespace CommandLine

/-- Reads a file, or says why it cannot be read. -/
def readInput (path : String) : IO (Except String (List UInt8)) := do
  try
    let contents ← IO.FS.readBinFile path
    return .ok contents.toList
  catch
    | .noFileOrDirectory .. => return .error FileError.notFound.message
    | e => return .error (toString e)

/-- Prints what a program leaves behind. -/
def Output.print (output : Output) : IO UInt32 := do
  for line in output.lines do
    IO.println line
  for line in output.errors do
    IO.eprintln line
  return output.status.toUInt32

end CommandLine

end Iapx86

open Iapx86.CommandLine in
/-- Disassembles the file that the arguments name. -/
def main (arguments : List String) : IO UInt32 := do
  match Arguments.ofList arguments with
  | .error e => (refusalOutput e.message).print
  | .ok a =>
      match a.options with
      | .error e => (refusalOutput e.message).print
      | .ok o => do (disassemble o (← readInput o.input)).print
