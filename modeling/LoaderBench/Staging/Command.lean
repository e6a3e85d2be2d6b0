import LoaderBench.Staging.Failure
import LoaderBench.Staging.World

/-!
# Build commands

A command is a program with its arguments, a working directory, and variables that it sets on top of
the environment it inherits. Of two settings of one variable the later counts.
-/

namespace LoaderBench.Staging

open LoaderBench.FileTree LoaderBench.Platform LoaderBench.Text

def programVariable : String := "CARGO"

def defaultProgram : String := "cargo"

structure Command where
  program : Bytes
  arguments : List String
  settings : List (String × Bytes)
  directory : Path
  deriving DecidableEq

namespace Command

/-! ### Building a command -/

/-- A command of the build program, with its first argument. -/
def new (environment : Environment) (directory : Path) (subcommand : String) : Command where
  program := (environment.named? programVariable).getD (Utf8.encode defaultProgram)
  arguments := [subcommand]
  settings := []
  directory := directory

def arg (command : Command) (argument : String) : Command :=
  { command with arguments := command.arguments ++ [argument] }

def args (command : Command) (arguments : List String) : Command :=
  { command with arguments := command.arguments ++ arguments }

/-- The command for the release profile, if that is wanted. -/
def release (command : Command) (wanted : Bool) : Command :=
  if wanted then command.arg "--release" else command

def env (command : Command) (key : String) (value : Bytes) : Command :=
  { command with settings := command.settings ++ [(key, value)] }

/-- The value to which the command sets a variable. -/
def env? (command : Command) (key : String) : Option Bytes :=
  command.settings.reverse.lookup key

def text (command : Command) : String :=
  Utf8.lossy command.program ++ " " ++ " ".intercalate command.arguments

/-! ### Running a command -/

/-- The environment of the program that a command runs. -/
def environment (command : Command) (inherited : Environment) : Environment :=
  inherited.setAll (command.settings.map fun s => (Utf8.encode s.1, s.2))

/-- Whether a command can be handed over: no part of it may have a NUL byte. -/
def isPlain (command : Command) (inherited : Environment) : Bool :=
  !command.program.contains 0 && !command.arguments.any (·.toList.contains '\x00') &&
    !command.directory.contains 0 &&
    !(command.environment inherited).pairs.any fun p => p.1.contains 0 || p.2.contains 0

/-- How a command's end is told where it is no success. -/
def statusText : Ending → String
  | .exited status => String.ofList (digits status.toNat)
  | .killed => "terminated"

/-- Runs a command. It is shown before it is run. -/
def run (command : Command) (world : World) : Except Failure Unit × World :=
  let world := world.complain ("harness: " ++ command.text)
  if command.isPlain world.environment then
    match world.run command.program command.arguments command.directory
        (command.environment world.environment) with
    | (.error e, world) => (.error (.spawn (Utf8.lossy command.program) e), world)
    | (.ok ending, world) =>
      if ending = .exited 0 then (.ok (), world)
      else (.error (.commandFailed command.text (statusText ending)), world)
  else (.error (.spawn (Utf8.lossy command.program) .nulInCommand), world)

end Command
end LoaderBench.Staging
