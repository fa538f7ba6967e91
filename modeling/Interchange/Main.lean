import Interchange.Command.Run

/-!
# The command

Reads what the command needs from the disk, runs it, and prints its report. The exit code is 0 if
the project compiles, 1 if it does not, and 2 if the command line cannot be understood.

* `readFiles`: the files and directories that a run looks at.
* `main`: the command itself.
-/

namespace Interchange.Command

open Source (Files Node ReadFault)

/-- The place of a path on the disk. -/
def location (path : String) := (· / path) <$> IO.currentDir

/-- Reads a file, or a directory with all that is below it. An entry that cannot be read is left
out. -/
partial def readNode (path : String) : IO Node := do
  let place ← location path
  if ← place.isDir then
    let entries ← place.readDir
    let nodes ← entries.toList.filterMapM fun entry => do
      try
        return some (entry.fileName, ← readNode (Source.joinPath path entry.fileName))
      catch _ => return none
    return .directory nodes
  else
    return .file (← IO.FS.readBinFile place).toList

/-- What stands at a path on the disk. -/
def lookOnDisk (path : String) : IO (Except ReadFault Node) := do
  if let some fault := Source.pathFault? path then return .error fault
  try
    return .ok (← readNode path)
  catch
    | .noFileOrDirectory .. => return .error .notFound
    | .inappropriateType .. => return .error .notDirectory
    | error => throw error

/-- The files and directories that a run looks at. -/
def readFiles (arguments : Arguments) : IO Files := do
  let root ← lookOnDisk arguments.root
  let path := arguments.settings.getD (Source.joinPath arguments.root settingsFile)
  let settings ← lookOnDisk path
  return fun asked =>
    if asked = arguments.root then root
    else if asked = path then settings
    else .error .notFound

/-- How the command is used. -/
def usageText : String :=
  "Usage: kestrel [OPTIONS] <ROOT>\n\n" ++
  "Arguments:\n" ++
  "  <ROOT>  Root directory of the .ks sources\n\n" ++
  "Options:\n" ++
  "      --settings <SETTINGS>                " ++
  "Settings file to use instead of kestrel.yaml in the root\n" ++
  "      --name <NAME>                        Project name, overriding the settings\n" ++
  "      --project-version <PROJECT_VERSION>  " ++
  "Project version (MAJOR.MINOR.PATCH[-pre]), overriding the settings\n" ++
  "      --log-level <LOG_LEVEL>              Log filter\n" ++
  "      --format <FORMAT>                    [default: text] [possible values: text, json]\n" ++
  "  -h, --help                               Print help\n" ++
  "  -V, --version                            Print version\n"

/-- The version of the command. -/
def versionText : String := "kestrel 0.1.0\n"

/-- Answers a command line that asks for no run. -/
def answerUsage : Usage → IO UInt32
  | .help => do
    IO.print usageText
    return 0
  | .version => do
    IO.print versionText
    return 0
  | _ => do
    IO.eprint usageText
    return 2

/-- Runs the command on the disk and prints what it reports. -/
def execute (arguments : Arguments) : IO UInt32 := do
  match run (← readFiles arguments) arguments with
  | .error error =>
    IO.eprintln ("error: " ++ error.message)
    return 1
  | .ok report =>
    IO.print report.output
    IO.eprint report.errors
    return if report.success then 0 else 1

end Interchange.Command

def main (words : List String) : IO UInt32 :=
  match Interchange.Command.Arguments.parse words with
  | .error usage => Interchange.Command.answerUsage usage
  | .ok arguments => Interchange.Command.execute arguments
