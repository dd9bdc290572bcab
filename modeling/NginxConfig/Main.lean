import NginxConfig.Cli

/-!
# The program
-/

namespace NginxConfig.Cli

def fileError : IO.Error → FileError
  | .noFileOrDirectory .. => .notFound
  | .inappropriateType _ 21 _ => .isADirectory
  | .inappropriateType .. => .notADirectory
  | .otherError 21 _ => .isADirectory
  | .otherError 20 _ => .notADirectory
  | e => .other (toString e)

def diskFiles : Files IO where
  read path := do
    try return .ok (← IO.FS.readBinFile path)
    catch e => return .error (fileError e)
  write path content := do
    try
      IO.FS.writeFile path content
      return .ok ()
    catch e => return .error (fileError e)

/-- The number of processors of the machine, or one if it does not tell. -/
def processors : IO Nat := do
  try
    let info ← IO.FS.readFile "/proc/cpuinfo"
    return max 1 ((info.splitOn "\n").countP fun line => line.startsWith "processor")
  catch _ => return 1

end NginxConfig.Cli

open NginxConfig.Cli in
def main (args : List String) : IO UInt32 := do
  let result ← run diskFiles (← processors) args
  IO.print result.output
  match result.failure with
  | some failure => IO.eprint failure.text
  | none => if result.status = 2 then IO.eprint usage
  return result.status.toUInt32
