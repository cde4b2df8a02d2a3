import KernelTree.CommandLine.Command
/-! The program: commands on the files of the machine. -/
namespace KernelTree

def FileError.ofSystem : IO.Error → FileError
  | .noFileOrDirectory .. => .notFound
  | .alreadyExists .. => .alreadyExists
  | .inappropriateType _ code _ => if code = 20 then .notADirectory else .isADirectory
  | e => .other (toString e)

/-- Does something to a file, which may fail. -/
def attempt (act : IO α) : IO (Except FileError α) := do
  return (← act.toBaseIO).mapError .ofSystem

instance : Files IO where
  read path := do
    let contents ← attempt (IO.FS.readBinFile path)
    return contents.bind fun bytes => (String.fromUTF8? bytes).elim (.error .notText) .ok
  createDirectories path := attempt (IO.FS.createDirAll path)
  write path text := attempt (IO.FS.writeFile path text)

end KernelTree

open KernelTree in
def main (words : List String) : IO UInt32 := do
  let outcome ← CommandLine.run words
  IO.print outcome.output
  for remark in outcome.remarks do
    for line in remark.lines do IO.eprintln line
  return outcome.status.toUInt32
