import InDoubt.Inspect

/-!
The inspection program. It takes a picture of the recovery directory, its regular files with their
contents, and leaves the rest to `Inspect.inspect`.
-/

namespace InDoubt.Inspect

/-- The picture with one more file. -/
def withFile (fs : FileSystem) (path : String) (bytes : Bytes) : FileSystem :=
  match fs.write (Utf8.encode path) bytes with
  | .ok after => after
  | .error _ => fs

/-- The regular files of the recovery directory under a base directory, at the paths that name
them. What cannot be listed is pictured as a file, and what does not exist not at all. -/
def pictureOf (baseDir : String) : IO FileSystem := do
  let dir := recoveryDir baseDir
  match ← ((← IO.currentDir).join dir).readDir.toBaseIO with
  | .ok entries =>
      entries.foldlM (fun fs entry => do
        if (← entry.path.symlinkMetadata).type == .file then
          let bytes ← IO.FS.readBinFile entry.path
          return withFile fs (joinPath dir entry.fileName) bytes.data.toList
        else return fs) (FileSystem.empty.makeDirectories (Utf8.encode dir)).2
  | .error (.noFileOrDirectory ..) => return .empty
  | .error _ =>
      return withFile (FileSystem.empty.makeDirectories (Utf8.encode baseDir)).2 dir []

end InDoubt.Inspect

def main (args : List String) : IO UInt32 := do
  let files ← match InDoubt.Inspect.request args with
    | .run baseDir _ => InDoubt.Inspect.pictureOf baseDir
    | _ => pure .empty
  let report := InDoubt.Inspect.inspect files args
  (← IO.getStdout).putStr report.output
  return report.exitCode.toUInt32
