import TeachPendant.CommandLine.Session

namespace TeachPendant

/-- Adds what is found at a place. -/
def lookAt (f : Files) (p : Place) : IO Files := do
  let found ← (some <$> IO.FS.realPath (Path.ofPlace p)) <|> pure none
  match found with
  | none => pure f
  | some path =>
    if ← path.isDir then pure (f.put p .directory)
    else
      let bytes ← (some <$> IO.FS.readBinFile path) <|> pure none
      match bytes with
      | none => pure f
      | some bytes =>
        match String.fromUTF8? bytes with
        | some s => pure (f.put p (.file (.text s)))
        | none => pure (f.put p (.file (.bytes bytes.toList)))

/-- Adds what is found at a path, with the directories above it. -/
def lookAlong (f : Files) (path : String) : IO Files :=
  let p := Path.place path
  (List.range p.length).foldlM (fun f i => lookAt f (p.take (i + 1))) f

/-- Adds the log of a directory. -/
def lookAtLog (f : Files) (directory : String) : IO Files := do
  let f ← lookAlong f (Path.join directory LogFile.liveName)
  (List.range (Limit.keepFiles.greatest + 1)).foldlM
    (fun f i => lookAt f (Path.place directory ++ [LogFile.archiveName (i + 1)])) f

/-- The paths that a command names. -/
def CommandLine.Command.paths : CommandLine.Command → List String
  | .demo output => [output]
  | .run cell _ => [cell]
  | .inspect cell => [cell]
  | .exportJson cell output => cell :: output.toList

/-- The files that a call may touch. -/
def gather (home : String) (i : CommandLine.Invocation) : IO Files := do
  let config := i.config.getD (Path.join home "pendant/config.toml")
  let f ← lookAlong {} config
  let f ← lookAlong f (Settings.backupPath config)
  let f ← i.command.paths.foldlM lookAlong f
  let configured := match Settings.load config f with
    | .ok (s, _) => s.logging.directory.toList
    | .error _ => []
  (Path.join home "pendant/logs" :: configured ++ i.logDirectory.toList).foldlM lookAtLog f

/-- Writes down the difference between two trees. -/
def commit (before after : Files) : IO Unit := do
  for (p, n) in after.nodes do
    if before.node? p ≠ some n then
      match n with
      | .directory => IO.FS.createDirAll (Path.ofPlace p)
      | .file content =>
        IO.FS.writeBinFile (Path.ofPlace p) (ByteArray.mk content.toBytes.toArray)
  for (p, _) in before.nodes do
    if !after.contains p then IO.FS.removeFile (Path.ofPlace p)

/-- The directory of settings. -/
def settingsHome : IO String := do
  match ← IO.getEnv "XDG_CONFIG_HOME" with
  | some home => if home.startsWith "/" then return home
  | none => pure ()
  return Path.join ((← IO.getEnv "HOME").getD ".") ".config"

end TeachPendant

open TeachPendant in
def main (args : List String) : IO UInt32 := do
  let home ← settingsHome
  let files ← match CommandLine.parse args with
    | .ok i => gather home i
    | .error _ => pure {}
  let outcome := CommandLine.call home files args
  commit files outcome.files
  IO.print outcome.printed
  IO.eprint outcome.complained
  return outcome.code
