import ProjectIndex.CommandLine.Run
import ProjectIndex.Engine.Snapshot

/-!
The program. What a command needs is read from the disk into a workspace, the command runs on it, and
the caches it leaves are written back.
-/
namespace ProjectIndex.Disk

def readBytes (path : String) : IO (List UInt8) := do
  try
    return (← IO.FS.readBinFile path).toList
  catch _ => return []

/-- A directory with everything in it. Only files of a known type are read, and directories that are
skipped in every project are left out. A link leads to its real place. -/
partial def readDir (path : String) : IO Entry := do
  let mut entries : List (Name × Entry) := []
  for e in ← (← IO.FS.realPath path).readDir do
    let below := path ++ "/" ++ e.fileName
    let entry ← match (← e.path.symlinkMetadata).type with
      | .dir =>
        if defaultSkipNames.contains e.fileName then pure (Entry.dir []) else readDir below
      | .symlink => do
        let there ← try pure (← IO.FS.realPath below).toString catch _ => pure ""
        pure (Entry.link (Path.ofString there))
      | _ =>
        if (FileType.ofPath? (Path.ofString below)).isSome || e.fileName == ".loupe.yaml" then
          pure (Entry.file (← readBytes below))
        else pure (Entry.file [])
    entries := (e.fileName.toList, entry) :: entries
  return .dir entries

def addTo (files : FileTree) (path : Path) : IO FileTree := do
  try
    match (← (← IO.FS.realPath path.toString).metadata).type with
    | .dir =>
      return { files with root := files.root.put (files.placeOf path) (← readDir path.toString) }
    | _ => return files.write path (← readBytes path.toString)
  catch _ => return files

def addWithAncestors (files : FileTree) (path : Path) : IO FileTree := do
  try
    let real := Path.ofString (← IO.FS.realPath path.toString).toString
    let mut files := files
    for dir in real.ancestors do
      for name in ["composer.json", "manifest.xml"] do
        files ← addTo files (dir.join (Path.ofString name))
    files ← addTo files real
    return if (files.canonical? path).toOption == some real then files else files.makeLink path real
  catch _ => return files

def cacheFiles (dir : Path) : IO CacheFiles := do
  try
    let mut files : CacheFiles := []
    for e in ← (← IO.FS.realPath dir.toString).readDir do
      if (← e.path.metadata).type == .file then
        files := (e.fileName, ← readBytes e.path.toString) :: files
    return files
  catch _ => return []

def writeCache (dir : Path) (cache : Cache) : IO Unit := do
  IO.FS.createDirAll dir.toString
  let old ← cacheFiles dir
  let new := cache.toFiles
  for (name, _) in old do
    unless (new.lookup name).isSome do IO.FS.removeFile (dir.toString ++ "/" ++ name)
  for (name, bytes) in new do
    unless old.lookup name == some bytes do
      IO.FS.writeBinFile (dir.toString ++ "/" ++ name) ⟨bytes.toArray⟩

def now (dir : Path) : IO Timestamp := do
  try
    let stamp := dir.toString ++ "/stamp"
    IO.FS.createDirAll dir.toString
    IO.FS.writeBinFile stamp ⟨#[]⟩
    let written := (← (← IO.FS.realPath stamp).metadata).modified
    IO.FS.removeFile stamp
    return ⟨written.sec, written.nsec.toNat⟩
  catch _ => return ⟨0, 0⟩

def userDir (name fallback : String) : IO Path := do
  let home := Path.ofString ((← IO.getEnv "HOME").getD "/")
  let given := (← IO.getEnv name).map Path.ofString
  return (given.filter Path.isAbsolute).getD (home.join (Path.ofString fallback))

def environment : IO (List (String × String)) := do
  let mut env := []
  for name in ["LOUPE_LOG", "LOUPE_CACHE_DIR"] do
    if let some value ← IO.getEnv name then env := (name, value) :: env
  return env

def workspace (project : Path) (command : CommandLine.Command) (env : List (String × String)) :
    IO Workspace := do
  let start : Workspace :=
    { files := .empty
      caches := []
      workingDir := Path.ofString (← IO.currentDir).toString
      configDir := ← userDir "XDG_CONFIG_HOME" ".config"
      cacheHome := ← userDir "XDG_CACHE_HOME" ".cache"
      now := ⟨0, 0⟩ }
  let mut files ← addTo .empty (start.configDir.join (Path.ofString "loupe/config.yaml"))
  files ← addWithAncestors files (start.absolute project)
  if let .drift template := command then
    files ← addWithAncestors files (start.absolute template)
  let w := { start with files }
  match files.canonical? (w.absolute project) with
  | .error _ => return w
  | .ok root =>
    let dir := w.cacheDir (w.settings project env) root
    return { w with caches := [(dir, .ofFiles (← cacheFiles dir))], now := ← now dir }

end ProjectIndex.Disk

open ProjectIndex in
def main (args : List String) : IO UInt32 := do
  let env ← Disk.environment
  let w ← match CommandLine.request? args with
    | some (.run project command) => Disk.workspace project command env
    | _ => pure default
  let start ← IO.monoMsNow
  let (w, output) := CommandLine.run w args env
  for (dir, cache) in w.caches do Disk.writeCache dir cache
  let output := output ((← IO.monoMsNow) - start)
  IO.print output.out
  IO.eprint output.err
  return output.code.toUInt32
