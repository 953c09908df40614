import EtranProcessing.Deployment.PlanFields
import EtranProcessing.Library.Calls
import EtranProcessing.Library.FileTree

namespace EtranProcessing.Deployment.Release

open Library.Segments Library.FileTree Library.Calls Paths Descriptors PlanFields

abbrev Node := Tree Wide Bytes

structure Disk where
  tree : Node
  formed : WellFormed (List.map lower) (slash ∉ ·) tree

def Disk.lookup (d : Disk) (path : Wide) : Option Node := d.tree.find (List.map lower) (key slash lower path)

def Disk.put (d : Disk) (path : Wide) (node : Option Node)
    (h : ∀ t ∈ node, WellFormed (List.map lower) (slash ∉ ·) t) : Disk where
  tree := d.tree.alter (List.map lower) (fun _ => node) (path.splitOn slash)
  formed := d.formed.alter (not_mem_splitOn path) fun _ _ => h

def isDirectory : Option Node → Bool
  | some (.directory _) => true
  | _ => false

structure World where
  disk : Disk
  faults : List Bool

def os : Call World Unit := fun w =>
  match w.faults with
  | true :: rest => (none, { w with faults := rest })
  | false :: rest => (some (), { w with faults := rest })
  | [] => (some (), w)

structure ReleaseFile where
  component : Wide
  file : Wide
  size : Nat
  sha256 : Block 32

/-- What the archive reader says of an entry, and what it unpacks from it. -/
structure ArchiveEntry where
  filename : Bytes
  isEncrypted : Bool
  isSupported : Bool
  isDirectory : Bool
  compSize : Nat
  uncompSize : Nat
  extracted : Option Bytes

structure Platform extends System where
  sha256 : Bytes → Block 32
  multiByteToWideChar : Bytes → Option Wide
  readArchive : Bytes → Option (List ArchiveEntry)

structure Guid where
  text : Wide
  size : text.length = 38

abbrev Admission := Wide → Bytes → Bool

def layoutValid (sys : System) (layout : Layout) : Bool :=
  match rsplit slash layout.release with
  | some (_, version) => fromRoots sys layout.binaries layout.data version == some layout
  | none => false

def filePath (layout : Layout) (root : Wide) (file : ReleaseFile) : Option Wide := do
  let checked ← component layout.release file.component file.file
  let tail := checked.drop layout.release.length
  if maxPath ≤ root.length + tail.length then none else some (root ++ tail)

def inventoryFrom (layout : Layout) : List Wide → List ReleaseFile → Bool
  | _, [] => true
  | before, file :: files =>
      match filePath layout layout.release file with
      | none => false
      | some a => decide (file.size ≤ 512 * 1024 * 1024) && before.all (fun b => !(within a b || within b a)) &&
          inventoryFrom layout (before ++ [a]) files

def inventory (sys : System) (layout : Layout) (files : List ReleaseFile) : Bool :=
  layoutValid sys layout && !files.isEmpty && decide (files.length ≤ 4096) && inventoryFrom layout [] files

def firstPath (layout : Layout) (root : Wide) (test : Wide → Bool) : List ReleaseFile → Option Nat
  | [] => none
  | file :: files => do
      let path ← filePath layout root file
      if test path then some 0 else (· + 1) <$> firstPath layout root test files

def expectedDirectory (layout : Layout) (root directory : Wide) (files : List ReleaseFile) : Bool :=
  (firstPath layout root (fun path => within directory path && !wcsicmp directory path) files).isSome

def prefixes (path : Wide) (start : Nat) : List Wide :=
  ((List.range path.length).filter fun k => start ≤ k ∧ path[k]? = some slash).map path.take

def openDirectory (path : Wide) : Call World Unit := do
  os
  let w ← current
  check (isDirectory (w.disk.lookup path) = true)

def content (path : Wide) : Call World Bytes := do
  let w ← current
  match w.disk.lookup path with
  | some (.file bytes) => pure bytes
  | _ => found none

/-- The system's answers about links, streams and rights are part of each opening. -/
def pin (path secureFrom : Wide) (directory : Bool) : Call World Unit := do
  check (within secureFrom path = true ∧ path.length < maxPath)
  (prefixes path 3).forM openDirectory
  if directory = true then openDirectory path
  else do
    os
    let _ ← content path

def append (path : Wide) (part : Bytes) : Call World Unit := do
  os
  change fun w =>
    match w.disk.lookup path with
    | some (.file bytes) =>
        { w with disk := w.disk.put path (some (.file (bytes ++ part))) (by rintro _ ⟨⟩; exact .file _) }
    | _ => w

def hashFile (sys : Platform) (source : Bytes) (destination : Option Wide) (expected : Block 32) (size : Nat) :
    Call World Unit := do
  os
  check (source.length = size)
  os
  (source.toChunks 65536).forM fun part => do
    os
    match destination with
    | some path => append path part
    | none => pure ()
  check (sys.sha256 source = expected)
  os

/-- A new file or directory, where nothing stands under its path. -/
def create (path : Wide) (node : Node) (h : WellFormed (List.map lower) (slash ∉ ·) node) : Call World Unit := do
  os
  let w ← current
  let (parent, _) ← found (rsplit slash path)
  check (w.disk.lookup path).isNone
  check (isDirectory (w.disk.lookup parent) = true)
  change fun w => { w with disk := w.disk.put path (some node) (by rintro _ ⟨⟩; exact h) }

def createDirectory (path : Wide) : Call World Unit := create path (.directory []) (.directory [] .nil (by simp) (by simp))

def createFile (path : Wide) : Call World Unit := create path (.file []) (.file [])

/-- A move that replaces nothing and is done as a whole. -/
def moveFile (source target : Wide) : Call World Unit := do
  os
  let w ← current
  let (parent, _) ← found (rsplit slash target)
  check (w.disk.lookup target).isNone
  check (isDirectory (w.disk.lookup parent) = true)
  check (isDirectory (w.disk.lookup source) = true)
  change fun w =>
    { w with disk := (w.disk.put target (w.disk.lookup source) fun _ h => w.disk.formed.found h).put source none (by simp) }

/-- The names `.` and `..`, which the source skips, are not among the entries of a directory. -/
def listing (path : Wide) : Call World (List (Wide × Node)) := do
  os
  let w ← current
  match w.disk.lookup path with
  | some (.directory entries) => pure entries
  | _ => found none

def walk (layout : Layout) (root : Wide) (files : List ReleaseFile) : Nat → Wide → Nat → Call World Nat
  | 0, _, _ => found none
  | depth + 1, directory, count => do
      pin directory layout.binaries true
      check (directory.length + 3 < maxPath)
      let entries ← listing directory
      entries.foldlM (fun count entry => do
        os
        check (directory.length + entry.1.length + 1 < maxPath)
        let path := directory ++ slash :: entry.1
        if isDirectory (some entry.2) = true then do
          check (expectedDirectory layout root path files = true)
          walk layout root files depth path count
        else do
          check (firstPath layout root (wcsicmp path) files).isSome
          pure (count + 1)) count

def verifyAt (sys : Platform) (layout : Layout) (root : Wide) (files : List ReleaseFile) (admission : Option Admission) :
    Call World Unit := do
  files.forM fun file => do
    let path ← found (filePath layout root file)
    pin path layout.binaries false
    let bytes ← content path
    hashFile sys bytes none file.sha256 file.size
    match admission with
    | some allow => do
        os
        check (allow path bytes = true)
    | none => pure ()
  -- a path has room for less than this many directories
  let count ← walk layout root files maxPath root 0
  check (count = files.length)

def releaseVerify (sys : Platform) (layout : Layout) (files : List ReleaseFile) (admission : Option Admission) :
    Call World Unit := do
  check (inventory sys.toSystem layout files = true)
  verifyAt sys layout layout.release files admission

def createParent (path : Wide) : Call World Unit := do
  let w ← current
  if (w.disk.lookup path).isSome then os else createDirectory path
  pin path path true

def createParents (path : Wide) (start : Nat) : Call World Unit := (prefixes path start).forM createParent

def copyFile (sys : Platform) (layout : Layout) (expanded stage : Wide) (file : ReleaseFile) : Call World Unit := do
  let source ← found (filePath layout expanded file)
  let target ← found (filePath layout stage file)
  createParents target (stage.length + 1)
  pin source layout.staging false
  createFile target
  let bytes ← content source
  hashFile sys bytes (some target) file.sha256 file.size
  os

def canonicalData (sys : System) (layout : Layout) (path : Wide) : Bool :=
  (dataPath sys layout (path.drop (layout.data.length + 1))).any fun checked => wcsicmp checked path

def checkArchive (sys : Platform) (layout : Layout) (archive : Wide) (sha256 : Block 32) (least : Nat) :
    Call World Bytes := do
  pin archive layout.cache false
  let bytes ← content archive
  os
  check (least ≤ bytes.length ∧ bytes.length ≤ 1024 * 1024 * 1024)
  hashFile sys bytes none sha256 bytes.length
  pure bytes

def publish (sys : Platform) (layout : Layout) (archive : Wide) (sha256 : Block 32) (expanded : Wide)
    (files : List ReleaseFile) (admission : Option Admission) (guid : Guid) : Call World Unit := do
  check (inventory sys.toSystem layout files = true)
  check (within layout.cache archive = true ∧ within layout.staging expanded = true)
  check (canonicalData sys.toSystem layout archive = true ∧ canonicalData sys.toSystem layout expanded = true)
  let _ ← checkArchive sys layout archive sha256 0
  os
  let w ← current
  if (w.disk.lookup layout.release).isSome then verifyAt sys layout layout.release files admission
  else do
    let (parent, _) ← found (rsplit slash layout.release)
    pin parent layout.binaries true
    os
    check (parent.length + guid.text.length + 11 < maxPath)
    let stage := parent ++ slash :: (wide ".pending-" ++ guid.text)
    os
    createDirectory stage
    files.forM (copyFile sys layout expanded stage)
    verifyAt sys layout stage files admission
    moveFile stage layout.release

def extract (sys : Platform) (layout : Layout) (expanded : Wide) (files : List ReleaseFile) (seen : List Nat)
    (entry : ArchiveEntry) : Call World (List Nat) := do
  os
  check (entry.isEncrypted = false ∧ entry.isSupported = true ∧ entry.compSize ≤ 512 * 1024 * 1024)
  let name ← found (sys.multiByteToWideChar entry.filename)
  check (name.length < maxPath)
  let relative := name.map fun c => if c = 47 then slash else c
  if entry.isDirectory = true then do
    let relative := if relative.getLast? = some slash then relative.dropLast else relative
    check (expanded.length + relative.length + 1 < maxPath)
    check (expectedDirectory layout expanded (expanded ++ slash :: relative) files = true)
    pure seen
  else do
    let same := fun approved : Wide => wcsicmp (approved.drop (layout.release.length + 1)) relative
    let i ← found (firstPath layout layout.release same files)
    let file ← found files[i]?
    check (i ∉ seen ∧ entry.uncompSize = file.size)
    os
    let bytes ← found entry.extracted
    check (bytes.length = file.size ∧ sys.sha256 bytes = file.sha256)
    let target ← found (filePath layout expanded file)
    createParents target (expanded.length + 1)
    createFile target
    append target bytes
    os
    pure (i :: seen)

def unpackPublish (sys : Platform) (layout : Layout) (archive : Wide) (sha256 : Block 32) (files : List ReleaseFile)
    (admission : Option Admission) (payload guid : Guid) : Call World Unit := do
  check (inventory sys.toSystem layout files = true)
  check (within layout.cache archive = true ∧ canonicalData sys.toSystem layout archive = true)
  let bytes ← checkArchive sys layout archive sha256 22
  os
  let entries ← found (sys.readArchive bytes)
  check (files.length ≤ entries.length ∧ entries.length ≤ 8192)
  pin layout.staging layout.data true
  os
  check (layout.staging.length + payload.text.length + 11 < maxPath)
  let expanded := layout.staging ++ slash :: (wide ".payload-" ++ payload.text)
  os
  createDirectory expanded
  let seen ← entries.foldlM (extract sys layout expanded files) []
  check (seen.length = files.length)
  publish sys layout archive sha256 expanded files admission guid

end EtranProcessing.Deployment.Release
