import EtranProcessing.Library.Segments

namespace EtranProcessing.Deployment.Paths

open Library.Segments

abbrev Wide := List UInt16

def wide (text : String) : Wide := text.toList.map fun c => UInt16.ofNat c.toNat

abbrev slash : UInt16 := 92

def maxPath : Nat := 260

/-- The folding of `_wcsicmp` in the C locale. -/
def lower (c : UInt16) : UInt16 := if 65 ≤ c ∧ c ≤ 90 then c + 32 else c

def wcsicmp (a b : Wide) : Bool := a.map lower == b.map lower

def wcsnicmp (a b : Wide) (n : Nat) : Bool := wcsicmp (a.take n) (b.take n)

def reservedName (segment : Wide) : Bool :=
  let stem := (segment.takeWhile (· ≠ 46)).length
  if stem = 3 ∧ (wcsnicmp segment (wide "CON") 3 || wcsnicmp segment (wide "PRN") 3 ||
      wcsnicmp segment (wide "AUX") 3 || wcsnicmp segment (wide "NUL") 3) = true then true
  else if stem = 4 ∧ (wcsnicmp segment (wide "COM") 3 || wcsnicmp segment (wide "LPT") 3) = true ∧
      (∃ c ∈ segment[3]?, 49 ≤ c ∧ c ≤ 57) then true
  else decide (stem = 6) && wcsnicmp segment (wide "CONIN$") 6 || decide (stem = 7) && wcsnicmp segment (wide "CONOUT$") 7

def letter (c : UInt16) : Bool := 97 ≤ c && c ≤ 122 || 65 ≤ c && c ≤ 90

def digit (c : UInt16) : Bool := 48 ≤ c && c ≤ 57

def simpleName (value : Wide) : Bool :=
  if value = [] ∨ value = wide "." ∨ value = wide ".." then false
  else if reservedName value then false
  else value.all fun c => letter c || digit c || c == 95 || c == 45

/-- What follows a number without leading zeros and of nine digits at most. -/
def versionPart (value : Wide) : Option Wide :=
  match value with
  | [] => none
  | c :: rest =>
      if digit c = false then none
      else if c = 48 ∧ (rest.head?.any digit) = true then none
      else if 9 < (value.takeWhile digit).length then none
      else some (value.dropWhile digit)

def versionDot (value : Wide) : Option Wide :=
  match value with
  | 46 :: rest => some rest
  | _ => none

def releaseVersion (value : Wide) : Bool :=
  (versionPart value >>= versionDot >>= versionPart >>= versionDot >>= versionPart) == some []

/-- What the operating system answers. -/
structure System where
  getFullPathName : Wide → Option Wide
  -- the folders of programs and of program data, nothing on an unknown processor
  programFiles : Option Wide
  programData : Option Wide

def forbidden (c : UInt16) : Bool := c < 32 || (wide "/:\"<>|?*").contains c

def endsBadly (segment : Wide) : Bool := segment.getLast?.any fun c => c == 46 || c == 32

def rootSegment (segment : Wide) : Bool := !segment.isEmpty && !endsBadly segment && !reservedName segment

def absoluteRoot (sys : System) (value : Wide) : Option Wide :=
  if maxPath ≤ value.length then none
  else
    match value with
    | drive :: 58 :: 92 :: rest =>
        if letter drive = false ∨ rest = [] then none
        else if segmentsPass slash forbidden rootSegment [] rest = false then none
        else
          match sys.getFullPathName value with
          | none => none
          | some out => if out ≠ [] ∧ out.length < maxPath ∧ wcsicmp value out = true then some out else none
    | _ => none

def join (base leaf : Wide) : Option Wide :=
  if maxPath ≤ base.length + 1 + leaf.length then none else some (base ++ slash :: leaf)

def within (root path : Wide) : Bool :=
  wcsnicmp root path root.length && ((path.drop root.length).isEmpty || path[root.length]? == some slash)

/-- The directories of a version under its two roots. -/
structure Layout where
  binaries : Wide
  data : Wide
  release : Wide
  launchers : Wide
  config : Wide
  state : Wide
  logs : Wide
  operations : Wide
  cache : Wide
  staging : Wide
  deriving DecidableEq

def fromRoots (sys : System) (binaries data version : Wide) : Option Layout :=
  if releaseVersion version = false then none
  else do
    let binaries ← absoluteRoot sys binaries
    let data ← absoluteRoot sys data
    if within binaries data || within data binaries then none
    else
      let release ← join binaries (wide "releases\\" ++ version)
      let launchers ← join binaries (wide "bin")
      let config ← join data (wide "config")
      let state ← join data (wide "state")
      let logs ← join data (wide "logs")
      let operations ← join data (wide "update\\operations")
      let cache ← join data (wide "update\\cache")
      let staging ← join data (wide "update\\staging")
      some ⟨binaries, data, release, launchers, config, state, logs, operations, cache, staging⟩

def resolve (sys : System) (version : Wide) : Option Layout := do
  let programs ← sys.programFiles
  let data ← sys.programData
  let programRoot ← join programs (wide "Leo4\\Tools")
  let dataRoot ← join data (wide "Leo4\\Tools")
  fromRoots sys programRoot dataRoot version

def fileSegment (segment : Wide) : Bool :=
  !segment.isEmpty && !endsBadly segment && !reservedName segment && segment != wide "." && segment != wide ".."

/-- `l4_layout_component` looks at the release directory only. -/
def component (release component relativeFile : Wide) : Option Wide :=
  if simpleName component = false ∨ relativeFile = [] then none
  else if segmentsPass slash forbidden fileSegment [] relativeFile = false then none
  else do
    let directory ← join release component
    join directory relativeFile

def runtimeReleaseFromExe (sys : System) (exe component : Wide) : Option (Wide × Bool) :=
  if simpleName component = false then none
  else do
    let canonical ← absoluteRoot sys exe
    let (canonical, _) ← rsplit slash canonical
    if canonical.length ≤ 2 then none
    else
      let canonical := match rsplit slash canonical with
        | some (parent, leaf) => if wcsicmp leaf (wide "x86") || wcsicmp leaf (wide "x64") then parent else canonical
        | none => canonical
      let canonical := match rsplit slash canonical with
        | some (parent, leaf) => if wcsicmp leaf (wide "bin") then parent else canonical
        | none => canonical
      let (canonical, leaf) ← rsplit slash canonical
      if wcsicmp leaf component = false then none
      else
        let system ← resolve sys (wide "0.0.0")
        let pre ← join system.binaries (wide "releases")
        let installed := within pre canonical
        if installed = true ∧ ((canonical[pre.length]? == some slash) = false ∨
            releaseVersion (canonical.drop (pre.length + 1)) = false) then none
        else some (canonical, installed)

/-- The public layout is checked against the one its roots give. -/
def dataPath (sys : System) (layout : Layout) (relative : Wide) : Option Wide := do
  let (_, version) ← rsplit slash layout.release
  let expected ← fromRoots sys layout.binaries layout.data version
  if layout ≠ expected then none
  else
    let _ ← component (wide "C:\\validation") (wide "data") relative
    join layout.data relative

end EtranProcessing.Deployment.Paths
