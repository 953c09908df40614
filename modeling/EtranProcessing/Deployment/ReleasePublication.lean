import EtranProcessing.Deployment.PathContainment
import EtranProcessing.Deployment.Release

namespace EtranProcessing.Deployment.ReleasePublication

open Library.Segments Library.FileTree Library.Calls Paths PathContainment Descriptors PlanFields Release

/-- The names on a path, as the disk and `_wcsicmp` tell them apart. -/
abbrev pathKey (path : Wide) : List Wide := key slash lower path

section Keys

theorem pathKey_append (first second : Wide) : pathKey (first ++ slash :: second) = pathKey first ++ pathKey second :=
  key_append lower_slash first second

theorem wcsicmp_iff (a b : Wide) : wcsicmp a b = true ↔ pathKey a = pathKey b := by
  rw [wcsicmp, beq_iff_eq, key_eq_iff]

theorem within_iff_key (root path : Wide) : within root path = true ↔ pathKey root <+: pathKey path := by
  rw [within_iff, Nested, under_iff_key]

theorem pathKey_name {name : Wide} (h : slash ∉ name) : pathKey name = [name.map lower] := by
  apply key_segment
  intro hmem
  obtain ⟨c, hc, hslash⟩ := List.mem_map.mp hmem
  exact h (lower_eq_slash (hslash.trans lower_slash.symm) ▸ hc)

theorem map_names (path : Wide) : (path.splitOn slash).map (List.map lower) = pathKey path :=
  map_splitOn lower_slash (fun _ hc => lower_eq_slash (hc.trans lower_slash.symm)) path

def Beside (a b : Wide) : Prop := ¬ pathKey a <+: pathKey b ∧ ¬ pathKey b <+: pathKey a

theorem Beside.below {root path other : Wide} (h : Beside root other) (hpath : pathKey root <+: pathKey path) :
    Beside path other := by
  constructor
  · exact fun hp => h.1 (hpath.trans hp)
  · intro hp
    rcases List.prefix_or_prefix_of_prefix hpath hp with hroot | hother
    · exact h.1 hroot
    · exact h.2 hother

theorem lookup_append (d : Disk) (root rest : Wide) :
    d.lookup (root ++ slash :: rest) = (d.lookup root).bind fun t => t.find (List.map lower) (pathKey rest) := by
  change d.tree.find _ (pathKey (root ++ slash :: rest)) = _
  rw [pathKey_append, find_append]
  rfl

theorem lookup_entry {d : Disk} {directory : Wide} {entries : List (Wide × Node)} {e : Wide × Node}
    (h : d.lookup directory = some (.directory entries)) (he : e ∈ entries) :
    d.lookup (directory ++ slash :: e.1) = some e.2 := by
  have hformed := d.formed.found h
  rw [lookup_append, h, Option.bind_some, pathKey_name (hformed.entry he).1, find_directory,
    child_of_mem hformed.distinct he, Option.bind_some, find_nil]

theorem lookup_put {d : Disk} {path other : Wide} {node : Option Node}
    (hnode : ∀ t ∈ node, WellFormed (List.map lower) (slash ∉ ·) t) (h : Beside path other) :
    (d.put path node hnode).lookup other = d.lookup other := by
  apply find_alter_beside
  · rw [map_names]
    exact h.1
  · rw [map_names]
    exact h.2

theorem prefixes_under {root rest prefixPath : Wide} (h : prefixPath ∈ prefixes (root ++ slash :: rest) (root.length + 1)) :
    pathKey root <+: pathKey prefixPath := by
  obtain ⟨k, hk, rfl⟩ := List.mem_map.mp h
  obtain ⟨-, hk⟩ := List.mem_filter.mp hk
  have hle : root.length + 1 ≤ k := (of_decide_eq_true hk).1
  obtain ⟨n, rfl⟩ : ∃ n, k = root.length + (n + 1) := ⟨k - root.length - 1, by omega⟩
  rw [List.take_length_add_append, List.take_succ_cons, pathKey_append]
  exact List.prefix_append _ _

end Keys

section Reading

variable (sys : Platform) (layout : Layout) {root : Wide} {files : List ReleaseFile}

theorem os_reads : Keeps World.disk os := by
  intro w
  unfold os
  split
  · rfl
  · rfl
  · rfl

theorem content_reads (path : Wide) : Keeps World.disk (content path) := by
  refine Keeps.current.bind fun w => ?_
  split
  · exact .pure _
  · exact .found _

theorem openDirectory_reads (path : Wide) : Keeps World.disk (openDirectory path) :=
  os_reads.bind fun _ => Keeps.current.bind fun _ => .check _

theorem pin_reads (path secureFrom : Wide) (directory : Bool) : Keeps World.disk (pin path secureFrom directory) := by
  refine (Keeps.check _).bind fun _ => (Keeps.forM fun _ _ => openDirectory_reads _).bind fun _ => ?_
  split
  · exact openDirectory_reads path
  · exact os_reads.bind fun _ => (content_reads path).bind fun _ => .pure _

theorem listing_reads (path : Wide) : Keeps World.disk (listing path) := by
  refine os_reads.bind fun _ => Keeps.current.bind fun w => ?_
  split
  · exact .pure _
  · exact .found _

theorem hashFile_reads (source : Bytes) (expected : Block 32) (size : Nat) :
    Keeps World.disk (hashFile sys source none expected size) := by
  refine os_reads.bind fun _ => (Keeps.check _).bind fun _ => os_reads.bind fun _ => ?_
  refine (Keeps.forM fun _ _ => os_reads.bind fun _ => .pure _).bind fun _ => ?_
  exact (Keeps.check _).bind fun _ => os_reads

theorem walk_reads (depth : Nat) (directory : Wide) (count : Nat) :
    Keeps World.disk (walk layout root files depth directory count) := by
  induction depth generalizing directory count with
  | zero => exact .found _
  | succ depth ih =>
      refine (pin_reads _ _ _).bind fun _ => (Keeps.check _).bind fun _ => (listing_reads _).bind fun entries => ?_
      refine .foldlM (fun b e _ => ?_) count
      refine os_reads.bind fun _ => (Keeps.check _).bind fun _ => ?_
      split
      · exact (Keeps.check _).bind fun _ => ih _ _
      · exact (Keeps.check _).bind fun _ => .pure _

theorem verifyAt_reads (admission : Option Admission) : Keeps World.disk (verifyAt sys layout root files admission) := by
  refine (Keeps.forM fun file _ => ?_).bind fun _ => (walk_reads layout _ _ _).bind fun _ => .check _
  refine (Keeps.found _).bind fun path => (pin_reads _ _ _).bind fun _ => (content_reads _).bind fun bytes => ?_
  refine (hashFile_reads sys _ _ _).bind fun _ => ?_
  split
  · exact os_reads.bind fun _ => .check _
  · exact .pure _

theorem checkArchive_reads (archive : Wide) (sha256 : Block 32) (least : Nat) :
    Keeps World.disk (checkArchive sys layout archive sha256 least) := by
  refine (pin_reads _ _ _).bind fun _ => (content_reads _).bind fun bytes => os_reads.bind fun _ => ?_
  exact (Keeps.check _).bind fun _ => (hashFile_reads sys _ _ _).bind fun _ => .pure _

end Reading

section Writing

variable (sys : Platform) (layout : Layout) {path release : Wide}

abbrev standing (path : Wide) (w : World) : Option Node := w.disk.lookup path

theorem standing_of_reads {α : Type} {c : Call World α} (h : Keeps World.disk c) : Keeps (standing release) c :=
  h.map fun d => d.lookup release

theorem append_keeps (h : Beside path release) (part : Bytes) : Keeps (standing release) (append path part) := by
  refine (standing_of_reads os_reads).bind fun _ w => ?_
  simp only [change]
  split
  · exact lookup_put (by rintro _ ⟨⟩; exact .file _) h
  · rfl

theorem create_keeps (h : Beside path release) {node : Node} (hnode : WellFormed (List.map lower) (slash ∉ ·) node) :
    Keeps (standing release) (create path node hnode) := by
  refine (standing_of_reads os_reads).bind fun _ => Keeps.current.bind fun _ => (Keeps.found _).bind ?_
  rintro ⟨parent, leaf⟩
  refine (Keeps.check _).bind fun _ => (Keeps.check _).bind fun _ w => ?_
  exact lookup_put (by rintro _ ⟨⟩; exact hnode) h

theorem hashFile_keeps (h : Beside path release) (source : Bytes) (expected : Block 32) (size : Nat) :
    Keeps (standing release) (hashFile sys source (some path) expected size) := by
  have hos : Keeps (standing release) os := standing_of_reads os_reads
  refine hos.bind fun _ => (Keeps.check _).bind fun _ => hos.bind fun _ => ?_
  refine (Keeps.forM fun _ _ => hos.bind fun _ => append_keeps h _).bind fun _ => ?_
  exact (Keeps.check _).bind fun _ => hos

theorem createParents_keeps {root rest : Wide} (h : Beside root release) :
    Keeps (standing release) (createParents (root ++ slash :: rest) (root.length + 1)) := by
  refine Keeps.forM fun p hp => Keeps.current.bind fun w => ?_
  have hpin : Keeps (standing release) (pin p p true) := standing_of_reads (pin_reads _ _ _)
  split
  · exact (standing_of_reads os_reads).bind fun _ => hpin
  · exact (create_keeps (h.below (prefixes_under hp)) _).bind fun _ => hpin

end Writing

section Paths

variable {sys : System} {layout : Layout} {root path : Wide} {file : ReleaseFile} {files : List ReleaseFile}

def relative (file : ReleaseFile) : Wide := file.component ++ slash :: file.file

abbrev fileKey (file : ReleaseFile) : List Wide := pathKey (relative file)

theorem component_some {release name relativeFile out : Wide} (h : component release name relativeFile = some out) :
    out = release ++ slash :: (name ++ slash :: relativeFile) := by
  unfold component at h
  split_ifs at h with hname hpass
  simp only [Option.bind_eq_bind, Option.bind_eq_some_iff] at h
  obtain ⟨directory, hdirectory, hout⟩ := h
  rw [join_some hout, join_some hdirectory, List.append_assoc, List.cons_append]

theorem filePath_some (h : filePath layout root file = some path) :
    path = root ++ slash :: relative file ∧ path.length < maxPath := by
  unfold filePath at h
  simp only [Option.bind_eq_bind, Option.bind_eq_some_iff] at h
  obtain ⟨checked, hchecked, h⟩ := h
  have htail : checked.drop layout.release.length = slash :: relative file := by
    rw [component_some hchecked, List.drop_left]
    rfl
  rw [htail] at h
  split_ifs at h with hlong
  obtain rfl := Option.some.inj h
  exact ⟨rfl, by simpa using hlong⟩

theorem filePath_key (h : filePath layout root file = some path) : pathKey path = pathKey root ++ fileKey file := by
  rw [(filePath_some h).1, pathKey_append]

variable {test : Wide → Bool}

theorem firstPath_some {i : Nat} (h : firstPath layout root test files = some i) :
    ∃ file path, files[i]? = some file ∧ filePath layout root file = some path ∧ test path = true := by
  induction files generalizing i with
  | nil => cases h
  | cons file files ih =>
      simp only [firstPath, Option.bind_eq_bind, Option.bind_eq_some_iff] at h
      obtain ⟨path, hpath, h⟩ := h
      split_ifs at h with htest
      · obtain rfl := Option.some.inj h
        exact ⟨file, path, rfl, hpath, htest⟩
      · obtain ⟨j, hj, rfl⟩ := Option.map_eq_some_iff.mp h
        exact ih hj

theorem firstPath_isSome (hall : ∀ f ∈ files, (filePath layout root f).isSome = true)
    (h : ∃ f ∈ files, ∃ path ∈ filePath layout root f, test path = true) :
    (firstPath layout root test files).isSome = true := by
  induction files with
  | nil => simp at h
  | cons file files ih =>
      obtain ⟨path, hpath⟩ := Option.isSome_iff_exists.mp (hall file (by simp))
      simp only [firstPath, hpath, Option.bind_eq_bind, Option.bind_some]
      split_ifs with htest
      · rfl
      · rw [Option.map_eq_map, Option.isSome_map]
        refine ih (fun f hf => hall f (List.mem_cons_of_mem _ hf)) ?_
        obtain ⟨f, hf, p, hp, hpass⟩ := h
        rcases List.mem_cons.mp hf with rfl | hf
        · obtain rfl := Option.some.inj (hpath.symm.trans hp)
          exact absurd hpass htest
        · exact ⟨f, hf, p, hp, hpass⟩

theorem firstPath_file (h : (firstPath layout root test files).isSome = true) :
    ∃ f ∈ files, ∃ path, filePath layout root f = some path ∧ test path = true := by
  obtain ⟨i, hi⟩ := Option.isSome_iff_exists.mp h
  obtain ⟨f, path, hf, hpath, htest⟩ := firstPath_some hi
  exact ⟨f, List.mem_of_getElem? hf, path, hpath, htest⟩

theorem inventoryFrom_distinct {before : List Wide} (h : inventoryFrom layout before files = true) :
    (∀ f ∈ files, (filePath layout layout.release f).isSome = true) ∧ (files.map fileKey).Nodup ∧
      ∀ f ∈ files, ∀ b ∈ before, pathKey layout.release ++ fileKey f ≠ pathKey b := by
  induction files generalizing before with
  | nil => simp
  | cons file files ih =>
      unfold inventoryFrom at h
      split at h
      · cases h
      · next a ha =>
          simp only [Bool.and_eq_true, List.all_eq_true] at h
          obtain ⟨⟨-, hnew⟩, hrest⟩ := h
          obtain ⟨hpaths, hnodup, hbefore⟩ := ih hrest
          refine ⟨?_, ?_, ?_⟩
          · intro f hf
            rcases List.mem_cons.mp hf with rfl | hf
            · rw [ha]
              rfl
            · exact hpaths f hf
          · rw [List.map_cons, List.nodup_cons]
            refine ⟨?_, hnodup⟩
            intro hmem
            obtain ⟨f, hf, hsame⟩ := List.mem_map.mp hmem
            apply hbefore f hf a (by simp)
            rw [filePath_key ha, hsame]
          · intro f hf b hb
            rcases List.mem_cons.mp hf with rfl | hf
            · intro hsame
              have hwithin : within a b = true := (within_iff_key a b).mpr (by rw [filePath_key ha, hsame])
              simpa [hwithin] using hnew b hb
            · exact hbefore f hf b (List.mem_append_left _ hb)

end Paths

/-- A release holds the files of its manifest, with their sizes and hashes, the directories above them and nothing else. -/
structure Exact (sys : Platform) (files : List ReleaseFile) (release : Node) : Prop where
  present : ∀ f ∈ files, ∃ bytes, release.find (List.map lower) (fileKey f) = some (.file bytes) ∧
    bytes.length = f.size ∧ sys.sha256 bytes = f.sha256
  only : ∀ names bytes, release.find (List.map lower) names = some (.file bytes) → ∃ f ∈ files, names = fileKey f
  directories : ∀ names entries, release.find (List.map lower) names = some (.directory entries) →
    ∃ f ∈ files, names <+: fileKey f ∧ names ≠ fileKey f

/-- What a walk over a directory finds out about what stands in it. -/
structure Walked (layout : Layout) (root : Wide) (files : List ReleaseFile) (directory : Wide) (node : Node) : Prop where
  only : ∀ names bytes, node.find (List.map lower) names = some (.file bytes) →
    ∃ f ∈ files, ∃ path, filePath layout root f = some path ∧ pathKey path = pathKey directory ++ names
  directories : ∀ names entries, node.find (List.map lower) names = some (.directory entries) →
    (extend slash directory names).length + 3 < maxPath ∧
      (names ≠ [] → ∃ f ∈ files, ∃ path, filePath layout root f = some path ∧
        pathKey directory ++ names <+: pathKey path ∧ pathKey directory ++ names ≠ pathKey path)

/-- What the walk finds out about one entry. -/
structure EntryWalked (layout : Layout) (root : Wide) (files : List ReleaseFile) (directory : Wide) (e : Wide × Node) :
    Prop where
  file : isDirectory (some e.2) = false →
    (firstPath layout root (wcsicmp (directory ++ slash :: e.1)) files).isSome = true
  expected : isDirectory (some e.2) = true → expectedDirectory layout root (directory ++ slash :: e.1) files = true
  below : isDirectory (some e.2) = true → Walked layout root files (directory ++ slash :: e.1) e.2

section Soundness

variable {sys : Platform} {layout : Layout} {root directory : Wide} {files : List ReleaseFile}
  {entries : List (Wide × Node)}

theorem length_extend_cons (directory name : Wide) (names : List Wide) :
    (extend slash directory (name.map lower :: names)).length = (extend slash (directory ++ slash :: name) names).length := by
  simp [extend]

theorem walked_directory (hformed : WellFormed (List.map lower) (slash ∉ ·) (.directory entries))
    (hlength : directory.length + 3 < maxPath) (hall : ∀ e ∈ entries, EntryWalked layout root files directory e) :
    Walked layout root files directory (.directory entries) := by
  have hkey (e : Wide × Node) (he : e ∈ entries) :
      pathKey (directory ++ slash :: e.1) = pathKey directory ++ [e.1.map lower] := by
    rw [pathKey_append, pathKey_name (hformed.entry he).1]
  constructor
  · intro names bytes hnode
    cases names with
    | nil => cases hnode
    | cons name names =>
        obtain ⟨e, he, rfl, hrest⟩ := (find_cons_iff hformed).mp hnode
        cases hkind : isDirectory (some e.2) with
        | false =>
            obtain ⟨f, hf, path, hpath, hsame⟩ := firstPath_file ((hall e he).file hkind)
            have hnames : names = [] := by
              cases names with
              | nil => rfl
              | cons =>
                  cases hnode : e.2 with
                  | file content => rw [hnode] at hrest; cases hrest
                  | directory entries => rw [hnode] at hkind; cases hkind
            exact ⟨f, hf, path, hpath, by rw [← (wcsicmp_iff _ _).mp hsame, hkey e he, hnames]⟩
        | true =>
            obtain ⟨f, hf, path, hpath, hsame⟩ := ((hall e he).below hkind).only names bytes hrest
            exact ⟨f, hf, path, hpath, by rw [hsame, hkey e he, List.append_assoc, List.singleton_append]⟩
  · intro names below hnode
    cases names with
    | nil => exact ⟨by simpa [extend] using hlength, fun h => absurd rfl h⟩
    | cons name names =>
        obtain ⟨e, he, rfl, hrest⟩ := (find_cons_iff hformed).mp hnode
        have hkind : isDirectory (some e.2) = true := by
          cases hnode : e.2 with
          | file content =>
              rw [hnode] at hrest
              cases names with
              | nil => cases hrest
              | cons => cases hrest
          | directory entries => rfl
        obtain ⟨hshort, habove⟩ := ((hall e he).below hkind).directories names below hrest
        refine ⟨(length_extend_cons directory e.1 names).symm ▸ hshort, fun _ => ?_⟩
        rw [hkey e he, List.append_assoc, List.singleton_append] at habove
        cases names with
        | nil =>
            obtain ⟨f, hf, path, hpath, htest⟩ := firstPath_file ((hall e he).expected hkind)
            simp only [Bool.and_eq_true, Bool.not_eq_true', Bool.eq_false_iff, ne_eq, wcsicmp_iff, within_iff_key,
              hkey e he] at htest
            exact ⟨f, hf, path, hpath, htest⟩
        | cons => exact habove (by simp)

theorem wp_content {w : World} (path : Wide) {post : Bytes → World → Prop}
    (h : ∀ bytes, w.disk.lookup path = some (.file bytes) → post bytes w) : wp (content path) post (fun _ => True) w := by
  unfold content
  rw [wp_bind, wp_current]
  cases hlookup : w.disk.lookup path with
  | none => simp
  | some node =>
      cases node with
      | file bytes => exact h bytes hlookup
      | directory entries => simp

theorem wp_listing {w : World} (path : Wide) {post : List (Wide × Node) → World → Prop}
    (h : ∀ entries w', w'.disk = w.disk → w.disk.lookup path = some (.directory entries) → post entries w') :
    wp (listing path) post (fun _ => True) w := by
  refine os_reads.wp_bind fun _ w' hw => ?_
  rw [wp_bind, wp_current]
  cases hlookup : w'.disk.lookup path with
  | none => simp
  | some node =>
      cases node with
      | file bytes => simp
      | directory entries => exact h entries w' hw (hw ▸ hlookup)

theorem walk_sound (depth : Nat) (directory : Wide) (count : Nat) (w : World) :
    wp (walk layout root files depth directory count)
      (fun _ w' => w'.disk = w.disk ∧ ∃ entries, w.disk.lookup directory = some (.directory entries) ∧
        Walked layout root files directory (.directory entries)) (fun _ => True) w := by
  induction depth generalizing directory count w with
  | zero =>
      unfold walk
      simp
  | succ depth ih =>
      unfold walk
      refine (pin_reads _ _ _).wp_bind fun _ w₁ hw₁ => ?_
      rw [wp_bind, wp_check]
      refine ⟨fun hlength => ?_, fun _ => trivial⟩
      rw [wp_bind]
      refine wp_listing directory fun entries w₂ hw₂ hlookup => ?_
      rw [hw₁] at hlookup hw₂
      have hformed := w.disk.formed.found hlookup
      refine wp_imp (wp_foldlM (fun w' => w'.disk = w.disk) (EntryWalked layout root files directory) hw₂
        (fun count e he w₃ hw₃ => ?_) count) ?_
      · refine os_reads.wp_bind fun _ w₄ hw₄ => ?_
        rw [wp_bind, wp_check]
        refine ⟨fun _ => ?_, fun _ => trivial⟩
        rw [wp_ite]
        constructor
        · intro hkind
          rw [wp_bind, wp_check]
          refine ⟨fun hexpected => ?_, fun _ => trivial⟩
          refine wp_imp (ih _ count w₄) ?_
          rintro _ w₅ ⟨hw₅, below, hbelow, hwalked⟩
          rw [hw₄, hw₃] at hw₅ hbelow
          refine ⟨hw₅, fun h => (Bool.false_ne_true (h.symm.trans hkind)).elim, fun _ => hexpected, fun _ => ?_⟩
          rw [lookup_entry hlookup he] at hbelow
          exact Option.some.inj hbelow ▸ hwalked
        · intro hkind
          rw [wp_bind, wp_check]
          refine ⟨fun hmatch => ?_, fun _ => trivial⟩
          exact ⟨hw₄.trans hw₃, fun _ => hmatch, fun h => absurd h hkind, fun h => absurd h hkind⟩
      · rintro _ w₃ ⟨hw₃, hall⟩
        exact ⟨hw₃, entries, hlookup, walked_directory hformed hlength hall⟩

theorem hashFile_sound {w : World} (source : Bytes) (expected : Block 32) (size : Nat) :
    wp (hashFile sys source none expected size) (fun _ w' => w'.disk = w.disk ∧ source.length = size ∧
      sys.sha256 source = expected) (fun _ => True) w := by
  refine os_reads.wp_bind fun _ w₁ hw₁ => ?_
  rw [wp_bind, wp_check]
  refine ⟨fun hsize => ?_, fun _ => trivial⟩
  refine os_reads.wp_bind fun _ w₂ hw₂ => ?_
  refine (Keeps.forM fun _ _ => os_reads.bind fun _ => .pure _).wp_bind fun _ w₃ hw₃ => ?_
  rw [wp_bind, wp_check]
  refine ⟨fun hhash => ?_, fun _ => trivial⟩
  rw [wp_run]
  exact ⟨fun _ _ => ⟨(os_reads w₃).trans (hw₃.trans (hw₂.trans hw₁)), hsize, hhash⟩, fun _ => trivial⟩

def Present (sys : Platform) (layout : Layout) (root : Wide) (d : Disk) (file : ReleaseFile) : Prop :=
  ∃ path bytes, filePath layout root file = some path ∧ d.lookup path = some (.file bytes) ∧
    bytes.length = file.size ∧ sys.sha256 bytes = file.sha256

theorem verifyAt_walked (admission : Option Admission) (w : World) :
    wp (verifyAt sys layout root files admission) (fun _ w' => w'.disk = w.disk ∧
      (∀ f ∈ files, Present sys layout root w.disk f) ∧ ∃ entries, w.disk.lookup root = some (.directory entries) ∧
        Walked layout root files root (.directory entries)) (fun _ => True) w := by
  unfold verifyAt
  rw [wp_bind]
  refine wp_imp (wp_forM (fun w' => w'.disk = w.disk) (Present sys layout root w.disk) rfl fun f hf w₁ hw₁ => ?_) ?_
  · rw [wp_bind, wp_found]
    refine ⟨fun path hpath => ?_, fun _ => trivial⟩
    refine (pin_reads _ _ _).wp_bind fun _ w₂ hw₂ => ?_
    rw [wp_bind]
    refine wp_content path fun bytes hbytes => ?_
    rw [hw₂, hw₁] at hbytes
    rw [wp_bind]
    refine wp_imp (hashFile_sound bytes f.sha256 f.size) ?_
    rintro _ w₃ ⟨hw₃, hsize, hhash⟩
    have hpresent : Present sys layout root w.disk f := ⟨path, bytes, hpath, hbytes, hsize, hhash⟩
    have hdisk : w₃.disk = w.disk := hw₃.trans (hw₂.trans hw₁)
    cases admission with
    | none => exact ⟨hdisk, hpresent⟩
    | some allow =>
        refine os_reads.wp_bind fun _ w₄ hw₄ => ?_
        rw [wp_check]
        exact ⟨fun _ => ⟨hw₄.trans hdisk, hpresent⟩, fun _ => trivial⟩
  · rintro _ w₁ ⟨hw₁, hpresent⟩
    rw [wp_bind]
    refine wp_imp (walk_sound maxPath root 0 w₁) ?_
    rintro count w₂ ⟨hw₂, entries, hentries, hwalked⟩
    rw [hw₁] at hw₂ hentries
    rw [wp_check]
    exact ⟨fun _ => ⟨hw₂, hpresent, entries, hentries, hwalked⟩, fun _ => trivial⟩

def Roomy (root : Wide) (files : List ReleaseFile) : Prop :=
  ∀ f ∈ files, ∀ names, names <+: fileKey f → names ≠ fileKey f → (extend slash root names).length + 3 < maxPath

theorem verifyAt_sound (hne : files ≠ []) (admission : Option Admission) (w : World) :
    wp (verifyAt sys layout root files admission) (fun _ w' => w'.disk = w.disk ∧ (∃ node, w.disk.lookup root = some node ∧
      Exact sys files node) ∧ Roomy root files) (fun _ => True) w := by
  refine wp_imp (verifyAt_walked admission w) ?_
  rintro _ w' ⟨hdisk, hpresent, entries, hlookup, hwalked⟩
  have hfound (f : ReleaseFile) (hf : f ∈ files) : ∃ bytes,
      (Tree.directory entries).find (List.map lower) (fileKey f) = some (.file bytes) ∧
        bytes.length = f.size ∧ sys.sha256 bytes = f.sha256 := by
    obtain ⟨path, bytes, hpath, hbytes, hright⟩ := hpresent f hf
    rw [(filePath_some hpath).1, lookup_append, hlookup] at hbytes
    exact ⟨bytes, hbytes, hright⟩
  have hnonempty (f : ReleaseFile) : fileKey f ≠ [] := List.splitOn_ne_nil _ _
  refine ⟨hdisk, ⟨_, hlookup, hfound, ?_, ?_⟩, ?_⟩
  · intro names bytes hnode
    obtain ⟨f, hf, path, hpath, hkey⟩ := hwalked.only names bytes hnode
    rw [filePath_key hpath] at hkey
    exact ⟨f, hf, (List.append_cancel_left hkey).symm⟩
  · intro names below hnode
    by_cases hnames : names = []
    · obtain ⟨f, hf⟩ := List.exists_mem_of_ne_nil files hne
      exact ⟨f, hf, hnames ▸ List.nil_prefix, fun h => hnonempty f (h.symm.trans hnames)⟩
    · obtain ⟨f, hf, path, hpath, hleading, hne⟩ := (hwalked.directories names below hnode).2 hnames
      rw [filePath_key hpath] at hleading hne
      exact ⟨f, hf, (List.prefix_append_right_inj _).mp hleading, fun h => hne (h ▸ rfl)⟩
  · intro f hf names hnames hne
    obtain ⟨rest, hrest⟩ := hnames
    have hrestne : rest ≠ [] := by
      rintro rfl
      exact hne (by simpa using hrest)
    obtain ⟨bytes, hbytes, -⟩ := hfound f hf
    rw [← hrest] at hbytes
    obtain ⟨below, hbelow⟩ := find_above hbytes hrestne
    exact (hwalked.directories names below hbelow).1

end Soundness

section Completeness

variable {sys : Platform} {layout : Layout} {root directory path : Wide} {files : List ReleaseFile}
  {entries : List (Wide × Node)} {w : World}

theorem os_run (h : w.faults = []) : os w = (some (), w) := by
  unfold os
  rw [h]

theorem prefixes_split {start : Nat} {prefixPath : Wide} (h : prefixPath ∈ prefixes path start) :
    ∃ rest, path = prefixPath ++ slash :: rest := by
  obtain ⟨k, hk, rfl⟩ := List.mem_map.mp h
  obtain ⟨-, hk⟩ := List.mem_filter.mp hk
  obtain ⟨-, hslash⟩ := of_decide_eq_true hk
  obtain ⟨hlt, hslash⟩ := List.getElem?_eq_some_iff.mp hslash
  refine ⟨path.drop (k + 1), ?_⟩
  rw [← hslash, List.getElem_cons_drop, List.take_append_drop]

theorem openDirectory_run (hfaults : w.faults = []) (h : w.disk.lookup path = some (.directory entries)) :
    openDirectory path w = (some (), w) := by
  unfold openDirectory
  rw [bind_run (os_run hfaults)]
  exact check_run (by rw [h]; rfl)

variable {node : Node}

theorem lookup_prefix {d : Disk} {start : Nat} {prefixPath : Wide} (h : d.lookup path = some node)
    (hmem : prefixPath ∈ prefixes path start) : ∃ entries, d.lookup prefixPath = some (.directory entries) := by
  obtain ⟨rest, rfl⟩ := prefixes_split hmem
  change d.tree.find _ (pathKey (prefixPath ++ slash :: rest)) = _ at h
  rw [pathKey_append] at h
  exact find_above h (List.splitOn_ne_nil _ _)

theorem pin_run {secureFrom : Wide} {kind : Bool} (hfaults : w.faults = [])
    (hin : pathKey secureFrom <+: pathKey path) (hlength : path.length < maxPath) (h : w.disk.lookup path = some node)
    (hkind : isDirectory (some node) = kind) : pin path secureFrom kind w = (some (), w) := by
  subst hkind
  unfold pin
  rw [bind_run (check_run ⟨(within_iff_key _ _).mpr hin, hlength⟩), bind_run (forM_run fun p hp => ?_)]
  · cases node with
    | file bytes =>
        change (os >>= fun _ => content path >>= fun _ => pure ()) w = _
        rw [bind_run (os_run hfaults), bind_run (a := bytes)]
        · rfl
        · unfold content
          rw [bind_run current_run, h]
          rfl
    | directory entries => exact openDirectory_run hfaults h
  · obtain ⟨above, habove⟩ := lookup_prefix h hp
    exact openDirectory_run hfaults habove

theorem listing_run (hfaults : w.faults = []) (h : w.disk.lookup path = some (.directory entries)) :
    listing path w = (some entries, w) := by
  unfold listing
  rw [bind_run (os_run hfaults), bind_run current_run, h]
  rfl

theorem Walked.entry {e : Wide × Node} (h : Walked layout root files directory (.directory entries))
    (hformed : WellFormed (List.map lower) (slash ∉ ·) (.directory entries)) (he : e ∈ entries) :
    Walked layout root files (directory ++ slash :: e.1) e.2 := by
  have hkey : pathKey (directory ++ slash :: e.1) = pathKey directory ++ [e.1.map lower] := by
    rw [pathKey_append, pathKey_name (hformed.entry he).1]
  constructor
  · intro names bytes hnode
    obtain ⟨f, hf, path, hpath, hsame⟩ := h.only _ bytes ((find_cons_iff hformed).mpr ⟨e, he, rfl, hnode⟩)
    exact ⟨f, hf, path, hpath, by rw [hsame, hkey, List.append_assoc, List.singleton_append]⟩
  · intro names below hnode
    obtain ⟨hshort, habove⟩ := h.directories _ below ((find_cons_iff hformed).mpr ⟨e, he, rfl, hnode⟩)
    refine ⟨length_extend_cons directory e.1 names ▸ hshort, fun _ => ?_⟩
    rw [hkey, List.append_assoc, List.singleton_append]
    exact habove (by simp)

theorem length_of_key {a b : Wide} (h : pathKey a = pathKey b) : a.length = b.length := by
  simpa using congrArg List.length (key_eq_iff.mp h)

theorem foldl_files (entries : List (Wide × Node)) (count : Nat) :
    entries.foldl (fun count e => count + (e.2.files (List.map lower)).length) count =
      count + (filesOf (List.map lower) entries).length := by
  induction entries generalizing count with
  | nil => rfl
  | cons e rest ih =>
      rw [List.foldl_cons, ih, filesOf, List.length_append, List.length_map, Nat.add_assoc]

theorem walk_complete (hall : ∀ f ∈ files, (filePath layout root f).isSome = true) (hfaults : w.faults = [])
    (depth : Nat) (directory : Wide) (entries : List (Wide × Node)) (count : Nat)
    (hdepth : maxPath ≤ depth + directory.length) (hin : pathKey layout.binaries <+: pathKey directory)
    (hlookup : w.disk.lookup directory = some (.directory entries))
    (hwalked : Walked layout root files directory (.directory entries)) :
    walk layout root files depth directory count w = (some (count + (filesOf (List.map lower) entries).length), w) := by
  have hroom : directory.length + 3 < maxPath := by
    simpa [extend] using (hwalked.directories [] entries (find_nil _)).1
  induction depth generalizing directory entries count with
  | zero => omega
  | succ depth ih =>
      have hformed := w.disk.formed.found hlookup
      have hpin : pin directory layout.binaries true w = (some (), w) := pin_run hfaults hin (by omega) hlookup rfl
      unfold walk
      rw [bind_run hpin, bind_run (check_run hroom),
        bind_run (listing_run hfaults hlookup), ← foldl_files]
      refine foldlM_run (fun count e he => ?_) count
      have hkey : pathKey (directory ++ slash :: e.1) = pathKey directory ++ [e.1.map lower] := by
        rw [pathKey_append, pathKey_name (hformed.entry he).1]
      have hentry : (Tree.directory entries).find (List.map lower) [e.1.map lower] = some e.2 :=
        (find_cons_iff hformed).mpr ⟨e, he, rfl, find_nil _⟩
      rw [bind_run (os_run hfaults)]
      cases hnode : e.2 with
      | file bytes =>
          obtain ⟨f, hf, path, hpath, hsame⟩ := hwalked.only _ bytes (hnode ▸ hentry)
          rw [← hkey] at hsame
          have hlength := length_of_key hsame
          have hmatch : (firstPath layout root (wcsicmp (directory ++ slash :: e.1)) files).isSome = true :=
            firstPath_isSome hall ⟨f, hf, path, hpath, (wcsicmp_iff _ _).mpr hsame.symm⟩
          rw [List.length_append, List.length_cons] at hlength
          have hshort := (filePath_some hpath).2
          rw [bind_run (check_run (by omega)), if_neg (by simp [isDirectory]), bind_run (check_run hmatch)]
          rfl
      | directory below =>
          obtain ⟨hshort, habove⟩ := hwalked.directories _ below (hnode ▸ hentry)
          obtain ⟨f, hf, path, hpath, hleading, hne⟩ := habove (by simp)
          rw [← hkey] at hleading hne
          have hexpected : expectedDirectory layout root (directory ++ slash :: e.1) files = true := by
            refine firstPath_isSome hall ⟨f, hf, path, hpath, ?_⟩
            simpa [wcsicmp_iff, within_iff_key, Bool.eq_false_iff] using ⟨hleading, hne⟩
          have hbelow := hwalked.entry hformed he
          have hlookup' := lookup_entry hlookup he
          rw [hnode] at hbelow hlookup'
          have hlength : (directory ++ slash :: e.1).length + 3 < maxPath := by
            simpa [extend] using hshort
          have hin' : pathKey layout.binaries <+: pathKey (directory ++ slash :: e.1) :=
            hin.trans (hkey ▸ List.prefix_append _ _)
          rw [List.length_append, List.length_cons] at hlength
          have hkind : isDirectory (some (.directory below)) = true := rfl
          rw [bind_run (check_run (by omega)), if_pos hkind, bind_run (check_run hexpected)]
          refine ih _ below count ?_ hin' hlookup' hbelow ?_
          · rw [List.length_append, List.length_cons]
            omega
          · rw [List.length_append, List.length_cons]
            exact hlength

theorem content_run {bytes : Bytes} (h : w.disk.lookup path = some (.file bytes)) :
    content path w = (some bytes, w) := by
  unfold content
  rw [bind_run current_run, h]
  rfl

theorem hashFile_run {source : Bytes} {expected : Block 32} {size : Nat} (hfaults : w.faults = [])
    (hsize : source.length = size) (hhash : sys.sha256 source = expected) :
    hashFile sys source none expected size w = (some (), w) := by
  unfold hashFile
  rw [bind_run (os_run hfaults), bind_run (check_run hsize), bind_run (os_run hfaults), bind_run (forM_run fun part _ => ?_),
    bind_run (check_run hhash), os_run hfaults]
  rw [bind_run (os_run hfaults)]
  rfl

theorem Exact.walked (h : Exact sys files node)
    (hpaths : ∀ f ∈ files, (filePath layout root f).isSome = true) (hroomy : Roomy root files) :
    Walked layout root files root node := by
  constructor
  · intro names bytes hnode
    obtain ⟨f, hf, rfl⟩ := h.only names bytes hnode
    obtain ⟨path, hpath⟩ := Option.isSome_iff_exists.mp (hpaths f hf)
    exact ⟨f, hf, path, hpath, filePath_key hpath⟩
  · intro names below hnode
    obtain ⟨f, hf, hleading, hne⟩ := h.directories names below hnode
    obtain ⟨path, hpath⟩ := Option.isSome_iff_exists.mp (hpaths f hf)
    refine ⟨hroomy f hf names hleading hne, fun _ => ⟨f, hf, path, hpath, ?_⟩⟩
    rw [filePath_key hpath]
    exact ⟨(List.prefix_append_right_inj _).mpr hleading, fun h => hne (List.append_cancel_left h)⟩

theorem Exact.count (h : Exact sys files node) (hformed : WellFormed (List.map lower) (slash ∉ ·) node)
    (hnodup : (files.map fileKey).Nodup) : (node.files (List.map lower)).length = files.length := by
  have hperm : (node.files (List.map lower)).Perm (files.map fileKey) := by
    refine (List.perm_ext_iff_of_nodup (files_nodup hformed) hnodup).mpr fun names => ?_
    rw [mem_files_iff hformed, List.mem_map]
    constructor
    · rintro ⟨bytes, hbytes⟩
      obtain ⟨f, hf, rfl⟩ := h.only names bytes hbytes
      exact ⟨f, hf, rfl⟩
    · rintro ⟨f, hf, rfl⟩
      obtain ⟨bytes, hbytes, -⟩ := h.present f hf
      exact ⟨bytes, hbytes⟩
  rw [hperm.length_eq, List.length_map]

theorem Exact.isDirectory (h : Exact sys files node) (hne : files ≠ []) :
    ∃ entries, node = .directory entries := by
  obtain ⟨f, hf⟩ := List.exists_mem_of_ne_nil files hne
  obtain ⟨bytes, hbytes, -⟩ := h.present f hf
  rw [← List.nil_append (fileKey f)] at hbytes
  obtain ⟨entries, hentries⟩ := find_above hbytes (List.splitOn_ne_nil _ _)
  exact ⟨entries, Option.some.inj ((find_nil node).symm.trans hentries)⟩

theorem verifyAt_complete (hne : files ≠ []) (hpaths : ∀ f ∈ files, (filePath layout root f).isSome = true)
    (hnodup : (files.map fileKey).Nodup) (hroomy : Roomy root files) (hin : pathKey layout.binaries <+: pathKey root)
    (hfaults : w.faults = []) (hlookup : w.disk.lookup root = some node) (hexact : Exact sys files node) :
    verifyAt sys layout root files none w = (some (), w) := by
  obtain ⟨entries, rfl⟩ := hexact.isDirectory hne
  have hwalk := walk_complete hpaths hfaults maxPath root entries 0 (Nat.le_add_right _ _) hin hlookup
    (hexact.walked hpaths hroomy)
  have hcount := hexact.count (w.disk.formed.found hlookup) hnodup
  rw [Tree.files] at hcount
  rw [Nat.zero_add, hcount] at hwalk
  unfold verifyAt
  rw [bind_run (forM_run fun f hf => ?_), bind_run hwalk, check_run rfl]
  obtain ⟨path, hpath⟩ := Option.isSome_iff_exists.mp (hpaths f hf)
  obtain ⟨bytes, hbytes, hsize, hhash⟩ := hexact.present f hf
  have hfile : w.disk.lookup path = some (.file bytes) := by
    rw [(filePath_some hpath).1, lookup_append, hlookup, Option.bind_some, hbytes]
  have hpin : pin path layout.binaries false w = (some (), w) :=
    pin_run hfaults (hin.trans (filePath_key hpath ▸ List.prefix_append _ _)) (filePath_some hpath).2 hfile rfl
  rw [bind_run (found_run hpath), bind_run hpin, bind_run (content_run hfile), bind_run (hashFile_run hfaults hsize hhash)]
  rfl

end Completeness

section Copying

variable {sys : Platform} {layout : Layout} {expanded stage release : Wide} {files : List ReleaseFile}

theorem copyFile_keeps (h : Beside stage release) (file : ReleaseFile) :
    Keeps (standing release) (copyFile sys layout expanded stage file) := by
  refine (Keeps.found _).bind fun source => Keeps.found_bind fun target htarget => ?_
  have hbeside : Beside target release := h.below (filePath_key htarget ▸ List.prefix_append _ _)
  rw [(filePath_some htarget).1] at hbeside ⊢
  refine (createParents_keeps h).bind fun _ => (standing_of_reads (pin_reads _ _ _)).bind fun _ => ?_
  refine (create_keeps hbeside _).bind fun _ => (standing_of_reads (content_reads _)).bind fun bytes => ?_
  exact (hashFile_keeps sys hbeside _ _ _).bind fun _ => standing_of_reads os_reads

theorem extract_keeps (h : Beside expanded release) (seen : List Nat) (entry : ArchiveEntry) :
    Keeps (standing release) (extract sys layout expanded files seen entry) := by
  have hos : Keeps (standing release) os := standing_of_reads os_reads
  refine hos.bind fun _ => (Keeps.check _).bind fun _ => (Keeps.found _).bind fun name => (Keeps.check _).bind fun _ => ?_
  split
  · exact (Keeps.check _).bind fun _ => (Keeps.check _).bind fun _ => .pure _
  · refine (Keeps.found _).bind fun i => (Keeps.found _).bind fun file => (Keeps.check _).bind fun _ => hos.bind fun _ => ?_
    refine (Keeps.found _).bind fun bytes => (Keeps.check _).bind fun _ => Keeps.found_bind fun target htarget => ?_
    have hbeside : Beside target release := h.below (filePath_key htarget ▸ List.prefix_append _ _)
    rw [(filePath_some htarget).1] at hbeside ⊢
    refine (createParents_keeps h).bind fun _ => (create_keeps hbeside _).bind fun _ => ?_
    exact (append_keeps hbeside _).bind fun _ => hos.bind fun _ => .pure _

theorem key_head (c : UInt16) (rest : Wide) (h : lower c ≠ slash) :
    ∃ s more, pathKey (c :: rest) = (lower c :: s) :: more := by
  obtain ⟨s, more, hs⟩ := List.exists_cons_of_ne_nil (List.splitOn_ne_nil slash (rest.map lower))
  refine ⟨s, more, ?_⟩
  rw [pathKey, key, List.map_cons, List.splitOn_cons_eq_if_modifyHead, if_neg (by simpa using h), hs]
  rfl

theorem beside_version {parent version rest : Wide} {c : UInt16} (hversion : releaseVersion version = true)
    (hc : lower c ≠ slash) (hother : ∀ d ∈ version.head?, lower c ≠ lower d) :
    Beside (parent ++ slash :: c :: rest) (parent ++ slash :: version) := by
  obtain ⟨s, more, hkey⟩ := key_head c rest hc
  have hgood := releaseVersion_good hversion
  obtain ⟨d, tail, rfl⟩ := List.exists_cons_of_ne_nil hgood.nonempty
  have hhead : lower c :: s ≠ (d :: tail).map lower := by
    intro hsame
    exact hother d rfl (List.cons.inj hsame).1
  unfold Beside
  rw [pathKey_append, pathKey_append, hkey, pathKey_name (not_mem_slash hgood), List.prefix_append_right_inj,
    List.prefix_append_right_inj]
  constructor
  · intro hp
    exact hhead (List.cons_prefix_cons.mp hp).1
  · intro hp
    exact hhead (List.cons_prefix_cons.mp hp).1.symm

theorem lookup_put_self {d : Disk} {parent leaf : Wide} {node : Node}
    (hnode : ∀ t ∈ some node, WellFormed (List.map lower) (slash ∉ ·) t) (hleaf : slash ∉ leaf)
    (h : isDirectory (d.lookup parent) = true) :
    (d.put (parent ++ slash :: leaf) (some node) hnode).lookup (parent ++ slash :: leaf) = some node := by
  have hnames : (parent ++ slash :: leaf).splitOn slash = parent.splitOn slash ++ [leaf] := by
    rw [List.splitOn_append_cons_self, List.splitOn_eq_singleton hleaf]
  cases hlookup : d.lookup parent with
  | none =>
      rw [hlookup] at h
      cases h
  | some above =>
      cases above with
      | file bytes =>
          rw [hlookup] at h
          cases h
      | directory entries =>
          change (d.tree.alter _ (fun _ => some node) ((parent ++ slash :: leaf).splitOn slash)).find _ (pathKey _) = _
          rw [← map_names, hnames]
          exact find_put d.tree ((congrArg _ (map_names parent)).trans hlookup)

end Copying

section Layouts

variable {sys : System} {layout : Layout} {files : List ReleaseFile}

theorem versionPart_short {value rest : Wide} (h : versionPart value = some rest) : value.length ≤ 9 + rest.length := by
  unfold versionPart at h
  split at h
  · cases h
  · next c tail =>
      split_ifs at h with hdigit hzero hlong
      obtain rfl := Option.some.inj h
      have hsplit := congrArg List.length (List.takeWhile_append_dropWhile (p := digit) (l := c :: tail))
      rw [List.length_append] at hsplit
      omega

theorem releaseVersion_short {value : Wide} (h : releaseVersion value = true) : value.length ≤ 29 := by
  simp only [releaseVersion, beq_iff_eq, Option.bind_eq_bind, Option.bind_eq_some_iff] at h
  obtain ⟨rest₄, ⟨rest₃, ⟨rest₂, ⟨rest₁, hmajor, hdot₁⟩, hminor⟩, hdot₂⟩, hpatch⟩ := h
  obtain rfl := versionDot_some hdot₁
  obtain rfl := versionDot_some hdot₂
  have hmajor := versionPart_short hmajor
  have hminor := versionPart_short hminor
  have hpatch := versionPart_short hpatch
  simp only [List.length_cons, List.length_nil] at hmajor hminor hpatch
  omega

theorem releaseVersion_head {value : Wide} (h : releaseVersion value = true) : ∀ c ∈ value.head?, digit c = true := by
  obtain ⟨major, minor, patch, hdigits, hne, -, rfl⟩ := releaseVersion_numbers h
  obtain ⟨d, more, rfl⟩ := List.exists_cons_of_ne_nil hne
  rintro c hc
  obtain rfl : d = c := by simpa using hc
  exact hdigits d (by simp)

/-- What an accepted inventory says of its layout. -/
structure Accepted (layout : Layout) (files : List ReleaseFile) (parent version : Wide) : Prop where
  contained : Contained layout version
  named : layout.release = parent ++ slash :: version
  split : rsplit slash layout.release = some (parent, version)
  nonempty : files ≠ []
  paths : ∀ f ∈ files, (filePath layout layout.release f).isSome = true
  distinct : (files.map fileKey).Nodup

theorem inventory_accepted (h : inventory sys layout files = true) : ∃ parent version, Accepted layout files parent version := by
  simp only [inventory, Bool.and_eq_true, Bool.not_eq_true', List.isEmpty_eq_false_iff] at h
  obtain ⟨⟨⟨hlayout, hne⟩, -⟩, hfiles⟩ := h
  obtain ⟨hpaths, hdistinct, -⟩ := inventoryFrom_distinct hfiles
  unfold layoutValid at hlayout
  split at hlayout
  · next parent version hsplit =>
      rw [beq_iff_eq] at hlayout
      have hcontained := fromRoots_contained hlayout
      have hgood := releaseVersion_good hcontained.accepted
      have hnamed : layout.release = extend slash layout.binaries ([wide "releases"] ++ [version]) := hcontained.named
      have hsplit' := hsplit
      rw [hnamed, rsplit_extend _ _ (not_mem_slash hgood)] at hsplit'
      obtain ⟨rfl, -⟩ := Prod.mk.inj (Option.some.inj hsplit')
      refine ⟨_, version, hcontained, ?_, hsplit, hne, hpaths, hdistinct⟩
      rw [hnamed, extend_append, extend_singleton]
  · cases hlayout

variable {parent version : Wide}

theorem Accepted.release_under (h : Accepted layout files parent version) :
    pathKey layout.binaries <+: pathKey layout.release := under_iff_key.mp h.contained.release.nested

abbrev stageOf (parent : Wide) (guid : Guid) : Wide := parent ++ slash :: (wide ".pending-" ++ guid.text)

theorem Accepted.beside_stage (h : Accepted layout files parent version) (guid : Guid) :
    Beside (stageOf parent guid) layout.release := by
  have hname : wide ".pending-" ++ guid.text = 46 :: (wide "pending-" ++ guid.text) := by
    rw [← List.cons_append]
    rfl
  rw [stageOf, hname, h.named]
  refine beside_version h.contained.accepted (by decide) fun d hd => ?_
  have hdigit := releaseVersion_head h.contained.accepted d hd
  rw [lower_of_not_letter (digit_not_letter hdigit)]
  rintro rfl
  revert hdigit
  decide

theorem Accepted.stage_longer (h : Accepted layout files parent version) (guid : Guid) :
    layout.release.length ≤ (stageOf parent guid).length := by
  have hshort := releaseVersion_short h.contained.accepted
  have hsize := guid.size
  have hname : (wide ".pending-").length = 9 := rfl
  rw [h.named, stageOf]
  simp only [List.length_append, List.length_cons]
  omega

theorem Beside.symm {a b : Wide} (h : Beside a b) : Beside b a := ⟨h.2, h.1⟩

theorem Accepted.beside_data (h : Accepted layout files parent version) (name : Wide) :
    Beside (layout.staging ++ slash :: name) layout.release := by
  have hroots : Beside layout.data layout.binaries := by
    unfold Beside
    rw [← under_iff_key, ← under_iff_key]
    exact ⟨h.contained.apart.2, h.contained.apart.1⟩
  have hstaging : pathKey layout.data <+: pathKey layout.staging := under_iff_key.mp h.contained.staging.nested
  have hname : pathKey layout.data <+: pathKey (layout.staging ++ slash :: name) := by
    rw [pathKey_append]
    exact hstaging.trans (List.prefix_append _ _)
  exact ((hroots.below hname).symm.below h.release_under).symm

theorem Roomy.shorter {root root' : Wide} (h : Roomy root files) (hlength : root'.length ≤ root.length) :
    Roomy root' files := by
  intro f hf names hleading hne
  have hroom := h f hf names hleading hne
  rw [extend, List.length_append] at hroom ⊢
  omega

end Layouts

def Holds (sys : Platform) (layout : Layout) (files : List ReleaseFile) (d : Disk) : Prop :=
  ∃ node, d.lookup layout.release = some node ∧ Exact sys files node

/-- The calls that publish a release. -/
inductive Publishing where
  | publish (archive : Wide) (sha256 : Block 32) (expanded : Wide) (admission : Option Admission) (guid : Guid)
  | unpackPublish (archive : Wide) (sha256 : Block 32) (admission : Option Admission) (payload guid : Guid)

def Publishing.call (sys : Platform) (layout : Layout) (files : List ReleaseFile) : Publishing → Call World Unit
  | .publish archive sha256 expanded admission guid => Release.publish sys layout archive sha256 expanded files admission guid
  | .unpackPublish archive sha256 admission payload guid =>
      Release.unpackPublish sys layout archive sha256 files admission payload guid

section Publication

variable {sys : Platform} {layout : Layout} {files : List ReleaseFile} {w : World}

theorem wp_moveFile {source target parent leaf : Wide} {node : Node} (hsplit : rsplit slash target = some (parent, leaf))
    (htarget : target = parent ++ slash :: leaf) (hleaf : slash ∉ leaf) (hbeside : Beside source target)
    (hsource : w.disk.lookup source = some node) :
    wp (moveFile source target) (fun _ w' => w'.disk.lookup target = some node)
      (fun w' => standing target w' = standing target w) w := by
  refine os_reads.wp_bind_lost (fun w' hw' => congrArg (fun d => d.lookup target) hw') fun _ w' hw' => ?_
  have hkept : standing target w' = standing target w := congrArg (fun d => d.lookup target) hw'
  rw [wp_bind, wp_current, wp_bind, wp_found]
  refine ⟨?_, fun _ => hkept⟩
  rintro ⟨p, l⟩ hfound
  obtain ⟨rfl, rfl⟩ := Prod.mk.inj (Option.some.inj (hsplit.symm.trans hfound))
  simp only [wp_bind, wp_check, wp_change]
  refine ⟨fun _ => ⟨fun hparent => ⟨fun _ => ?_, fun _ => hkept⟩, fun _ => hkept⟩, fun _ => hkept⟩
  rw [lookup_put _ hbeside]
  subst htarget
  have hnode : w'.disk.lookup source = some node := hw' ▸ hsource
  have hput (n : Option Node) (h : ∀ t ∈ n, WellFormed (List.map lower) (slash ∉ ·) t) (hn : n = some node) :
      (w'.disk.put (parent ++ slash :: leaf) n h).lookup (parent ++ slash :: leaf) = some node := by
    subst hn
    exact lookup_put_self h hleaf hparent
  exact hput _ _ hnode

structure Done (sys : Platform) (layout : Layout) (files : List ReleaseFile) (d : Disk) : Prop where
  holds : Holds sys layout files d
  roomy : Roomy layout.release files
  inventory : inventory sys.toSystem layout files = true

theorem publish_whole (archive : Wide) (sha256 : Block 32) (expanded : Wide) (admission : Option Admission) (guid : Guid)
    (w : World) : wp (publish sys layout archive sha256 expanded files admission guid)
      (fun _ w' => Done sys layout files w'.disk)
      (fun w' => standing layout.release w' = standing layout.release w) w := by
  have hos : Keeps (standing layout.release) os := standing_of_reads os_reads
  unfold publish
  rw [wp_bind, wp_check]
  refine ⟨fun hinventory => ?_, fun _ => rfl⟩
  obtain ⟨parent, version, haccepted⟩ := inventory_accepted hinventory
  refine (Keeps.check _).wp_bind_kept rfl fun _ w₁ hw₁ => ?_
  refine (Keeps.check _).wp_bind_kept hw₁ fun _ w₂ hw₂ => ?_
  refine (standing_of_reads (checkArchive_reads _ _ _ _ _)).wp_bind_kept hw₂ fun _ w₃ hw₃ => ?_
  refine hos.wp_bind_kept hw₃ fun _ w₄ hw₄ => ?_
  rw [wp_bind, wp_current, wp_ite]
  constructor
  · intro _
    refine wp_mono ((verifyAt_reads sys layout admission).wp (verifyAt_sound haccepted.nonempty admission w₄)) ?_ ?_
    · rintro _ w₅ ⟨⟨hw₅, hholds, hroomy⟩, -⟩
      exact ⟨hw₅ ▸ hholds, hroomy, hinventory⟩
    · intro w₅ hw₅
      exact (congrArg (fun d => d.lookup layout.release) hw₅).trans hw₄
  · intro _
    rw [wp_bind, wp_found]
    refine ⟨?_, fun _ => hw₄⟩
    rintro ⟨p, v⟩ hfound
    obtain ⟨rfl, rfl⟩ := Prod.mk.inj (Option.some.inj (haccepted.split.symm.trans hfound))
    have hbeside := haccepted.beside_stage guid
    refine (standing_of_reads (pin_reads _ _ _)).wp_bind_kept hw₄ fun _ w₅ hw₅ => ?_
    refine hos.wp_bind_kept hw₅ fun _ w₆ hw₆ => ?_
    refine (Keeps.check _).wp_bind_kept hw₆ fun _ w₇ hw₇ => ?_
    refine hos.wp_bind_kept hw₇ fun _ w₈ hw₈ => ?_
    refine (create_keeps hbeside _).wp_bind_kept hw₈ fun _ w₉ hw₉ => ?_
    refine (Keeps.forM fun f _ => copyFile_keeps hbeside f).wp_bind_kept hw₉ fun _ w₁₀ hw₁₀ => ?_
    rw [wp_bind]
    refine wp_mono ((verifyAt_reads sys layout admission).wp (verifyAt_sound haccepted.nonempty admission w₁₀)) ?_ ?_
    · rintro _ w₁₁ ⟨⟨hw₁₁, ⟨node, hnode, hexact⟩, hroomy⟩, -⟩
      have hgood := releaseVersion_good haccepted.contained.accepted
      refine wp_mono (wp_moveFile haccepted.split haccepted.named (not_mem_slash hgood) hbeside (hw₁₁ ▸ hnode)) ?_ ?_
      · intro _ w₁₂ hw₁₂
        exact ⟨⟨node, hw₁₂, hexact⟩, hroomy.shorter (haccepted.stage_longer guid), hinventory⟩
      · intro w₁₂ hw₁₂
        exact hw₁₂.trans ((congrArg (fun d => d.lookup layout.release) hw₁₁).trans hw₁₀)
    · intro w₁₁ hw₁₁
      exact (congrArg (fun d => d.lookup layout.release) hw₁₁).trans hw₁₀

theorem unpackPublish_whole (archive : Wide) (sha256 : Block 32) (admission : Option Admission) (payload guid : Guid)
    (w : World) : wp (unpackPublish sys layout archive sha256 files admission payload guid)
      (fun _ w' => Done sys layout files w'.disk)
      (fun w' => standing layout.release w' = standing layout.release w) w := by
  have hos : Keeps (standing layout.release) os := standing_of_reads os_reads
  unfold unpackPublish
  rw [wp_bind, wp_check]
  refine ⟨fun hinventory => ?_, fun _ => rfl⟩
  obtain ⟨parent, version, haccepted⟩ := inventory_accepted hinventory
  have hbeside := haccepted.beside_data (wide ".payload-" ++ payload.text)
  refine (Keeps.check _).wp_bind_kept rfl fun _ w₁ hw₁ => ?_
  refine (standing_of_reads (checkArchive_reads _ _ _ _ _)).wp_bind_kept hw₁ fun bytes w₂ hw₂ => ?_
  refine hos.wp_bind_kept hw₂ fun _ w₃ hw₃ => ?_
  refine (Keeps.found _).wp_bind_kept hw₃ fun entries w₄ hw₄ => ?_
  refine (Keeps.check _).wp_bind_kept hw₄ fun _ w₅ hw₅ => ?_
  refine (standing_of_reads (pin_reads _ _ _)).wp_bind_kept hw₅ fun _ w₆ hw₆ => ?_
  refine hos.wp_bind_kept hw₆ fun _ w₇ hw₇ => ?_
  refine (Keeps.check _).wp_bind_kept hw₇ fun _ w₈ hw₈ => ?_
  refine hos.wp_bind_kept hw₈ fun _ w₉ hw₉ => ?_
  refine (create_keeps hbeside _).wp_bind_kept hw₉ fun _ w₁₀ hw₁₀ => ?_
  refine (Keeps.foldlM (fun seen entry _ => extract_keeps hbeside seen entry) []).wp_bind_kept hw₁₀ fun seen w₁₁ hw₁₁ => ?_
  refine (Keeps.check _).wp_bind_kept hw₁₁ fun _ w₁₂ hw₁₂ => ?_
  exact hw₁₂ ▸ publish_whole archive sha256 _ admission guid w₁₂

theorem releaseVerify_holds {admission : Option Admission} (h : (releaseVerify sys layout files admission w).1 = some ()) :
    Holds sys layout files w.disk := by
  have hwp : wp (releaseVerify sys layout files admission) (fun _ _ => Holds sys layout files w.disk) (fun _ => True) w := by
    unfold releaseVerify
    rw [wp_bind, wp_check]
    refine ⟨fun hinventory => ?_, fun _ => trivial⟩
    obtain ⟨parent, version, haccepted⟩ := inventory_accepted hinventory
    refine wp_imp (verifyAt_sound haccepted.nonempty admission w) ?_
    rintro _ w' ⟨-, hholds, -⟩
    exact hholds
  exact ((wp_run _).mp hwp).1 () h

theorem Done.verified {d later : Disk} (h : Done sys layout files d) (hlater : Holds sys layout files later) :
    (releaseVerify sys layout files none ⟨later, []⟩).1 = some () := by
  obtain ⟨parent, version, haccepted⟩ := inventory_accepted h.inventory
  obtain ⟨node, hnode, hexact⟩ := hlater
  have hrun : verifyAt sys layout layout.release files none ⟨later, []⟩ = (some (), ⟨later, []⟩) :=
    verifyAt_complete haccepted.nonempty haccepted.paths haccepted.distinct h.roomy haccepted.release_under rfl hnode hexact
  unfold releaseVerify
  rw [bind_run (check_run h.inventory), hrun]

/-- A release is published whole or not at all, and a later verification succeeds exactly as long as the release holds
the files of its manifest and nothing else. -/
theorem release_whole_or_not (sys : Platform) (layout : Layout) (files : List ReleaseFile) (p : Publishing) (w : World) :
    ((p.call sys layout files w).1 = none →
      (p.call sys layout files w).2.disk.lookup layout.release = w.disk.lookup layout.release) ∧
    ((p.call sys layout files w).1 = some () → Holds sys layout files (p.call sys layout files w).2.disk ∧
      ∀ later : Disk, (releaseVerify sys layout files none ⟨later, []⟩).1 = some () ↔ Holds sys layout files later) ∧
    ∀ (admission : Option Admission) (later : World), (releaseVerify sys layout files admission later).1 = some () →
      Holds sys layout files later.disk := by
  have hwhole : wp (p.call sys layout files) (fun _ w' => Done sys layout files w'.disk)
      (fun w' => standing layout.release w' = standing layout.release w) w := by
    cases p with
    | publish archive sha256 expanded admission guid => exact publish_whole archive sha256 expanded admission guid w
    | unpackPublish archive sha256 admission payload guid => exact unpackPublish_whole archive sha256 admission payload guid w
  obtain ⟨hdone, hkept⟩ := (wp_run _).mp hwhole
  refine ⟨hkept, fun h => ⟨(hdone () h).holds, fun later => ?_⟩, fun admission later h => releaseVerify_holds h⟩
  exact ⟨fun hverified => releaseVerify_holds hverified, fun hlater => (hdone () h).verified hlater⟩

end Publication

end EtranProcessing.Deployment.ReleasePublication
