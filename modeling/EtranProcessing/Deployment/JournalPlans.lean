import EtranProcessing.Deployment.PlanCodecs
import EtranProcessing.Deployment.Records
import EtranProcessing.Deployment.ReleasePublication

namespace EtranProcessing.Deployment.JournalPlans

open Library.RawMemory Library.LittleEndian Library.Buffers Library.Segments
open Paths PathContainment Descriptors PlanFields SwitchRecords Records

def switchPlanKind : UInt32 := 10
def bootstrapPlanKind : UInt32 := 40

structure Codec where
  bytes : Bytes
  ok : Bool

section Writing

variable (toUtf8 : Wide → Option Bytes) (capacity : Nat)

def number (v width : Nat) (c : Codec) : Codec :=
  if capacity < c.bytes.length + width then { c with ok := false } else { c with bytes := c.bytes ++ toBytes width v }

def string (value : Wide) (c : Codec) : Codec :=
  match toUtf8 value with
  | none => { c with ok := false }
  | some b =>
      if capacity < c.bytes.length + 4 + (b.length + 1) then { c with ok := false }
      else { c with bytes := c.bytes ++ (toBytes 4 b.length ++ b) }

def copy (bytes : Bytes) (c : Codec) : Codec :=
  if capacity < c.bytes.length + bytes.length then { c with ok := false } else { c with bytes := c.bytes ++ bytes }

end Writing

/-- What the system answers to the codecs of the journal. -/
structure Host extends Windows where
  -- the conversion to UTF-8 refuses what is not well formed
  toUtf8 : Wide → Option Bytes
  -- whether a service is installed, nothing when this cannot be found out
  installed : Wide → Option Bool

/-- The two conversions are exact. -/
structure ExactUtf8 (host : Host) : Prop where
  back : ∀ w b, host.toUtf8 w = some b → host.utf8ToWide b = some w
  zeroFree : ∀ w b, host.toUtf8 w = some b → 0 ∉ w → 0 ∉ b
  nonempty : ∀ w b, host.toUtf8 w = some b → w ≠ [] → b ≠ []
  short : ∀ w b, host.toUtf8 w = some b → b.length ≤ 3 * w.length

/-- A string in an array of `capacity` units. -/
def Fits (capacity : Nat) (s : Wide) : Prop := 0 ∉ s ∧ s.length < capacity

instance (capacity : Nat) (s : Wide) : Decidable (Fits capacity s) := inferInstanceAs (Decidable (_ ∧ _))

section Switch

variable (host : Host)

/-- A plan as its C structure can hold it. -/
structure SwitchPlan extends ServiceSwitch where
  installed : Bool
  binaries_fits : Fits maxPath layout.binaries
  data_fits : Fits maxPath layout.data
  service_fits : Fits 32 service
  account_fits : Fits 256 account
  imagePath_fits : Fits 2048 imagePath
  after_fits : Fits 2048 after
  startType_lt : startType < 256 ^ 4
  size_lt : size < 256 ^ 8
  beforeSize_lt : beforeSize < 256 ^ 8

def encodeSwitch (version : Wide) (plan : ServiceSwitch) : Codec :=
  let c := number 16384 1 4 ⟨[], true⟩
  let c := string host.toUtf8 16384 plan.layout.binaries c
  let c := string host.toUtf8 16384 plan.layout.data c
  let c := string host.toUtf8 16384 version c
  let c := string host.toUtf8 16384 plan.service c
  let c := string host.toUtf8 16384 plan.account c
  let c := string host.toUtf8 16384 plan.imagePath c
  let c := string host.toUtf8 16384 plan.after c
  let c := number 16384 plan.startType 4 c
  let c := number 16384 plan.size 8 c
  let c := number 16384 plan.beforeSize 8 c
  copy 16384 (plan.sha256.bytes ++ plan.beforeSha256.bytes) c

/-- The sequence number of the saved plan, in a journal of the directories `roots`. -/
def saveSwitch (roots : Layout) (j : RecordLog) (plan : SwitchPlan) (fault : Option AppendFault) : Option Nat × RecordLog :=
  match rsplit slash plan.layout.release with
  | none => (none, j)
  | some (_, version) =>
      if fromRoots host.toSystem plan.layout.binaries plan.layout.data version ≠ some plan.layout ∨
          wcsicmp roots.binaries plan.layout.binaries = false ∨ wcsicmp roots.data plan.layout.data = false ∨
          plan.installed = false ∨ plan.service = [] ∨ plan.account = [] then (none, j)
      else
        let c := encodeSwitch host version plan.toServiceSwitch
        if c.ok = true then appendRecord j switchPlanKind c.bytes fault else (none, j)

def loadSwitch (roots : Layout) (j : RecordLog) (sequence : Nat) : Checked ServiceSwitch := do
  let bytes ← found (findRecord j switchPlanKind sequence)
  switchDecode host.toWindows roots bytes

end Switch

section Bootstrap

variable (host : Host)

/-- A service that is to be installed. -/
structure BootstrapService where
  service : Wide
  command : Wide
  startType : Nat
  size : Nat
  sha256 : Block 32

structure BootstrapPlan where
  layout : Layout
  services : List BootstrapService

def bootstrapServices : List (Wide × Wide) :=
  [(wide "Leo4Proxy", wide "leo4proxy"), (wide "mosquitto", wide "mosquitto"), (wide "L4Con", wide "l4con"),
    (wide "L4Superv", wide "l4superv")]

def commandValid (path command : Wide) : Bool :=
  let quoted := 34 :: path ++ [34]
  let suffix := command.drop quoted.length
  command.take quoted.length == quoted && (suffix.head?.all fun c => c == 32 || c == 9) && suffix.length ≤ 1601 &&
    suffix.all fun c => 32 ≤ c || c == 9

def serviceValid (layout : Layout) (expected : Wide × Wide) (s : BootstrapService) : Bool :=
  s.service.length < 32 && s.service == expected.1 && s.command.length < 2048 && (s.startType == 2 || s.startType == 3) &&
    (0 < s.size && s.size ≤ 512 * 1024 * 1024) &&
    (component layout.release expected.2 (expected.2 ++ wide ".exe")).any fun path => commandValid path s.command

def bootstrapValidate (plan : BootstrapPlan) : Bool :=
  [plan.layout.binaries, plan.layout.data, plan.layout.release, plan.layout.launchers, plan.layout.config, plan.layout.state,
      plan.layout.logs, plan.layout.operations, plan.layout.cache, plan.layout.staging].all (·.length < maxPath) &&
    ((rsplit slash plan.layout.release).any fun p =>
      fromRoots host.toSystem plan.layout.binaries plan.layout.data p.2 == some plan.layout) &&
    (plan.services.length == 4 && (bootstrapServices.zip plan.services).all fun p => serviceValid plan.layout p.1 p.2)

/-- A plan as its C structure can hold it. -/
structure HeldPlan extends BootstrapPlan where
  binaries_zero : 0 ∉ layout.binaries
  data_zero : 0 ∉ layout.data
  commands_zero : ∀ s ∈ services, 0 ∉ s.command
  startTypes_lt : ∀ s ∈ services, s.startType < 256 ^ 4
  sizes_lt : ∀ s ∈ services, s.size < 256 ^ 8

def encodeService (c : Codec) (s : BootstrapService) : Codec :=
  let c := string host.toUtf8 49152 s.service c
  let c := string host.toUtf8 49152 s.command c
  let c := number 49152 s.startType 4 c
  let c := number 49152 s.size 8 c
  copy 49152 s.sha256.bytes c

def encodeBootstrap (version : Wide) (plan : BootstrapPlan) : Codec :=
  let c := number 49152 1 4 ⟨[], true⟩
  let c := string host.toUtf8 49152 plan.layout.binaries c
  let c := string host.toUtf8 49152 plan.layout.data c
  let c := string host.toUtf8 49152 version c
  plan.services.foldl (encodeService host) c

def bootstrapSave (roots : Layout) (j : RecordLog) (plan : HeldPlan) (fault : Option AppendFault) : Option Nat × RecordLog :=
  if bootstrapValidate host plan.toBootstrapPlan = false ∨ wcsicmp plan.layout.binaries roots.binaries = false ∨
      wcsicmp plan.layout.data roots.data = false then (none, j)
  else if (plan.services.all fun s => host.installed s.service == some false) = false then (none, j)
  else
    match rsplit slash plan.layout.release with
    | none => (none, j)
    | some (_, version) =>
        let c := encodeBootstrap host version plan.toBootstrapPlan
        if c.ok = true then appendRecord j bootstrapPlanKind c.bytes fault else (none, j)

theorem length_zeros : (List.replicate 32 (0 : UInt8)).length = 32 := List.length_replicate

def readService (b : Bytes) (c : Reader) : Checked (BootstrapService × Reader) := do
  let (service, c) ← switchString host.toWindows b 32 c
  let (command, c) ← switchString host.toWindows b 2048 c
  let (startType, c) ← switchNumber b 4 c
  let (size, c) ← switchNumber b 8 c
  if c.ok = false ∨ b.length < c.place + 32 then
    pure (⟨service, command, startType, size, ⟨List.replicate 32 0, length_zeros⟩⟩, { c with ok := false })
  else do
    let sha256 ← readBlock b c.place 32
    pure (⟨service, command, startType, size, sha256⟩, { c with place := c.place + 32 })

def readServices (b : Bytes) : Nat → Reader → Checked (List BootstrapService × Reader)
  | 0, c => pure ([], c)
  | n + 1, c => do
      let (s, c) ← readService host b c
      let (rest, c) ← readServices b n c
      pure (s :: rest, c)

def bootstrapLoad (roots : Layout) (j : RecordLog) (sequence : Nat) : Checked BootstrapPlan := do
  let b ← found (findRecord j bootstrapPlanKind sequence)
  let (version, c) ← switchNumber b 4 ⟨0, true⟩
  let c := if version = 1 then c else { c with ok := false }
  let (binaries, c) ← switchString host.toWindows b maxPath c
  let (data, c) ← switchString host.toWindows b maxPath c
  let (release, c) ← switchString host.toWindows b 32 c
  let (services, c) ← readServices host b 4 c
  require (c.ok = true ∧ c.place = b.length)
  let layout ← found (fromRoots host.toSystem binaries data release)
  require (wcsicmp layout.data roots.data = true ∧ wcsicmp layout.binaries roots.binaries = true ∧
    bootstrapValidate host ⟨layout, services⟩ = true)
  pure ⟨layout, services⟩

end Bootstrap

def stored (b : Bytes) : Bytes := toBytes 4 b.length ++ b

section Codecs

variable {host : Host} {win : Windows} {capacity v width : Nat} {c c' : Codec} {value : Wide} {b rest : Bytes} {r r' : Reader}

theorem number_ok (h : (number capacity v width c).ok = true) :
    c.ok = true ∧ (number capacity v width c).bytes = c.bytes ++ toBytes width v ∧
      (number capacity v width c).bytes.length ≤ capacity := by
  unfold number at h ⊢
  split at h
  next => exact absurd h Bool.false_ne_true
  next hroom =>
    rw [if_neg hroom]
    refine ⟨h, rfl, ?_⟩
    rw [List.length_append, length_toBytes]
    omega

theorem string_ok (h : (string host.toUtf8 capacity value c).ok = true) :
    ∃ u, host.toUtf8 value = some u ∧ c.ok = true ∧ (string host.toUtf8 capacity value c).bytes = c.bytes ++ stored u := by
  unfold string at h ⊢
  cases hu : host.toUtf8 value with
  | none =>
      rw [hu] at h
      exact absurd h Bool.false_ne_true
  | some u =>
      rw [hu] at h
      dsimp only at h ⊢
      split at h
      next => exact absurd h Bool.false_ne_true
      next hroom =>
        rw [if_neg hroom]
        exact ⟨u, rfl, h, rfl⟩

theorem copy_ok {bytes : Bytes} (h : (copy capacity bytes c).ok = true) :
    c.ok = true ∧ (copy capacity bytes c).bytes = c.bytes ++ bytes ∧ (copy capacity bytes c).bytes.length ≤ capacity := by
  unfold copy at h ⊢
  split at h
  next => exact absurd h Bool.false_ne_true
  next hroom =>
    rw [if_neg hroom]
    refine ⟨h, rfl, ?_⟩
    rw [List.length_append]
    omega

/-- The reader has done well so far and has `rest` before it. -/
structure Before (b : Bytes) (r : Reader) (rest : Bytes) : Prop where
  ok : r.ok = true
  inside : r.place ≤ b.length
  rest : b.drop r.place = rest

theorem Before.length {part : Bytes} (h : Before b r (part ++ rest)) : r.place + part.length ≤ b.length := by
  have hlength := congrArg List.length h.rest
  rw [List.length_drop, List.length_append] at hlength
  have := h.inside
  omega

theorem Before.slice {part : Bytes} (h : Before b r (part ++ rest)) : slice b r.place part.length = part := by
  rw [Library.Buffers.slice, h.rest, List.take_left]

theorem Before.skip {part : Bytes} (h : Before b r (part ++ rest)) :
    Before b { r with place := r.place + part.length } rest := by
  refine ⟨h.ok, h.length, ?_⟩
  rw [← List.drop_drop, h.rest, List.drop_left]

theorem Before.number (h : Before b r (toBytes width v ++ rest)) (hv : v < 256 ^ width) :
    ∃ r', switchNumber b width r = .done (v, r') ∧ Before b r' rest := by
  have hlength := h.length
  have hslice := h.slice
  have hskip := h.skip
  rw [length_toBytes] at hlength hslice hskip
  refine ⟨_, ?_, hskip⟩
  rw [switchNumber, if_neg (Nat.not_lt_of_le hlength)]
  exact bind_done (numberAt_eq_done.mpr ⟨hlength, hv, hslice⟩) rfl

theorem Before.string (exact : ExactUtf8 host) {u : Bytes} (h : Before b r (stored u ++ rest))
    (hu : host.toUtf8 value = some u) (hne : value ≠ []) (hfits : Fits capacity value) (hsmall : capacity ≤ 2048) :
    ∃ r', switchString host.toWindows b capacity r = .done (value, r') ∧ Before b r' rest := by
  have hshort := exact.short value u hu
  have hlt := hfits.2
  rw [stored, List.append_assoc] at h
  obtain ⟨r₁, hnumber, h₁⟩ := h.number (by omega)
  have hfilled : u.length ≠ 0 := fun hzero => exact.nonempty value u hu hne (List.length_eq_zero_iff.mp hzero)
  refine ⟨_, ?_, h₁.skip⟩
  rw [switchString]
  refine bind_done hnumber ?_
  dsimp only
  rw [if_neg (not_or.mpr ⟨by simp [h₁.ok], by omega⟩), switchText]
  refine bind_done (minus_eq_done.mpr ⟨h₁.inside, rfl⟩) ?_
  have hroom := h₁.length
  rw [if_neg (by omega)]
  refine bind_done (readAt_eq_done.mpr ⟨hroom, h₁.slice⟩) ?_
  rw [if_neg (exact.zeroFree value u hu hfits.1), exact.back value u hu]
  dsimp only
  rw [if_neg (not_or.mpr ⟨hne, by omega⟩)]
  rfl

theorem Before.block {n : Nat} {block : Block n} (h : Before b r (block.bytes ++ rest)) :
    readBlock b r.place n = .done block ∧ Before b { r with place := r.place + n } rest := by
  have hlength := h.length
  have hslice := h.slice
  have hskip := h.skip
  rw [block.size] at hlength hslice hskip
  exact ⟨readBlock_eq_done.mpr ⟨hlength, hslice⟩, hskip⟩

theorem number_kept (h : switchNumber b width r = .done (v, r')) (hok : r'.ok = true) : r.ok = true := by
  unfold switchNumber at h
  split at h
  next =>
    cases h
    exact absurd hok Bool.false_ne_true
  next =>
    obtain ⟨n, -, hn⟩ := bind_eq_done.mp h
    cases hn
    exact hok

theorem string_kept (h : switchString win b capacity r = .done (value, r')) (hok : r'.ok = true) :
    r.ok = true ∧ value ≠ [] := by
  rw [switchString] at h
  obtain ⟨⟨n, r₁⟩, hnumber, h⟩ := bind_eq_done.mp h
  dsimp only at h
  split at h
  next =>
    cases h
    exact absurd hok Bool.false_ne_true
  next hgood =>
    rw [not_or, Bool.not_eq_false] at hgood
    refine ⟨number_kept hnumber hgood.1, ?_⟩
    rw [switchText] at h
    obtain ⟨left, -, h⟩ := bind_eq_done.mp h
    split at h
    next =>
      cases h
      exact absurd hok Bool.false_ne_true
    obtain ⟨bytes, -, h⟩ := bind_eq_done.mp h
    split at h
    next =>
      cases h
      exact absurd hok Bool.false_ne_true
    split at h
    next =>
      cases h
      exact absurd hok Bool.false_ne_true
    next text _ =>
      split at h
      next =>
        cases h
        exact absurd hok Bool.false_ne_true
      next hfits =>
        cases h
        exact (not_or.mp hfits).1

end Codecs

section Journals

variable {host : Host} {roots : Layout} {j j' k : RecordLog} {kind : UInt32} {bytes : Bytes} {fault : Option AppendFault}
  {sequence : Nat}

theorem fromRoots_version {sys : System} {binaries data version : Wide} {layout : Layout}
    (h : fromRoots sys binaries data version = some layout) : Fits 32 version ∧ version ≠ [] := by
  unfold fromRoots at h
  split at h
  next => cases h
  next hversion =>
    rw [Bool.not_eq_false] at hversion
    refine ⟨⟨fun hzero => ?_, ?_⟩, ?_⟩
    · rcases version_chars hversion 0 hzero with hdigit | hdot
      · exact absurd hdigit (by decide)
      · exact absurd hdot (by decide)
    · have := ReleasePublication.releaseVersion_short hversion
      omega
    · rintro rfl
      exact absurd hversion (by decide)

theorem absoluteRoot_ne {sys : System} {value out : Wide} (h : absoluteRoot sys value = some out) : value ≠ [] := by
  rintro rfl
  simp [absoluteRoot, maxPath] at h

theorem fromRoots_roots {sys : System} {binaries data version : Wide} {layout : Layout}
    (h : fromRoots sys binaries data version = some layout) : binaries ≠ [] ∧ data ≠ [] := by
  unfold fromRoots at h
  split at h
  next => cases h
  next =>
    simp only [Option.bind_eq_bind, Option.bind_eq_some_iff] at h
    obtain ⟨out, hbinaries, out', hdata, -⟩ := h
    exact ⟨absoluteRoot_ne hbinaries, absoluteRoot_ne hdata⟩

theorem wcsicmp_symm {a b : Wide} (h : wcsicmp a b = true) : wcsicmp b a = true := by
  rw [wcsicmp, beq_iff_eq] at h ⊢
  exact h.symm

end Journals

section Switches

variable {host : Host} {roots : Layout} {plan : ServiceSwitch} {version : Wide} {b : Bytes}

theorem encodeSwitch_ok (h : (encodeSwitch host version plan).ok = true) :
    ∃ binaries data release service account imagePath after,
      host.toUtf8 plan.layout.binaries = some binaries ∧ host.toUtf8 plan.layout.data = some data ∧
      host.toUtf8 version = some release ∧ host.toUtf8 plan.service = some service ∧
      host.toUtf8 plan.account = some account ∧ host.toUtf8 plan.imagePath = some imagePath ∧
      host.toUtf8 plan.after = some after ∧ (encodeSwitch host version plan).bytes.length ≤ 16384 ∧
      (encodeSwitch host version plan).bytes = toBytes 4 1 ++ (stored binaries ++ (stored data ++ (stored release ++
        (stored service ++ (stored account ++ (stored imagePath ++ (stored after ++ (toBytes 4 plan.startType ++
        (toBytes 8 plan.size ++ (toBytes 8 plan.beforeSize ++ (plan.sha256.bytes ++ plan.beforeSha256.bytes))))))))))) := by
  unfold encodeSwitch at h ⊢
  obtain ⟨h, hcopy, hlength⟩ := copy_ok h
  obtain ⟨h, hbefore, -⟩ := number_ok h
  obtain ⟨h, hsize, -⟩ := number_ok h
  obtain ⟨h, hstart, -⟩ := number_ok h
  obtain ⟨after, hafter, h, wafter⟩ := string_ok h
  obtain ⟨imagePath, himage, h, wimage⟩ := string_ok h
  obtain ⟨account, haccount, h, waccount⟩ := string_ok h
  obtain ⟨service, hservice, h, wservice⟩ := string_ok h
  obtain ⟨release, hrelease, h, wrelease⟩ := string_ok h
  obtain ⟨data, hdata, h, wdata⟩ := string_ok h
  obtain ⟨binaries, hbinaries, h, wbinaries⟩ := string_ok h
  obtain ⟨-, wversion, -⟩ := number_ok h
  refine ⟨binaries, data, release, service, account, imagePath, after, hbinaries, hdata, hrelease, hservice, haccount,
    himage, hafter, hlength, ?_⟩
  rw [hcopy, hbefore, hsize, hstart, wafter, wimage, waccount, wservice, wrelease, wdata, wbinaries, wversion]
  simp only [List.nil_append, List.append_assoc]

theorem switchDecode_commands (h : switchDecode host.toWindows roots b = .done plan) :
    plan.imagePath ≠ [] ∧ plan.after ≠ [] := by
  rw [switchDecode] at h
  obtain ⟨-, h⟩ := of_require_done h
  obtain ⟨⟨n, r⟩, -, h⟩ := bind_eq_done.mp h
  obtain ⟨⟨binaries, r₁⟩, -, h⟩ := bind_eq_done.mp h
  obtain ⟨⟨data, r₂⟩, -, h⟩ := bind_eq_done.mp h
  obtain ⟨⟨release, r₃⟩, -, h⟩ := bind_eq_done.mp h
  obtain ⟨⟨service, r₄⟩, -, h⟩ := bind_eq_done.mp h
  obtain ⟨⟨account, r₅⟩, -, h⟩ := bind_eq_done.mp h
  obtain ⟨⟨imagePath, r₆⟩, himage, h⟩ := bind_eq_done.mp h
  obtain ⟨⟨after, r₇⟩, hafter, h⟩ := bind_eq_done.mp h
  obtain ⟨⟨startType, r₈⟩, hstart, h⟩ := bind_eq_done.mp h
  obtain ⟨⟨size, r₉⟩, hsize, h⟩ := bind_eq_done.mp h
  obtain ⟨⟨beforeSize, r₁₀⟩, hbefore, h⟩ := bind_eq_done.mp h
  obtain ⟨⟨hok, -⟩, h⟩ := of_require_done h
  have hok₇ := number_kept hstart (number_kept hsize (number_kept hbefore hok))
  obtain ⟨hok₆, hafterNe⟩ := string_kept hafter hok₇
  obtain ⟨-, himageNe⟩ := string_kept himage hok₆
  obtain ⟨sha256, -, h⟩ := bind_eq_done.mp h
  obtain ⟨beforeSha256, -, h⟩ := bind_eq_done.mp h
  obtain ⟨layout, -, h⟩ := bind_eq_done.mp h
  obtain ⟨-, h⟩ := of_require_done h
  cases h
  exact ⟨himageNe, hafterNe⟩

theorem switchDecode_encode (exact : ExactUtf8 host) (plan : SwitchPlan)
    (hlayout : fromRoots host.toSystem plan.layout.binaries plan.layout.data version = some plan.layout)
    (hbinaries : wcsicmp roots.binaries plan.layout.binaries = true) (hdata : wcsicmp roots.data plan.layout.data = true)
    (hservice : plan.service ≠ []) (haccount : plan.account ≠ []) (himage : plan.imagePath ≠ []) (hafter : plan.after ≠ [])
    (hok : (encodeSwitch host version plan.toServiceSwitch).ok = true) :
    switchDecode host.toWindows roots (encodeSwitch host version plan.toServiceSwitch).bytes = .done plan.toServiceSwitch := by
  obtain ⟨binaries, data, release, service, account, imagePath, after, ubinaries, udata, urelease, uservice, uaccount,
    uimage, uafter, hlength, hbytes⟩ := encodeSwitch_ok hok
  generalize (encodeSwitch host version plan.toServiceSwitch).bytes = b at hlength hbytes
  obtain ⟨hversion, hversionNe⟩ := fromRoots_version hlayout
  obtain ⟨hbinariesNe, hdataNe⟩ := fromRoots_roots hlayout
  have hfirst : Before b ⟨0, true⟩ (toBytes 4 1 ++ _) := ⟨rfl, Nat.zero_le _, hbytes⟩
  obtain ⟨r, e, h⟩ := hfirst.number (by decide)
  obtain ⟨r₁, e₁, h⟩ := h.string exact ubinaries hbinariesNe plan.binaries_fits (by decide)
  obtain ⟨r₂, e₂, h⟩ := h.string exact udata hdataNe plan.data_fits (by decide)
  obtain ⟨r₃, e₃, h⟩ := h.string exact urelease hversionNe hversion (by decide)
  obtain ⟨r₄, e₄, h⟩ := h.string exact uservice hservice plan.service_fits (by decide)
  obtain ⟨r₅, e₅, h⟩ := h.string exact uaccount haccount plan.account_fits (by decide)
  obtain ⟨r₆, e₆, h⟩ := h.string exact uimage himage plan.imagePath_fits (by decide)
  obtain ⟨r₇, e₇, h⟩ := h.string exact uafter hafter plan.after_fits (by decide)
  obtain ⟨r₈, e₈, h⟩ := h.number plan.startType_lt
  obtain ⟨r₉, e₉, h⟩ := h.number plan.size_lt
  obtain ⟨r₁₀, e₁₀, h⟩ := h.number plan.beforeSize_lt
  have hend : r₁₀.place + 64 = b.length := by
    have hrest := congrArg List.length h.rest
    rw [List.length_drop, List.length_append, plan.sha256.size, plan.beforeSha256.size] at hrest
    have := h.inside
    omega
  have hok := h.ok
  obtain ⟨e₁₁, h⟩ := h.block
  rw [← List.append_nil plan.beforeSha256.bytes] at h
  obtain ⟨e₁₂, -⟩ := h.block
  rw [switchDecode]
  refine require_done hlength (bind_done e ?_)
  refine bind_done e₁ (bind_done e₂ (bind_done e₃ (bind_done e₄ (bind_done e₅ (bind_done e₆ (bind_done e₇ ?_))))))
  refine bind_done e₈ (bind_done e₉ (bind_done e₁₀ (require_done ⟨hok, hend⟩ (bind_done e₁₁ (bind_done e₁₂ ?_)))))
  refine bind_done (found_eq_done.mpr hlayout) (require_done ⟨wcsicmp_symm hdata, wcsicmp_symm hbinaries⟩ rfl)

theorem saved_switch_loads (exact : ExactUtf8 host) {j j' k : RecordLog} {plan : SwitchPlan} {fault : Option AppendFault}
    {sequence : Nat} (hsave : saveSwitch host roots j plan fault = (some sequence, j')) (hlive : k.poisoned = false)
    (hgrown : j'.records <+: k.records) :
    loadSwitch host roots k sequence = .done plan.toServiceSwitch ↔ plan.imagePath ≠ [] ∧ plan.after ≠ [] := by
  unfold saveSwitch at hsave
  split at hsave
  next => cases hsave
  next parent version hsplit =>
    split at hsave
    next => cases hsave
    next hgood =>
      dsimp only at hsave
      split at hsave
      next hok =>
        simp only [not_or, not_not, Bool.not_eq_false] at hgood
        obtain ⟨hlayout, hbinaries, hdata, -, hservice, haccount⟩ := hgood
        have hfound := found_appended hsave hlive hgrown
        constructor
        · intro hload
          obtain ⟨bytes, -, hdecode⟩ := bind_eq_done.mp hload
          exact switchDecode_commands hdecode
        · rintro ⟨himage, hafter⟩
          exact bind_done (found_eq_done.mpr hfound)
            (switchDecode_encode exact plan hlayout hbinaries hdata hservice haccount himage hafter hok)
      next => cases hsave

end Switches

section Bootstraps

variable {host : Host} {roots layout : Layout} {b rest : Bytes} {r : Reader} {c : Codec} {s : BootstrapService}

def StoredService (host : Host) (s : BootstrapService) (part : Bytes) : Prop :=
  ∃ u v, host.toUtf8 s.service = some u ∧ host.toUtf8 s.command = some v ∧
    part = stored u ++ (stored v ++ (toBytes 4 s.startType ++ (toBytes 8 s.size ++ s.sha256.bytes)))

theorem encodeService_ok (h : (encodeService host c s).ok = true) :
    ∃ part, StoredService host s part ∧ c.ok = true ∧ (encodeService host c s).bytes = c.bytes ++ part := by
  unfold encodeService at h ⊢
  obtain ⟨h, hcopy, -⟩ := copy_ok h
  obtain ⟨h, hsize, -⟩ := number_ok h
  obtain ⟨h, hstart, -⟩ := number_ok h
  obtain ⟨v, hv, h, wcommand⟩ := string_ok h
  obtain ⟨u, hu, h, wservice⟩ := string_ok h
  refine ⟨_, ⟨u, v, hu, hv, rfl⟩, h, ?_⟩
  rw [hcopy, hsize, hstart, wcommand, wservice]
  simp only [List.append_assoc]

theorem encodeServices_ok (services : List BootstrapService) (h : (services.foldl (encodeService host) c).ok = true) :
    ∃ parts, List.Forall₂ (StoredService host) services parts ∧ c.ok = true ∧
      (services.foldl (encodeService host) c).bytes = c.bytes ++ parts.flatten := by
  induction services generalizing c with
  | nil => exact ⟨[], .nil, h, (List.append_nil c.bytes).symm⟩
  | cons s services ih =>
      obtain ⟨parts, hparts, hfirst, hbytes⟩ := ih h
      obtain ⟨part, hpart, hok, hone⟩ := encodeService_ok hfirst
      refine ⟨part :: parts, .cons hpart hparts, hok, ?_⟩
      rw [List.foldl_cons, hbytes, hone, List.flatten_cons, List.append_assoc]

/-- What the reader needs of a service. -/
structure Readable (s : BootstrapService) : Prop where
  service : s.service ≠ [] ∧ Fits 32 s.service
  command : s.command ≠ [] ∧ Fits 2048 s.command
  startType : s.startType < 256 ^ 4
  size : s.size < 256 ^ 8

theorem Before.service (exact : ExactUtf8 host) {part : Bytes} (h : Before b r (part ++ rest))
    (hpart : StoredService host s part) (hs : Readable s) :
    ∃ r', readService host b r = .done (s, r') ∧ Before b r' rest := by
  obtain ⟨u, v, hu, hv, rfl⟩ := hpart
  simp only [List.append_assoc] at h
  obtain ⟨r₁, e₁, h⟩ := h.string exact hu hs.service.1 hs.service.2 (by decide)
  obtain ⟨r₂, e₂, h⟩ := h.string exact hv hs.command.1 hs.command.2 (by decide)
  obtain ⟨r₃, e₃, h⟩ := h.number hs.startType
  obtain ⟨r₄, e₄, h⟩ := h.number hs.size
  have hroom := h.length
  rw [s.sha256.size] at hroom
  have hok := h.ok
  obtain ⟨e₅, h⟩ := h.block
  refine ⟨_, ?_, h⟩
  rw [readService]
  refine bind_done e₁ (bind_done e₂ (bind_done e₃ (bind_done e₄ ?_)))
  dsimp only
  rw [if_neg (not_or.mpr ⟨by simp [hok], Nat.not_lt_of_le hroom⟩)]
  exact bind_done e₅ rfl

theorem Before.services (exact : ExactUtf8 host) (services : List BootstrapService) {parts : List Bytes}
    (h : Before b r (parts.flatten ++ rest)) (hparts : List.Forall₂ (StoredService host) services parts)
    (hs : ∀ s ∈ services, Readable s) :
    ∃ r', readServices host b services.length r = .done (services, r') ∧ Before b r' rest := by
  induction hparts generalizing r with
  | nil => exact ⟨r, rfl, h⟩
  | cons hpart _ ih =>
      rw [List.flatten_cons, List.append_assoc] at h
      obtain ⟨r₁, e₁, h⟩ := h.service exact hpart (hs _ List.mem_cons_self)
      obtain ⟨r₂, e₂, h⟩ := ih h fun s hmem => hs s (List.mem_cons_of_mem _ hmem)
      refine ⟨r₂, ?_, h⟩
      rw [List.length_cons, readServices]
      exact bind_done e₁ (bind_done e₂ rfl)

theorem commandValid_ne {path command : Wide} (h : commandValid path command = true) : command ≠ [] := by
  rintro rfl
  simp [commandValid] at h

theorem validated {plan : BootstrapPlan} (h : bootstrapValidate host plan = true) {plan' : HeldPlan}
    (heq : plan'.toBootstrapPlan = plan) :
    plan.services.length = 4 ∧ (∀ s ∈ plan.services, Readable s) ∧ plan.layout.binaries.length < maxPath ∧
      plan.layout.data.length < maxPath := by
  subst heq
  simp only [bootstrapValidate, Bool.and_eq_true, beq_iff_eq, List.all_eq_true, decide_eq_true_eq] at h
  obtain ⟨⟨hlengths, -⟩, hlength, hservices⟩ := h
  refine ⟨hlength, fun s hs => ?_, hlengths _ (by simp), hlengths _ (by simp)⟩
  obtain ⟨i, hi, rfl⟩ := List.getElem_of_mem hs
  have hnames : ∀ e ∈ bootstrapServices, e.1 ≠ [] ∧ 0 ∉ e.1 := by decide
  have hi' : i < bootstrapServices.length := by
    rw [hlength] at hi
    exact hi
  have hvalid := hservices (bootstrapServices[i], plan'.services[i]) (by
    rw [List.mem_iff_getElem]
    exact ⟨i, by simpa using ⟨hi', hi⟩, List.getElem_zip⟩)
  simp only [serviceValid, Bool.and_eq_true, beq_iff_eq, decide_eq_true_eq, Option.any_eq_true] at hvalid
  obtain ⟨⟨⟨⟨⟨hshort, hname⟩, hcommand⟩, -⟩, -⟩, path, -, hpath⟩ := hvalid
  have hnamed := hnames _ (List.getElem_mem hi')
  rw [← hname] at hnamed
  exact ⟨⟨hnamed.1, hnamed.2, hshort⟩, ⟨commandValid_ne hpath, plan'.commands_zero _ hs, hcommand⟩,
    plan'.startTypes_lt _ hs, plan'.sizes_lt _ hs⟩

theorem saved_bootstrap_loads (exact : ExactUtf8 host) {j j' k : RecordLog} {plan : HeldPlan} {fault : Option AppendFault}
    {sequence : Nat} (hsave : bootstrapSave host roots j plan fault = (some sequence, j')) (hlive : k.poisoned = false)
    (hgrown : j'.records <+: k.records) : bootstrapLoad host roots k sequence = .done plan.toBootstrapPlan := by
  unfold bootstrapSave at hsave
  split at hsave
  next => cases hsave
  next hgood =>
    split at hsave
    next => cases hsave
    next =>
      split at hsave
      next => cases hsave
      next parent version hsplit =>
        dsimp only at hsave
        split at hsave
        next hok =>
          simp only [not_or, Bool.not_eq_false] at hgood
          obtain ⟨hvalid, hbinaries, hdata⟩ := hgood
          have hfound := found_appended hsave hlive hgrown
          obtain ⟨hfour, hservices, hshortBinaries, hshortData⟩ := validated hvalid rfl
          have hlayout : fromRoots host.toSystem plan.layout.binaries plan.layout.data version = some plan.layout := by
            have hcanonical := hvalid
            simp only [bootstrapValidate, Bool.and_eq_true, hsplit, Option.any_some, beq_iff_eq] at hcanonical
            exact hcanonical.1.2
          obtain ⟨hversion, hversionNe⟩ := fromRoots_version hlayout
          obtain ⟨hbinariesNe, hdataNe⟩ := fromRoots_roots hlayout
          unfold encodeBootstrap at hok hfound
          obtain ⟨parts, hparts, h, hbytes⟩ := encodeServices_ok _ hok
          obtain ⟨release, urelease, h, wrelease⟩ := string_ok h
          obtain ⟨data, udata, h, wdata⟩ := string_ok h
          obtain ⟨binaries, ubinaries, h, wbinaries⟩ := string_ok h
          obtain ⟨-, wnumber, -⟩ := number_ok h
          rw [wrelease, wdata, wbinaries, wnumber] at hbytes
          simp only [List.nil_append, List.append_assoc] at hbytes
          generalize (plan.services.foldl (encodeService host) _).bytes = b at hfound hbytes
          rw [← List.append_nil parts.flatten] at hbytes
          have hfirst : Before b ⟨0, true⟩ (toBytes 4 1 ++ _) := ⟨rfl, Nat.zero_le _, hbytes⟩
          obtain ⟨r, e, h⟩ := hfirst.number (by decide)
          obtain ⟨r₁, e₁, h⟩ := h.string exact ubinaries hbinariesNe ⟨plan.binaries_zero, hshortBinaries⟩ (by decide)
          obtain ⟨r₂, e₂, h⟩ := h.string exact udata hdataNe ⟨plan.data_zero, hshortData⟩ (by decide)
          obtain ⟨r₃, e₃, h⟩ := h.string exact urelease hversionNe hversion (by decide)
          obtain ⟨r₄, e₄, h⟩ := h.services exact plan.services hparts hservices
          rw [hfour] at e₄
          have hend : r₄.place = b.length := by
            have hrest := congrArg List.length h.rest
            rw [List.length_drop, List.length_nil] at hrest
            have := h.inside
            omega
          rw [bootstrapLoad]
          refine bind_done (found_eq_done.mpr hfound) (bind_done e ?_)
          refine bind_done e₁ (bind_done e₂ (bind_done e₃ (bind_done e₄ (require_done ⟨h.ok, hend⟩ ?_))))
          exact bind_done (found_eq_done.mpr hlayout) (require_done ⟨hdata, hbinaries, hvalid⟩ rfl)
        next => cases hsave

end Bootstraps

/-- A saved switch plan is loaded again just when both of its commands are there, a saved bootstrap plan always. -/
theorem saved_plans_load {host : Host} (exact : ExactUtf8 host) (roots : Layout) (j : RecordLog) {j' k : RecordLog}
    (fault : Option AppendFault) (sequence : Nat) (hlive : k.poisoned = false) (hgrown : j'.records <+: k.records) :
    (∀ plan : SwitchPlan, saveSwitch host roots j plan fault = (some sequence, j') →
      (loadSwitch host roots k sequence = .done plan.toServiceSwitch ↔ plan.imagePath ≠ [] ∧ plan.after ≠ [])) ∧
    (∀ plan : HeldPlan, bootstrapSave host roots j plan fault = (some sequence, j') →
      bootstrapLoad host roots k sequence = .done plan.toBootstrapPlan) :=
  ⟨fun _ hsave => saved_switch_loads exact hsave hlive hgrown,
    fun _ hsave => saved_bootstrap_loads exact hsave hlive hgrown⟩

section Sample

def sampleHost : Host where
  toWindows := { PlanCodecs.sampleWindows with
    utf8ToWide := fun b => if b.all (· < 128) then some (b.map fun c => UInt16.ofNat c.toNat) else none }
  toUtf8 w := if w.all (· < 128) then some (w.map fun c => UInt8.ofNat c.toNat) else none
  installed _ := some false

theorem sample_exact : ExactUtf8 sampleHost := by
  have hcases : ∀ w b, sampleHost.toUtf8 w = some b → (∀ c ∈ w, c < 128) ∧ w.map (fun c => UInt8.ofNat c.toNat) = b := by
    intro w b h
    simpa [sampleHost] using h
  have hunit : ∀ c : UInt16, c < 128 → (UInt8.ofNat c.toNat).toNat = c.toNat := fun c hc => by
    have hlt : c.toNat < 128 := hc
    rw [UInt8.toNat_ofNat', Nat.mod_eq_of_lt (by omega)]
  constructor
  · intro w b h
    obtain ⟨hascii, rfl⟩ := hcases w b h
    have hsmall : (w.map fun c => UInt8.ofNat c.toNat).all (· < 128) = true := by
      simp only [List.all_eq_true, List.mem_map, decide_eq_true_eq]
      rintro _ ⟨c, hc, rfl⟩
      have := hascii c hc
      rw [UInt8.lt_iff_toNat_lt, hunit c this]
      exact this
    change (if _ then _ else _) = _
    rw [if_pos hsmall, List.map_map, Option.some.injEq]
    refine (List.map_congr_left fun c hc => ?_).trans (List.map_id w)
    rw [Function.comp_apply, hunit c (hascii c hc), UInt16.ofNat_toNat, id_eq]
  · intro w b h hzero hmem
    obtain ⟨hascii, rfl⟩ := hcases w b h
    obtain ⟨c, hc, heq⟩ := List.mem_map.mp hmem
    have hnat := hunit c (hascii c hc)
    rw [heq] at hnat
    have hnul : c = 0 := UInt16.toNat_inj.mp hnat.symm
    exact hzero (hnul ▸ hc)
  · intro w b h hne
    obtain ⟨-, rfl⟩ := hcases w b h
    simpa using hne
  · intro w b h
    obtain ⟨-, rfl⟩ := hcases w b h
    rw [List.length_map]
    omega

def sampleLayout : Layout :=
  (fromRoots sampleHost.toSystem (wide "C:\\Suite") (wide "C:\\Data") (wide "1.0.0")).getD
    ⟨[], [], [], [], [], [], [], [], [], []⟩

/-- A switch to a command. -/
def sampleSwitch (after : Wide) (hafter : Fits 2048 after) : SwitchPlan where
  layout := sampleLayout
  service := wide "L4Con"
  account := wide "LocalSystem"
  imagePath := wide "l4con.exe"
  after := after
  startType := 2
  size := 1
  beforeSize := 1
  sha256 := PlanCodecs.block 32
  beforeSha256 := PlanCodecs.block 32
  installed := true
  binaries_fits := by decide +kernel
  data_fits := by decide +kernel
  service_fits := by decide +kernel
  account_fits := by decide +kernel
  imagePath_fits := by decide +kernel
  after_fits := hafter
  startType_lt := by decide
  size_lt := by decide
  beforeSize_lt := by decide

def sampleService (p : Wide × Wide) : BootstrapService :=
  ⟨p.1, wide "\"C:\\Suite\\releases\\1.0.0\\" ++ p.2 ++ wide "\\" ++ p.2 ++ wide ".exe\" --run", 2, 1, PlanCodecs.block 32⟩

def sampleBootstrap : HeldPlan where
  layout := sampleLayout
  services := bootstrapServices.map sampleService
  binaries_zero := by decide +kernel
  data_zero := by decide +kernel
  commands_zero := by decide +kernel
  startTypes_lt := by decide +kernel
  sizes_lt := by decide +kernel

theorem saved_plans_load_sample :
    (∃ j, saveSwitch sampleHost sampleLayout ⟨[], false⟩ (sampleSwitch (wide "l4con.exe") (by decide +kernel)) none =
        (some 1, j) ∧
      loadSwitch sampleHost sampleLayout j 1 =
        .done (sampleSwitch (wide "l4con.exe") (by decide +kernel)).toServiceSwitch) ∧
    ∃ j, bootstrapSave sampleHost sampleLayout ⟨[], false⟩ sampleBootstrap none = (some 1, j) ∧
      bootstrapLoad sampleHost sampleLayout j 1 = .done sampleBootstrap.toBootstrapPlan := by
  constructor
  · generalize hplan : sampleSwitch (wide "l4con.exe") (by decide +kernel) = plan
    have hsaved : (saveSwitch sampleHost sampleLayout ⟨[], false⟩ plan none).1 = some 1 := by
      rw [← hplan]
      decide +kernel
    have hlive : (saveSwitch sampleHost sampleLayout ⟨[], false⟩ plan none).2.poisoned = false := by
      rw [← hplan]
      decide +kernel
    have hfilled : plan.imagePath ≠ [] ∧ plan.after ≠ [] := by
      rw [← hplan]
      decide +kernel
    generalize hresult : saveSwitch sampleHost sampleLayout ⟨[], false⟩ plan none = result at hsaved hlive ⊢
    obtain ⟨sequence, j⟩ := result
    obtain rfl : sequence = some 1 := hsaved
    exact ⟨j, rfl, ((saved_plans_load sample_exact sampleLayout ⟨[], false⟩ none 1 hlive (List.prefix_refl _)).1 plan
      hresult).mpr hfilled⟩
  · have hsaved : (bootstrapSave sampleHost sampleLayout ⟨[], false⟩ sampleBootstrap none).1 = some 1 := by decide +kernel
    have hlive : (bootstrapSave sampleHost sampleLayout ⟨[], false⟩ sampleBootstrap none).2.poisoned = false := by
      decide +kernel
    generalize hresult : bootstrapSave sampleHost sampleLayout ⟨[], false⟩ sampleBootstrap none = result at hsaved hlive ⊢
    obtain ⟨sequence, j⟩ := result
    obtain rfl : sequence = some 1 := hsaved
    exact ⟨j, rfl, (saved_plans_load sample_exact sampleLayout ⟨[], false⟩ none 1 hlive (List.prefix_refl _)).2 _ hresult⟩

/-- A plan without a command after the switch is saved and then lost. -/
theorem empty_command_lost : ∃ j,
    saveSwitch sampleHost sampleLayout ⟨[], false⟩ (sampleSwitch [] (by decide)) none = (some 1, j) ∧
      ∀ plan, loadSwitch sampleHost sampleLayout j 1 ≠ .done plan := by
  generalize hplan : sampleSwitch [] (by decide) = saved
  have hsaved : (saveSwitch sampleHost sampleLayout ⟨[], false⟩ saved none).1 = some 1 := by
    rw [← hplan]
    decide +kernel
  have hrefused : (match loadSwitch sampleHost sampleLayout
      (saveSwitch sampleHost sampleLayout ⟨[], false⟩ saved none).2 1 with
    | .refused => true
    | _ => false) = true := by
    rw [← hplan]
    decide +kernel
  generalize saveSwitch sampleHost sampleLayout ⟨[], false⟩ saved none = result at hsaved hrefused ⊢
  obtain ⟨sequence, j⟩ := result
  obtain rfl : sequence = some 1 := hsaved
  refine ⟨j, rfl, fun plan hload => ?_⟩
  rw [hload] at hrefused
  exact Bool.false_ne_true hrefused

end Sample

end EtranProcessing.Deployment.JournalPlans
