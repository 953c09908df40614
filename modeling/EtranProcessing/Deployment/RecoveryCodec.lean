import EtranProcessing.Deployment.SwitchRecords

namespace EtranProcessing.Deployment.RecoveryCodec

open Library.RawMemory Library.LittleEndian Library.Buffers Paths Descriptors PlanFields SwitchRecords

def configLimit : Nat := 65536
def planLimit : Nat := 160 * 1024
def autoStart : UInt32 := 2
def demandStart : UInt32 := 3

structure RecoveryPlan where
  operation : Block 16
  sequence : UInt64
  workerPid : UInt32
  recoveryMs : UInt32
  startType : UInt32
  workerCreated : Block 8
  supervisorPid : UInt32
  supervisorCreated : Block 8
  armedUtc : UInt64
  deadlineUtc : UInt64
  oldSize : UInt64
  newSize : UInt64
  oldSha256 : Block 32
  newSha256 : Block 32
  before : Text
  after : Text
  oldExists : Bool
  oldConfig : Bytes
  newConfig : Bytes
  configSd : Bytes
  deriving DecidableEq

def valid (win : Windows) (roots : Layout) (p : RecoveryPlan) : Checked Unit := do
  require (nonzero p.operation.bytes = true ∧ p.sequence ≠ 0 ∧ p.workerPid ≠ 0 ∧ p.supervisorPid ≠ 0 ∧
    nonzero p.supervisorCreated.bytes = true ∧ nonzero p.workerCreated.bytes = true ∧ p.armedUtc ≠ 0 ∧
    p.armedUtc < p.deadlineUtc ∧ p.recoveryMs ≠ 0 ∧ p.recoveryMs ≤ 300000 ∧
    (p.startType = autoStart ∨ p.startType = demandStart) ∧ p.oldSize ≠ 0 ∧ p.newSize ≠ 0 ∧
    nonzero p.oldSha256.bytes = true ∧ nonzero p.newSha256.bytes = true ∧
    p.oldConfig.length ≤ configLimit ∧ p.newConfig.length ≤ configLimit ∧ (p.oldExists = true ∨ p.oldConfig = []))
  policy win.toSecurity p.configSd
  let (old, oldSuffix) ← found (command win roots (wide "l4superv") p.before.units)
  let (candidate, newSuffix) ← found (command win roots (wide "l4superv") p.after.units)
  require (old ≠ candidate ∧ oldSuffix = newSuffix)

def magic : Bytes := [0x4c, 0x34, 0x52, 0x42, 0x4b, 0x30, 0x31, 0]

def planSize (p : RecoveryPlan) : Nat :=
  224 + (wideBytes p.before.units).length + (wideBytes p.after.units).length + p.oldConfig.length + p.newConfig.length +
    p.configSd.length

/-- The parts of a plan in the order of their offsets, from 0 to 192 and on. -/
def parts (p : RecoveryPlan) : List Bytes :=
  [magic, toBytes 4 (planSize p), store32 (if p.oldExists then 1 else 0), p.operation.bytes, store64 p.sequence,
    store32 p.workerPid, store32 p.recoveryMs, p.workerCreated.bytes, store64 p.armedUtc, store64 p.deadlineUtc,
    store64 p.oldSize, store64 p.newSize, toBytes 4 p.oldConfig.length, toBytes 4 p.newConfig.length,
    toBytes 4 p.configSd.length, store32 p.startType, toBytes 4 (wideBytes p.before.units).length,
    toBytes 4 (wideBytes p.after.units).length, store32 p.supervisorPid, p.supervisorCreated.bytes,
    -- the four bytes before the digests stay as they are allocated
    [0, 0, 0, 0], p.oldSha256.bytes, p.newSha256.bytes, wideBytes p.before.units, wideBytes p.after.units,
    p.oldConfig, p.newConfig, p.configSd]

def encode (win : Windows) (roots : Layout) (p : RecoveryPlan) : Checked Bytes := do
  valid win roots p
  pure (signedRecord win.sha256 (parts p))

def decode (win : Windows) (roots : Layout) (b : Bytes) : Checked RecoveryPlan := do
  require (224 ≤ b.length ∧ b.length ≤ planLimit)
  let tag ← readAt b 0 8
  let length ← u32At b 8
  let oldExists ← u32At b 12
  let reserved ← u32At b 124
  require (tag = magic ∧ length = b.length ∧ oldExists ≤ 1 ∧ reserved = 0)
  let old ← u32At b 104
  let newer ← u32At b 108
  let a ← u32At b 88
  let c ← u32At b 92
  let sd ← u32At b 96
  require (old ≠ 0 ∧ old < 4096 ∧ newer ≠ 0 ∧ newer < 4096 ∧ old % 2 = 0 ∧ newer % 2 = 0 ∧ a ≤ configLimit ∧
    c ≤ configLimit ∧ sd ≠ 0 ∧ sd ≤ 4096 ∧ 224 + old + newer + a + c + sd = b.length)
  let body ← minus b.length 32
  let signed ← readAt b 0 body
  let hash ← readAt b body 32
  require ((win.sha256 signed).bytes = hash)
  let operation ← readBlock b 16 16
  let sequence ← get64 b 32
  let workerPid ← get32 b 40
  let recoveryMs ← get32 b 44
  let workerCreated ← readBlock b 48 8
  let armedUtc ← get64 b 56
  let deadlineUtc ← get64 b 64
  let oldSize ← get64 b 72
  let newSize ← get64 b 80
  let startType ← get32 b 100
  let supervisorPid ← get32 b 112
  let supervisorCreated ← readBlock b 116 8
  let oldSha256 ← readBlock b 128 32
  let newSha256 ← readBlock b 160 32
  let before ← readAt b 192 old
  let after ← readAt b (192 + old) newer
  let before ← found (textOf before)
  let after ← found (textOf after)
  let oldConfig ← readAt b (192 + old + newer) a
  let newConfig ← readAt b (192 + old + newer + a) c
  let configSd ← readAt b (192 + old + newer + a + c) sd
  let p := ⟨operation, sequence, workerPid, recoveryMs, startType, workerCreated, supervisorPid, supervisorCreated, armedUtc,
    deadlineUtc, oldSize, newSize, oldSha256, newSha256, before, after, oldExists ≠ 0, oldConfig, newConfig, configSd⟩
  valid win roots p
  pure p

section Sound

variable {win : Windows} {roots : Layout}

theorem sound_valid (p : RecoveryPlan) : Sound (valid win roots p) fun _ => True := by
  rw [valid, sound_bind, sound_require]
  intro _
  refine .bind (sound_policy p.configSd) fun _ _ => ?_
  rw [sound_bind, sound_found]
  rintro ⟨old, oldSuffix⟩ _
  dsimp only
  rw [sound_bind, sound_found]
  rintro ⟨candidate, newSuffix⟩ _
  dsimp only
  rw [sound_require]
  exact fun _ => trivial

theorem sound_decode (b : Bytes) : Sound (decode win roots b) fun _ => True := by
  rw [decode, sound_bind, sound_require]
  rintro ⟨hsize, -⟩
  rw [sound_bind, sound_readAt]
  refine ⟨by omega, ?_⟩
  refine .bind (sound_u32At (by omega) fun _ => trivial) fun length _ => ?_
  refine .bind (sound_u32At (by omega) fun _ => trivial) fun oldExists _ => ?_
  refine .bind (sound_u32At (by omega) fun _ => trivial) fun reserved _ => ?_
  rw [sound_bind, sound_require]
  intro _
  refine .bind (sound_u32At (by omega) fun _ => trivial) fun old _ => ?_
  refine .bind (sound_u32At (by omega) fun _ => trivial) fun newer _ => ?_
  refine .bind (sound_u32At (by omega) fun _ => trivial) fun a _ => ?_
  refine .bind (sound_u32At (by omega) fun _ => trivial) fun c _ => ?_
  refine .bind (sound_u32At (by omega) fun _ => trivial) fun sd _ => ?_
  rw [sound_bind, sound_require]
  rintro ⟨-, -, -, -, -, -, -, -, -, -, htotal⟩
  rw [sound_bind, sound_minus]
  refine ⟨by omega, ?_⟩
  rw [sound_bind, sound_readAt]
  refine ⟨by omega, ?_⟩
  rw [sound_bind, sound_readAt]
  refine ⟨by omega, ?_⟩
  rw [sound_bind, sound_require]
  intro _
  refine .bind (sound_readBlock (by omega) fun _ => trivial) fun operation _ => ?_
  refine .bind (sound_get64 (by omega) fun _ => trivial) fun sequence _ => ?_
  refine .bind (sound_get32 (by omega) fun _ => trivial) fun workerPid _ => ?_
  refine .bind (sound_get32 (by omega) fun _ => trivial) fun recoveryMs _ => ?_
  refine .bind (sound_readBlock (by omega) fun _ => trivial) fun workerCreated _ => ?_
  refine .bind (sound_get64 (by omega) fun _ => trivial) fun armedUtc _ => ?_
  refine .bind (sound_get64 (by omega) fun _ => trivial) fun deadlineUtc _ => ?_
  refine .bind (sound_get64 (by omega) fun _ => trivial) fun oldSize _ => ?_
  refine .bind (sound_get64 (by omega) fun _ => trivial) fun newSize _ => ?_
  refine .bind (sound_get32 (by omega) fun _ => trivial) fun startType _ => ?_
  refine .bind (sound_get32 (by omega) fun _ => trivial) fun supervisorPid _ => ?_
  refine .bind (sound_readBlock (by omega) fun _ => trivial) fun supervisorCreated _ => ?_
  refine .bind (sound_readBlock (by omega) fun _ => trivial) fun oldSha256 _ => ?_
  refine .bind (sound_readBlock (by omega) fun _ => trivial) fun newSha256 _ => ?_
  rw [sound_bind, sound_readAt]
  refine ⟨by omega, ?_⟩
  rw [sound_bind, sound_readAt]
  refine ⟨by omega, ?_⟩
  rw [sound_bind, sound_found]
  intro before _
  rw [sound_bind, sound_found]
  intro after _
  rw [sound_bind, sound_readAt]
  refine ⟨by omega, ?_⟩
  rw [sound_bind, sound_readAt]
  refine ⟨by omega, ?_⟩
  rw [sound_bind, sound_readAt]
  refine ⟨by omega, ?_⟩
  exact .bind (sound_valid _) fun _ _ => trivial

end Sound

section Canonical

variable {win : Windows} {roots : Layout} {p : RecoveryPlan} {b : Bytes}

theorem command_length {name text image suffix : Wide} (h : command win roots name text = some (image, suffix)) :
    text ≠ [] ∧ text.length < 2048 := by
  unfold command at h
  split_ifs at h with hlong
  refine ⟨?_, by omega⟩
  rintro rfl
  simp at h

theorem valid_sizes (h : valid win roots p = .done ()) :
    p.before.units ≠ [] ∧ p.before.units.length < 2048 ∧ p.after.units ≠ [] ∧ p.after.units.length < 2048 ∧
      p.oldConfig.length ≤ configLimit ∧ p.newConfig.length ≤ configLimit ∧ 20 ≤ p.configSd.length ∧ p.configSd.length ≤ 4096 := by
  simp only [valid, bind_eq_done, require_eq_done, found_eq_done, policy, policyAligned] at h
  obtain ⟨-, hfields, -, ⟨-, -, -, hsd, -⟩, ⟨old, oldSuffix⟩, hold, ⟨candidate, newSuffix⟩, hnew, -⟩ := h
  obtain ⟨-, -, -, -, -, -, -, -, -, -, -, -, -, -, -, holdConfig, hnewConfig, -⟩ := hfields
  exact ⟨(command_length hold).1, (command_length hold).2, (command_length hnew).1, (command_length hnew).2, holdConfig,
    hnewConfig, hsd.1, hsd.2⟩

def sizes (p : RecoveryPlan) : List Nat :=
  [8, 4, 4, 16, 8, 4, 4, 8, 8, 8, 8, 8, 4, 4, 4, 4, 4, 4, 4, 8, 4, 32, 32, (wideBytes p.before.units).length,
    (wideBytes p.after.units).length, p.oldConfig.length, p.newConfig.length, p.configSd.length]

theorem map_length_parts (p : RecoveryPlan) : (parts p).map List.length = sizes p := by
  simp [parts, sizes, magic, Block.size]

theorem sum_sizes (p : RecoveryPlan) : (sizes p).sum + 32 = planSize p := by
  simp only [sizes, planSize, List.sum_cons, List.sum_nil]
  omega

theorem decode_of_sealed (hvalid : valid win roots p = .done ()) (h : Sealed win.sha256 (parts p) b) : decode win roots b = .done p := by
  obtain ⟨hbefore, hbefore', hafter, hafter', hold, hnew, hsd, hsd'⟩ := valid_sizes hvalid
  obtain ⟨hlength, hcut, hdigest⟩ := h
  rw [map_length_parts] at hlength hcut
  rw [sum_sizes] at hlength
  simp only [sizes, cut, parts, List.cons.injEq, Nat.zero_add, Nat.reduceAdd] at hcut
  obtain ⟨h0, h8, h12, h16, h32, h40, h44, h48, h56, h64, h72, h80, h88, h92, h96, h100, h104, h108, h112, h116, h124,
    h128, h160, hbeforeUnits, hafterUnits, holdConfig, hnewConfig, hconfigSd, -⟩ := hcut
  have hbeforeSize := length_wideBytes p.before.units
  have hafterSize := length_wideBytes p.after.units
  have hbeforePos := List.length_pos_iff.mpr hbefore
  have hafterPos := List.length_pos_iff.mpr hafter
  unfold configLimit at hold hnew
  have hsize : planSize p = 224 + (wideBytes p.before.units).length + (wideBytes p.after.units).length +
    p.oldConfig.length + p.newConfig.length + p.configSd.length := rfl
  have hexists : (if p.oldExists then 1 else 0 : UInt32).toNat ≤ 1 := by
    cases p.oldExists <;> decide
  unfold decode
  refine require_done ⟨by omega, by unfold planLimit; omega⟩ ?_
  refine bind_done (readAt_eq_done.mpr ⟨by omega, h0⟩) ?_
  refine bind_done (u32At_eq_done.mpr ⟨by omega, by omega, h8⟩) ?_
  refine bind_done (u32At_eq_done.mpr ⟨by omega, by omega, h12⟩) ?_
  refine bind_done (u32At_eq_done.mpr ⟨by omega, by decide, h124.trans (by decide : _ = toBytes 4 0)⟩) ?_
  refine require_done ⟨rfl, hlength, hexists, rfl⟩ ?_
  refine bind_done (u32At_eq_done.mpr ⟨by omega, by omega, h104⟩) ?_
  refine bind_done (u32At_eq_done.mpr ⟨by omega, by omega, h108⟩) ?_
  refine bind_done (u32At_eq_done.mpr ⟨by omega, by omega, h88⟩) ?_
  refine bind_done (u32At_eq_done.mpr ⟨by omega, by omega, h92⟩) ?_
  refine bind_done (u32At_eq_done.mpr ⟨by omega, by omega, h96⟩) ?_
  refine require_done ⟨by omega, by omega, by omega, by omega, by omega, by omega, hold, hnew, by omega, by omega,
    by omega⟩ ?_
  refine bind_done (minus_eq_done.mpr ⟨by omega, rfl⟩) ?_
  refine bind_done (readAt_eq_done.mpr ⟨by omega, rfl⟩) ?_
  refine bind_done (readAt_eq_done.mpr ⟨by omega, rfl⟩) ?_
  refine require_done hdigest ?_
  refine bind_done (readBlock_eq_done.mpr ⟨by omega, h16⟩) ?_
  refine bind_done (get64_eq_done.mpr ⟨by omega, h32⟩) ?_
  refine bind_done (get32_eq_done.mpr ⟨by omega, h40⟩) ?_
  refine bind_done (get32_eq_done.mpr ⟨by omega, h44⟩) ?_
  refine bind_done (readBlock_eq_done.mpr ⟨by omega, h48⟩) ?_
  refine bind_done (get64_eq_done.mpr ⟨by omega, h56⟩) ?_
  refine bind_done (get64_eq_done.mpr ⟨by omega, h64⟩) ?_
  refine bind_done (get64_eq_done.mpr ⟨by omega, h72⟩) ?_
  refine bind_done (get64_eq_done.mpr ⟨by omega, h80⟩) ?_
  refine bind_done (get32_eq_done.mpr ⟨by omega, h100⟩) ?_
  refine bind_done (get32_eq_done.mpr ⟨by omega, h112⟩) ?_
  refine bind_done (readBlock_eq_done.mpr ⟨by omega, h116⟩) ?_
  refine bind_done (readBlock_eq_done.mpr ⟨by omega, h128⟩) ?_
  refine bind_done (readBlock_eq_done.mpr ⟨by omega, h160⟩) ?_
  refine bind_done (readAt_eq_done.mpr ⟨by omega, hbeforeUnits⟩) ?_
  refine bind_done (readAt_eq_done.mpr ⟨by omega, hafterUnits⟩) ?_
  refine bind_done (found_eq_done.mpr (textOf_wideBytes p.before)) ?_
  refine bind_done (found_eq_done.mpr (textOf_wideBytes p.after)) ?_
  refine bind_done (readAt_eq_done.mpr ⟨by omega, holdConfig⟩) ?_
  refine bind_done (readAt_eq_done.mpr ⟨by omega, hnewConfig⟩) ?_
  refine bind_done (readAt_eq_done.mpr ⟨by omega, hconfigSd⟩) ?_
  have hflag : decide ((if p.oldExists then 1 else 0 : UInt32).toNat ≠ 0) = p.oldExists := by
    cases p.oldExists <;> decide
  dsimp only
  rw [hflag]
  exact bind_done hvalid rfl

theorem sealed_of_decode (h : decode win roots b = .done p) : valid win roots p = .done () ∧ Sealed win.sha256 (parts p) b := by
  obtain ⟨-, h⟩ := of_require_done h
  obtain ⟨tag, htag, h⟩ := bind_eq_done.mp h
  obtain ⟨length, hlength, h⟩ := bind_eq_done.mp h
  obtain ⟨oldExists, holdExists, h⟩ := bind_eq_done.mp h
  obtain ⟨reserved, hreserved, h⟩ := bind_eq_done.mp h
  obtain ⟨⟨htag', hlength', hexists, hreserved'⟩, h⟩ := of_require_done h
  obtain ⟨old, hold, h⟩ := bind_eq_done.mp h
  obtain ⟨newer, hnewer, h⟩ := bind_eq_done.mp h
  obtain ⟨a, ha, h⟩ := bind_eq_done.mp h
  obtain ⟨c, hc, h⟩ := bind_eq_done.mp h
  obtain ⟨sd, hsd, h⟩ := bind_eq_done.mp h
  obtain ⟨⟨-, -, -, -, heven, heven', -, -, -, -, htotal⟩, h⟩ := of_require_done h
  obtain ⟨body, hbody, h⟩ := bind_eq_done.mp h
  obtain ⟨signed, hsigned, h⟩ := bind_eq_done.mp h
  obtain ⟨hash, hhash, h⟩ := bind_eq_done.mp h
  obtain ⟨hdigest, h⟩ := of_require_done h
  obtain ⟨operation, hoperation, h⟩ := bind_eq_done.mp h
  obtain ⟨sequence, hsequence, h⟩ := bind_eq_done.mp h
  obtain ⟨workerPid, hworkerPid, h⟩ := bind_eq_done.mp h
  obtain ⟨recoveryMs, hrecoveryMs, h⟩ := bind_eq_done.mp h
  obtain ⟨workerCreated, hworkerCreated, h⟩ := bind_eq_done.mp h
  obtain ⟨armedUtc, harmedUtc, h⟩ := bind_eq_done.mp h
  obtain ⟨deadlineUtc, hdeadlineUtc, h⟩ := bind_eq_done.mp h
  obtain ⟨oldSize, holdSize, h⟩ := bind_eq_done.mp h
  obtain ⟨newSize, hnewSize, h⟩ := bind_eq_done.mp h
  obtain ⟨startType, hstartType, h⟩ := bind_eq_done.mp h
  obtain ⟨supervisorPid, hsupervisorPid, h⟩ := bind_eq_done.mp h
  obtain ⟨supervisorCreated, hsupervisorCreated, h⟩ := bind_eq_done.mp h
  obtain ⟨oldSha256, holdSha256, h⟩ := bind_eq_done.mp h
  obtain ⟨newSha256, hnewSha256, h⟩ := bind_eq_done.mp h
  obtain ⟨beforeBytes, hbeforeBytes, h⟩ := bind_eq_done.mp h
  obtain ⟨afterBytes, hafterBytes, h⟩ := bind_eq_done.mp h
  obtain ⟨before, hbefore, h⟩ := bind_eq_done.mp h
  obtain ⟨after, hafter, h⟩ := bind_eq_done.mp h
  obtain ⟨oldConfig, holdConfig, h⟩ := bind_eq_done.mp h
  obtain ⟨newConfig, hnewConfig, h⟩ := bind_eq_done.mp h
  obtain ⟨configSd, hconfigSd, h⟩ := bind_eq_done.mp h
  obtain ⟨_, hvalid, h⟩ := bind_eq_done.mp h
  obtain rfl := pure_eq_done.mp h
  clear h
  refine ⟨hvalid, ?_⟩
  clear hvalid
  subst htag' hlength' hreserved'
  obtain ⟨-, rfl⟩ := minus_eq_done.mp hbody
  obtain ⟨-, rfl⟩ := readAt_eq_done.mp hsigned
  obtain ⟨-, rfl⟩ := readAt_eq_done.mp hhash
  obtain ⟨hbeforeFits, rfl⟩ := readAt_eq_done.mp hbeforeBytes
  obtain ⟨hafterFits, rfl⟩ := readAt_eq_done.mp hafterBytes
  obtain ⟨holdFits, rfl⟩ := readAt_eq_done.mp holdConfig
  obtain ⟨hnewFits, rfl⟩ := readAt_eq_done.mp hnewConfig
  obtain ⟨hsdFits, rfl⟩ := readAt_eq_done.mp hconfigSd
  have hbeforeUnits := wideBytes_of_textOf (by rw [length_slice hbeforeFits]; exact heven) (found_eq_done.mp hbefore)
  have hafterUnits := wideBytes_of_textOf (by rw [length_slice hafterFits]; exact heven') (found_eq_done.mp hafter)
  have hflag : store32 (if decide (oldExists ≠ 0) then 1 else 0) = toBytes 4 oldExists := by
    obtain rfl | rfl := Nat.le_one_iff_eq_zero_or_eq_one.mp hexists
    · rfl
    · rfl
  constructor
  · rw [map_length_parts, sum_sizes]
    simp only [planSize, hbeforeUnits, hafterUnits, length_slice hbeforeFits, length_slice hafterFits, length_slice holdFits,
      length_slice hnewFits, length_slice hsdFits]
    exact htotal
  · rw [map_length_parts]
    simp only [sizes, cut, parts, planSize, List.cons.injEq, Nat.zero_add, Nat.reduceAdd, hbeforeUnits, hafterUnits,
      length_slice hbeforeFits, length_slice hafterFits, length_slice holdFits, length_slice hnewFits,
      length_slice hsdFits, htotal, hflag, and_true]
    exact ⟨(readAt_eq_done.mp htag).2, (u32At_eq_done.mp hlength).2.2, (u32At_eq_done.mp holdExists).2.2,
      (readBlock_eq_done.mp hoperation).2, (get64_eq_done.mp hsequence).2, (get32_eq_done.mp hworkerPid).2,
      (get32_eq_done.mp hrecoveryMs).2, (readBlock_eq_done.mp hworkerCreated).2, (get64_eq_done.mp harmedUtc).2,
      (get64_eq_done.mp hdeadlineUtc).2, (get64_eq_done.mp holdSize).2, (get64_eq_done.mp hnewSize).2,
      (u32At_eq_done.mp ha).2.2, (u32At_eq_done.mp hc).2.2, (u32At_eq_done.mp hsd).2.2,
      (get32_eq_done.mp hstartType).2, (u32At_eq_done.mp hold).2.2, (u32At_eq_done.mp hnewer).2.2,
      (get32_eq_done.mp hsupervisorPid).2, (readBlock_eq_done.mp hsupervisorCreated).2,
      (u32At_eq_done.mp hreserved).2.2, (readBlock_eq_done.mp holdSha256).2, (readBlock_eq_done.mp hnewSha256).2⟩
  · exact hdigest

theorem decode_encode (h : valid win roots p = .done ()) :
    ∃ b, encode win roots p = .done b ∧ decode win roots b = .done p :=
  ⟨_, bind_done h rfl, decode_of_sealed h (sealed_signedRecord win.sha256 (parts p))⟩

theorem encode_decode (h : decode win roots b = .done p) : encode win roots p = .done b := by
  obtain ⟨hvalid, hsealed⟩ := sealed_of_decode h
  rw [← hsealed.eq_signedRecord]
  exact bind_done hvalid rfl

end Canonical

end EtranProcessing.Deployment.RecoveryCodec
