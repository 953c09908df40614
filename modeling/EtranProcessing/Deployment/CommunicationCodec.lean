import EtranProcessing.Deployment.SwitchRecords

namespace EtranProcessing.Deployment.CommunicationCodec

open Library.RawMemory Library.LittleEndian Library.Buffers Paths Descriptors PlanFields SwitchRecords

def planLimit : Nat := 256 * 1024
def autoStart : Nat := 2
def demandStart : Nat := 3

structure Budget where
  verifyMs : UInt32
  workerMs : UInt32
  lockMs : UInt32
  proxyMs : UInt32
  brokerPrepareMs : UInt32
  mosquittoMs : UInt32
  channelMs : UInt32
  totalMs : UInt32
  deriving DecidableEq

def small (ms : UInt32) : Bool := 100 ≤ ms && ms ≤ 300000

def budgetValid (b : Budget) : Bool :=
  small b.verifyMs && small b.workerMs && small b.lockMs && small b.proxyMs && small b.brokerPrepareMs &&
    b.mosquittoMs == 300000 && small b.channelMs &&
    decide (2 * b.verifyMs.toNat + b.workerMs.toNat + b.lockMs.toNat + b.proxyMs.toNat + b.brokerPrepareMs.toNat +
      b.mosquittoMs.toNat + 2 * b.channelMs.toNat ≤ b.totalMs.toNat) && b.totalMs ≤ 3600000

/-- A service of the pair with the records of its switch and its configuration. -/
structure Signal where
  switchSequence : UInt64
  configSequence : UInt64
  switch : Bytes
  config : Bytes
  deriving DecidableEq

structure CommunicationPlan where
  operation : Block 16
  sequence : UInt64
  generation : UInt64
  armedUtc : UInt64
  deadlineUtc : UInt64
  workerPid : UInt32
  supervisorPid : UInt32
  workerCreated : Block 8
  supervisorCreated : Block 8
  operationSha256 : Block 32
  budget : Budget
  -- the entries 0 and 1 of the arrays of the source
  proxy : Signal
  broker : Signal
  conSequence : UInt64
  conSwitch : Bytes
  conPid : UInt32
  conCreated : Block 8
  thumbprint : Block 64
  deriving DecidableEq

/-- The switch of a service that keeps its account and its arguments, and the image it has before. -/
def switchValid (win : Windows) (roots : Layout) (service name : Wide) (b : Bytes) : Checked (ServiceSwitch × Wide) := do
  require (b ≠ [] ∧ b.length ≤ 16384)
  let s ← switchDecode win roots b
  require (s.service = service ∧ s.account = wide "LocalSystem" ∧ (s.startType = autoStart ∨ s.startType = demandStart) ∧
    s.beforeSize ≠ 0 ∧ s.size ≠ 0 ∧ nonzero s.beforeSha256.bytes = true ∧ nonzero s.sha256.bytes = true)
  let (image, old) ← found (command win roots name s.imagePath)
  let (_, next) ← found (command win roots name s.after)
  require (old = next)
  pure (s, image)

def hexDigit (c : UInt8) : Bool := 48 ≤ c && c ≤ 57 || 65 ≤ c && c ≤ 70 || 97 ≤ c && c ≤ 102

def thumbprintValid (bytes : Bytes) : Bool :=
  (bytes.takeWhile (· ≠ 0)).length == 40 && (bytes.take 40).all hexDigit && (bytes.drop 41).all (· == 0)

def ascii (text : String) : Bytes := text.toList.map fun c => UInt8.ofNat c.toNat

def valid (win : Windows) (roots : Layout) (p : CommunicationPlan) : Checked Unit := do
  require (nonzero p.operation.bytes = true ∧ p.sequence ≠ 0 ∧ p.generation ≠ 0 ∧ p.armedUtc ≠ 0 ∧
    p.armedUtc < p.deadlineUtc ∧ p.workerPid ≠ 0 ∧ p.supervisorPid ≠ 0 ∧ p.workerPid ≠ p.supervisorPid ∧
    nonzero p.workerCreated.bytes = true ∧ nonzero p.supervisorCreated.bytes = true ∧
    nonzero p.operationSha256.bytes = true ∧ budgetValid p.budget = true)
  let refs := [p.proxy.switchSequence, p.broker.switchSequence, p.proxy.configSequence, p.broker.configSequence, p.conSequence]
  require ((∀ ref ∈ refs, ref ≠ 0 ∧ ref < p.sequence) ∧ refs.Nodup)
  let (proxy, proxyImage) ← switchValid win roots (wide "Leo4Proxy") (wide "leo4proxy") p.proxy.switch
  let _ ← switchValid win roots (wide "mosquitto") (wide "mosquitto") p.broker.switch
  require (p.conPid ≠ 0 ∧ nonzero p.conCreated.bytes = true ∧ thumbprintValid p.thumbprint.bytes = true)
  let (con, conImage) ← switchValid win roots (wide "L4Con") (wide "l4con") p.conSwitch
  -- the source decodes the switch of the proxy once more here
  require (proxy.layout.release = con.layout.release)
  let na ← minus proxyImage.length (wide "\\leo4proxy\\leo4proxy.exe").length
  let nb ← minus conImage.length (wide "\\l4con\\l4con.exe").length
  require (na = nb ∧ proxyImage.take na = conImage.take na)
  config win.toSecurity p.proxy.config (ascii "mosquitto\\mosquitto.conf")
  config win.toSecurity p.broker.config (ascii "mosquitto\\acl.conf")

def magic : Bytes := [0x4c, 0x34, 0x43, 0x4f, 0x4d, 0x30, 0x32, 0]

def planSize (p : CommunicationPlan) : Nat :=
  352 + p.conSwitch.length + p.proxy.switch.length + p.proxy.config.length + p.broker.switch.length + p.broker.config.length

/-- The parts of a plan in the order of their offsets, from 0 to 320 and on. -/
def parts (p : CommunicationPlan) : List Bytes :=
  [magic, toBytes 4 (planSize p), [0, 0, 0, 0], p.operation.bytes, store64 p.sequence, store64 p.generation, store64 p.armedUtc,
    store64 p.deadlineUtc, store32 p.workerPid, store32 p.supervisorPid, p.workerCreated.bytes, p.supervisorCreated.bytes,
    p.operationSha256.bytes, store32 p.budget.verifyMs, store32 p.budget.workerMs, store32 p.budget.lockMs,
    store32 p.budget.proxyMs, store32 p.budget.brokerPrepareMs, store32 p.budget.mosquittoMs, store32 p.budget.channelMs,
    store32 p.budget.totalMs, store64 p.proxy.switchSequence, store64 p.broker.switchSequence,
    store64 p.proxy.configSequence, store64 p.broker.configSequence, toBytes 4 p.proxy.switch.length,
    toBytes 4 p.broker.switch.length, toBytes 4 p.proxy.config.length, toBytes 4 p.broker.config.length,
    store64 p.conSequence, toBytes 4 p.conSwitch.length, store32 p.conPid, p.conCreated.bytes, p.thumbprint.bytes,
    -- the bytes before the records stay as they are allocated
    List.replicate 32 0, p.proxy.switch, p.proxy.config, p.broker.switch, p.broker.config, p.conSwitch]

def encode (win : Windows) (roots : Layout) (p : CommunicationPlan) : Checked Bytes := do
  valid win roots p
  require (planSize p ≤ planLimit)
  pure (signedRecord win.sha256 (parts p))

def decode (win : Windows) (roots : Layout) (b : Bytes) : Checked CommunicationPlan := do
  require (352 ≤ b.length ∧ b.length ≤ planLimit)
  let tag ← readAt b 0 8
  let length ← u32At b 8
  let padding ← u32At b 12
  let reserved ← readAt b 288 32
  let body ← minus b.length 32
  let signed ← readAt b 0 body
  let hash ← readAt b body 32
  require (tag = magic ∧ length = b.length ∧ padding = 0 ∧ nonzero reserved = false ∧ (win.sha256 signed).bytes = hash)
  let operation ← readBlock b 16 16
  let sequence ← get64 b 32
  let generation ← get64 b 40
  let armedUtc ← get64 b 48
  let deadlineUtc ← get64 b 56
  let workerPid ← get32 b 64
  let supervisorPid ← get32 b 68
  let workerCreated ← readBlock b 72 8
  let supervisorCreated ← readBlock b 80 8
  let operationSha256 ← readBlock b 88 32
  let verifyMs ← get32 b 120
  let workerMs ← get32 b 124
  let lockMs ← get32 b 128
  let proxyMs ← get32 b 132
  let brokerPrepareMs ← get32 b 136
  let mosquittoMs ← get32 b 140
  let channelMs ← get32 b 144
  let totalMs ← get32 b 148
  let proxySwitchSequence ← get64 b 152
  let proxyConfigSequence ← get64 b 168
  let proxySwitchSize ← u32At b 184
  let proxyConfigSize ← u32At b 192
  let left ← minus body 320
  require (proxySwitchSize ≤ left)
  let proxySwitch ← readAt b 320 proxySwitchSize
  let left ← minus body (320 + proxySwitchSize)
  require (proxyConfigSize ≤ left)
  let proxyConfig ← readAt b (320 + proxySwitchSize) proxyConfigSize
  let brokerSwitchSequence ← get64 b 160
  let brokerConfigSequence ← get64 b 176
  let brokerSwitchSize ← u32At b 188
  let brokerConfigSize ← u32At b 196
  let left ← minus body (320 + proxySwitchSize + proxyConfigSize)
  require (brokerSwitchSize ≤ left)
  let brokerSwitch ← readAt b (320 + proxySwitchSize + proxyConfigSize) brokerSwitchSize
  let left ← minus body (320 + proxySwitchSize + proxyConfigSize + brokerSwitchSize)
  require (brokerConfigSize ≤ left)
  let brokerConfig ← readAt b (320 + proxySwitchSize + proxyConfigSize + brokerSwitchSize) brokerConfigSize
  let conSequence ← get64 b 200
  let conSize ← u32At b 208
  let conPid ← get32 b 212
  let conCreated ← readBlock b 216 8
  let thumbprint ← readBlock b 224 64
  let left ← minus body (320 + proxySwitchSize + proxyConfigSize + brokerSwitchSize + brokerConfigSize)
  require (conSize ≤ left)
  let conSwitch ← readAt b (320 + proxySwitchSize + proxyConfigSize + brokerSwitchSize + brokerConfigSize) conSize
  require (320 + proxySwitchSize + proxyConfigSize + brokerSwitchSize + brokerConfigSize + conSize = body)
  let p := ⟨operation, sequence, generation, armedUtc, deadlineUtc, workerPid, supervisorPid, workerCreated, supervisorCreated,
    operationSha256, ⟨verifyMs, workerMs, lockMs, proxyMs, brokerPrepareMs, mosquittoMs, channelMs, totalMs⟩,
    ⟨proxySwitchSequence, proxyConfigSequence, proxySwitch, proxyConfig⟩,
    ⟨brokerSwitchSequence, brokerConfigSequence, brokerSwitch, brokerConfig⟩, conSequence, conSwitch, conPid, conCreated,
    thumbprint⟩
  valid win roots p
  pure p

section Sound

variable {win : Windows} {roots : Layout}

theorem join_length {base leaf out : Wide} (h : join base leaf = some out) : out.length = base.length + 1 + leaf.length := by
  unfold join at h
  split_ifs at h
  obtain rfl := Option.some.inj h
  simp only [List.length_append, List.length_cons]
  omega

theorem command_image {name text image suffix : Wide} (h : command win roots name text = some (image, suffix)) :
    2 * name.length + 6 ≤ image.length := by
  unfold command at h
  split_ifs at h
  split at h
  · dsimp only at h
    split at h
    · exact absurd h (by simp)
    · split_ifs at h
      simp only [Option.bind_eq_bind, Option.bind_eq_some_iff] at h
      obtain ⟨layout, -, expected, hexpected, h⟩ := h
      split_ifs at h with hsame
      obtain ⟨rfl, -⟩ := Prod.mk.inj (Option.some.inj h)
      unfold component at hexpected
      split_ifs at hexpected
      simp only [Option.bind_eq_bind, Option.bind_eq_some_iff] at hexpected
      obtain ⟨directory, hdirectory, hfile⟩ := hexpected
      have hexe : (wide ".exe").length = 4 := by decide
      rw [hsame, join_length hfile, join_length hdirectory, List.length_append, hexe]
      omega
  · exact absurd h (by simp)

theorem sound_switchValid {service name : Wide} (b : Bytes) :
    Sound (switchValid win roots service name b) fun r => 2 * name.length + 6 ≤ r.2.length := by
  rw [switchValid, sound_bind, sound_require]
  intro _
  refine .bind (sound_switchDecode roots b) fun s _ => ?_
  rw [sound_bind, sound_require]
  intro _
  rw [sound_bind, sound_found]
  rintro ⟨image, old⟩ himage
  dsimp only
  rw [sound_bind, sound_found]
  rintro ⟨newImage, next⟩ _
  dsimp only
  rw [sound_bind, sound_require]
  exact fun _ => command_image himage

theorem sound_valid (p : CommunicationPlan) : Sound (valid win roots p) fun _ => True := by
  rw [valid, sound_bind, sound_require]
  intro _
  dsimp only
  rw [sound_bind, sound_require]
  intro _
  refine .bind (sound_switchValid p.proxy.switch) ?_
  rintro ⟨proxy, proxyImage⟩ hproxy
  refine .bind (sound_switchValid p.broker.switch) fun _ _ => ?_
  dsimp only at hproxy ⊢
  rw [sound_bind, sound_require]
  intro _
  refine .bind (sound_switchValid p.conSwitch) ?_
  rintro ⟨con, conImage⟩ hcon
  dsimp only at hcon ⊢
  rw [sound_bind, sound_require]
  intro _
  rw [sound_bind, sound_minus]
  refine ⟨le_trans (by decide) hproxy, ?_⟩
  rw [sound_bind, sound_minus]
  refine ⟨le_trans (by decide) hcon, ?_⟩
  rw [sound_bind, sound_require]
  intro _
  exact .bind (sound_config _ _) fun _ _ => sound_config _ _

theorem sound_decode (b : Bytes) : Sound (decode win roots b) fun _ => True := by
  rw [decode, sound_bind, sound_require]
  rintro ⟨hsize, -⟩
  rw [sound_bind, sound_readAt]
  refine ⟨by omega, ?_⟩
  refine .bind (sound_u32At (by omega) fun _ => trivial) fun length _ => ?_
  refine .bind (sound_u32At (by omega) fun _ => trivial) fun padding _ => ?_
  rw [sound_bind, sound_readAt]
  refine ⟨by omega, ?_⟩
  rw [sound_bind, sound_minus]
  refine ⟨by omega, ?_⟩
  rw [sound_bind, sound_readAt]
  refine ⟨by omega, ?_⟩
  rw [sound_bind, sound_readAt]
  refine ⟨by omega, ?_⟩
  rw [sound_bind, sound_require]
  intro _
  refine .bind (sound_readBlock (by omega) fun _ => trivial) fun operation _ => ?_
  refine .bind (sound_get64 (by omega) fun _ => trivial) fun sequence _ => ?_
  refine .bind (sound_get64 (by omega) fun _ => trivial) fun generation _ => ?_
  refine .bind (sound_get64 (by omega) fun _ => trivial) fun armedUtc _ => ?_
  refine .bind (sound_get64 (by omega) fun _ => trivial) fun deadlineUtc _ => ?_
  refine .bind (sound_get32 (by omega) fun _ => trivial) fun workerPid _ => ?_
  refine .bind (sound_get32 (by omega) fun _ => trivial) fun supervisorPid _ => ?_
  refine .bind (sound_readBlock (by omega) fun _ => trivial) fun workerCreated _ => ?_
  refine .bind (sound_readBlock (by omega) fun _ => trivial) fun supervisorCreated _ => ?_
  refine .bind (sound_readBlock (by omega) fun _ => trivial) fun operationSha256 _ => ?_
  refine .bind (sound_get32 (by omega) fun _ => trivial) fun verifyMs _ => ?_
  refine .bind (sound_get32 (by omega) fun _ => trivial) fun workerMs _ => ?_
  refine .bind (sound_get32 (by omega) fun _ => trivial) fun lockMs _ => ?_
  refine .bind (sound_get32 (by omega) fun _ => trivial) fun proxyMs _ => ?_
  refine .bind (sound_get32 (by omega) fun _ => trivial) fun brokerPrepareMs _ => ?_
  refine .bind (sound_get32 (by omega) fun _ => trivial) fun mosquittoMs _ => ?_
  refine .bind (sound_get32 (by omega) fun _ => trivial) fun channelMs _ => ?_
  refine .bind (sound_get32 (by omega) fun _ => trivial) fun totalMs _ => ?_
  refine .bind (sound_get64 (by omega) fun _ => trivial) fun proxySwitchSequence _ => ?_
  refine .bind (sound_get64 (by omega) fun _ => trivial) fun proxyConfigSequence _ => ?_
  refine .bind (sound_u32At (by omega) fun _ => trivial) fun proxySwitchSize _ => ?_
  refine .bind (sound_u32At (by omega) fun _ => trivial) fun proxyConfigSize _ => ?_
  rw [sound_bind, sound_minus]
  refine ⟨by omega, ?_⟩
  rw [sound_bind, sound_require]
  intro hproxySwitch
  rw [sound_bind, sound_readAt]
  refine ⟨by omega, ?_⟩
  rw [sound_bind, sound_minus]
  refine ⟨by omega, ?_⟩
  rw [sound_bind, sound_require]
  intro hproxyConfig
  rw [sound_bind, sound_readAt]
  refine ⟨by omega, ?_⟩
  refine .bind (sound_get64 (by omega) fun _ => trivial) fun brokerSwitchSequence _ => ?_
  refine .bind (sound_get64 (by omega) fun _ => trivial) fun brokerConfigSequence _ => ?_
  refine .bind (sound_u32At (by omega) fun _ => trivial) fun brokerSwitchSize _ => ?_
  refine .bind (sound_u32At (by omega) fun _ => trivial) fun brokerConfigSize _ => ?_
  rw [sound_bind, sound_minus]
  refine ⟨by omega, ?_⟩
  rw [sound_bind, sound_require]
  intro hbrokerSwitch
  rw [sound_bind, sound_readAt]
  refine ⟨by omega, ?_⟩
  rw [sound_bind, sound_minus]
  refine ⟨by omega, ?_⟩
  rw [sound_bind, sound_require]
  intro hbrokerConfig
  rw [sound_bind, sound_readAt]
  refine ⟨by omega, ?_⟩
  refine .bind (sound_get64 (by omega) fun _ => trivial) fun conSequence _ => ?_
  refine .bind (sound_u32At (by omega) fun _ => trivial) fun conSize _ => ?_
  refine .bind (sound_get32 (by omega) fun _ => trivial) fun conPid _ => ?_
  refine .bind (sound_readBlock (by omega) fun _ => trivial) fun conCreated _ => ?_
  refine .bind (sound_readBlock (by omega) fun _ => trivial) fun thumbprint _ => ?_
  rw [sound_bind, sound_minus]
  refine ⟨by omega, ?_⟩
  rw [sound_bind, sound_require]
  intro hcon
  rw [sound_bind, sound_readAt]
  refine ⟨by omega, ?_⟩
  rw [sound_bind, sound_require]
  intro _
  exact .bind (sound_valid _) fun _ _ => trivial

end Sound

section Canonical

variable {win : Windows} {roots : Layout} {p : CommunicationPlan} {b : Bytes}

def sizes (p : CommunicationPlan) : List Nat :=
  [8, 4, 4, 16, 8, 8, 8, 8, 4, 4, 8, 8, 32, 4, 4, 4, 4, 4, 4, 4, 4, 8, 8, 8, 8, 4, 4, 4, 4, 8, 4, 4, 8, 64, 32,
    p.proxy.switch.length, p.proxy.config.length, p.broker.switch.length, p.broker.config.length, p.conSwitch.length]

theorem map_length_parts (p : CommunicationPlan) : (parts p).map List.length = sizes p := by
  simp [parts, sizes, magic, Block.size]

theorem sum_sizes (p : CommunicationPlan) : (sizes p).sum + 32 = planSize p := by
  simp only [sizes, planSize, List.sum_cons, List.sum_nil]
  omega

theorem decode_of_sealed (hvalid : valid win roots p = .done ()) (hlimit : planSize p ≤ planLimit)
    (h : Sealed win.sha256 (parts p) b) : decode win roots b = .done p := by
  obtain ⟨hlength, hcut, hdigest⟩ := h
  rw [map_length_parts] at hlength hcut
  rw [sum_sizes] at hlength
  unfold planLimit at hlimit
  simp only [sizes, cut, parts, List.cons.injEq, Nat.zero_add, Nat.reduceAdd] at hcut
  obtain ⟨h0, h8, h12, h16, h32, h40, h48, h56, h64, h68, h72, h80, h88, h120, h124, h128, h132, h136, h140, h144, h148,
    h152, h160, h168, h176, h184, h188, h192, h196, h200, h208, h212, h216, h224, h288, hproxySwitch, hproxyConfig,
    hbrokerSwitch, hbrokerConfig, hconSwitch, -⟩ := hcut
  have hsize : planSize p = 352 + p.conSwitch.length + p.proxy.switch.length + p.proxy.config.length +
    p.broker.switch.length + p.broker.config.length := rfl
  unfold decode
  refine require_done ⟨by omega, by unfold planLimit; omega⟩ ?_
  refine bind_done (readAt_eq_done.mpr ⟨by omega, h0⟩) ?_
  refine bind_done (u32At_eq_done.mpr ⟨by omega, by omega, h8⟩) ?_
  refine bind_done (u32At_eq_done.mpr ⟨by omega, by decide, h12.trans (by decide : _ = toBytes 4 0)⟩) ?_
  refine bind_done (readAt_eq_done.mpr ⟨by omega, h288⟩) ?_
  refine bind_done (minus_eq_done.mpr ⟨by omega, rfl⟩) ?_
  refine bind_done (readAt_eq_done.mpr ⟨by omega, rfl⟩) ?_
  refine bind_done (readAt_eq_done.mpr ⟨by omega, rfl⟩) ?_
  refine require_done ⟨rfl, hlength, rfl, by decide, hdigest⟩ ?_
  refine bind_done (readBlock_eq_done.mpr ⟨by omega, h16⟩) ?_
  refine bind_done (get64_eq_done.mpr ⟨by omega, h32⟩) ?_
  refine bind_done (get64_eq_done.mpr ⟨by omega, h40⟩) ?_
  refine bind_done (get64_eq_done.mpr ⟨by omega, h48⟩) ?_
  refine bind_done (get64_eq_done.mpr ⟨by omega, h56⟩) ?_
  refine bind_done (get32_eq_done.mpr ⟨by omega, h64⟩) ?_
  refine bind_done (get32_eq_done.mpr ⟨by omega, h68⟩) ?_
  refine bind_done (readBlock_eq_done.mpr ⟨by omega, h72⟩) ?_
  refine bind_done (readBlock_eq_done.mpr ⟨by omega, h80⟩) ?_
  refine bind_done (readBlock_eq_done.mpr ⟨by omega, h88⟩) ?_
  refine bind_done (get32_eq_done.mpr ⟨by omega, h120⟩) ?_
  refine bind_done (get32_eq_done.mpr ⟨by omega, h124⟩) ?_
  refine bind_done (get32_eq_done.mpr ⟨by omega, h128⟩) ?_
  refine bind_done (get32_eq_done.mpr ⟨by omega, h132⟩) ?_
  refine bind_done (get32_eq_done.mpr ⟨by omega, h136⟩) ?_
  refine bind_done (get32_eq_done.mpr ⟨by omega, h140⟩) ?_
  refine bind_done (get32_eq_done.mpr ⟨by omega, h144⟩) ?_
  refine bind_done (get32_eq_done.mpr ⟨by omega, h148⟩) ?_
  refine bind_done (get64_eq_done.mpr ⟨by omega, h152⟩) ?_
  refine bind_done (get64_eq_done.mpr ⟨by omega, h168⟩) ?_
  refine bind_done (u32At_eq_done.mpr ⟨by omega, by omega, h184⟩) ?_
  refine bind_done (u32At_eq_done.mpr ⟨by omega, by omega, h192⟩) ?_
  refine bind_done (minus_eq_done.mpr ⟨by omega, rfl⟩) ?_
  refine require_done (by omega) ?_
  refine bind_done (readAt_eq_done.mpr ⟨by omega, hproxySwitch⟩) ?_
  refine bind_done (minus_eq_done.mpr ⟨by omega, rfl⟩) ?_
  refine require_done (by omega) ?_
  refine bind_done (readAt_eq_done.mpr ⟨by omega, hproxyConfig⟩) ?_
  refine bind_done (get64_eq_done.mpr ⟨by omega, h160⟩) ?_
  refine bind_done (get64_eq_done.mpr ⟨by omega, h176⟩) ?_
  refine bind_done (u32At_eq_done.mpr ⟨by omega, by omega, h188⟩) ?_
  refine bind_done (u32At_eq_done.mpr ⟨by omega, by omega, h196⟩) ?_
  refine bind_done (minus_eq_done.mpr ⟨by omega, rfl⟩) ?_
  refine require_done (by omega) ?_
  refine bind_done (readAt_eq_done.mpr ⟨by omega, hbrokerSwitch⟩) ?_
  refine bind_done (minus_eq_done.mpr ⟨by omega, rfl⟩) ?_
  refine require_done (by omega) ?_
  refine bind_done (readAt_eq_done.mpr ⟨by omega, hbrokerConfig⟩) ?_
  refine bind_done (get64_eq_done.mpr ⟨by omega, h200⟩) ?_
  refine bind_done (u32At_eq_done.mpr ⟨by omega, by omega, h208⟩) ?_
  refine bind_done (get32_eq_done.mpr ⟨by omega, h212⟩) ?_
  refine bind_done (readBlock_eq_done.mpr ⟨by omega, h216⟩) ?_
  refine bind_done (readBlock_eq_done.mpr ⟨by omega, h224⟩) ?_
  refine bind_done (minus_eq_done.mpr ⟨by omega, rfl⟩) ?_
  refine require_done (by omega) ?_
  refine bind_done (readAt_eq_done.mpr ⟨by omega, hconSwitch⟩) ?_
  refine require_done (by omega) ?_
  exact bind_done hvalid rfl

theorem zeros_of_nonzero {bytes : Bytes} {n : Nat} (hlength : bytes.length = n) (h : nonzero bytes = false) :
    bytes = List.replicate n 0 := by
  rw [List.eq_replicate_iff]
  refine ⟨hlength, fun c hc => ?_⟩
  simp only [nonzero, List.any_eq_false] at h
  simpa using h c hc

theorem sealed_of_decode (h : decode win roots b = .done p) :
    valid win roots p = .done () ∧ planSize p ≤ planLimit ∧ Sealed win.sha256 (parts p) b := by
  obtain ⟨⟨hlarge, hlimit⟩, h⟩ := of_require_done h
  obtain ⟨tag, htag, h⟩ := bind_eq_done.mp h
  obtain ⟨length, hlength, h⟩ := bind_eq_done.mp h
  obtain ⟨padding, hpadding, h⟩ := bind_eq_done.mp h
  obtain ⟨reserved, hreserved, h⟩ := bind_eq_done.mp h
  obtain ⟨body, hbody, h⟩ := bind_eq_done.mp h
  obtain ⟨signed, hsigned, h⟩ := bind_eq_done.mp h
  obtain ⟨hash, hhash, h⟩ := bind_eq_done.mp h
  obtain ⟨⟨htag', hlength', hpadding', hzeros, hdigest⟩, h⟩ := of_require_done h
  obtain ⟨operation, hoperation, h⟩ := bind_eq_done.mp h
  obtain ⟨sequence, hsequence, h⟩ := bind_eq_done.mp h
  obtain ⟨generation, hgeneration, h⟩ := bind_eq_done.mp h
  obtain ⟨armedUtc, harmedUtc, h⟩ := bind_eq_done.mp h
  obtain ⟨deadlineUtc, hdeadlineUtc, h⟩ := bind_eq_done.mp h
  obtain ⟨workerPid, hworkerPid, h⟩ := bind_eq_done.mp h
  obtain ⟨supervisorPid, hsupervisorPid, h⟩ := bind_eq_done.mp h
  obtain ⟨workerCreated, hworkerCreated, h⟩ := bind_eq_done.mp h
  obtain ⟨supervisorCreated, hsupervisorCreated, h⟩ := bind_eq_done.mp h
  obtain ⟨operationSha256, hoperationSha256, h⟩ := bind_eq_done.mp h
  obtain ⟨verifyMs, hverifyMs, h⟩ := bind_eq_done.mp h
  obtain ⟨workerMs, hworkerMs, h⟩ := bind_eq_done.mp h
  obtain ⟨lockMs, hlockMs, h⟩ := bind_eq_done.mp h
  obtain ⟨proxyMs, hproxyMs, h⟩ := bind_eq_done.mp h
  obtain ⟨brokerPrepareMs, hbrokerPrepareMs, h⟩ := bind_eq_done.mp h
  obtain ⟨mosquittoMs, hmosquittoMs, h⟩ := bind_eq_done.mp h
  obtain ⟨channelMs, hchannelMs, h⟩ := bind_eq_done.mp h
  obtain ⟨totalMs, htotalMs, h⟩ := bind_eq_done.mp h
  obtain ⟨proxySwitchSequence, hproxySwitchSequence, h⟩ := bind_eq_done.mp h
  obtain ⟨proxyConfigSequence, hproxyConfigSequence, h⟩ := bind_eq_done.mp h
  obtain ⟨proxySwitchSize, hproxySwitchSize, h⟩ := bind_eq_done.mp h
  obtain ⟨proxyConfigSize, hproxyConfigSize, h⟩ := bind_eq_done.mp h
  obtain ⟨left, hleft, h⟩ := bind_eq_done.mp h
  obtain ⟨hroom, h⟩ := of_require_done h
  obtain ⟨proxySwitch, hproxySwitch, h⟩ := bind_eq_done.mp h
  obtain ⟨left, hleft, h⟩ := bind_eq_done.mp h
  obtain ⟨hroom, h⟩ := of_require_done h
  obtain ⟨proxyConfig, hproxyConfig, h⟩ := bind_eq_done.mp h
  obtain ⟨brokerSwitchSequence, hbrokerSwitchSequence, h⟩ := bind_eq_done.mp h
  obtain ⟨brokerConfigSequence, hbrokerConfigSequence, h⟩ := bind_eq_done.mp h
  obtain ⟨brokerSwitchSize, hbrokerSwitchSize, h⟩ := bind_eq_done.mp h
  obtain ⟨brokerConfigSize, hbrokerConfigSize, h⟩ := bind_eq_done.mp h
  obtain ⟨left, hleft, h⟩ := bind_eq_done.mp h
  obtain ⟨hroom, h⟩ := of_require_done h
  obtain ⟨brokerSwitch, hbrokerSwitch, h⟩ := bind_eq_done.mp h
  obtain ⟨left, hleft, h⟩ := bind_eq_done.mp h
  obtain ⟨hroom, h⟩ := of_require_done h
  obtain ⟨brokerConfig, hbrokerConfig, h⟩ := bind_eq_done.mp h
  obtain ⟨conSequence, hconSequence, h⟩ := bind_eq_done.mp h
  obtain ⟨conSize, hconSize, h⟩ := bind_eq_done.mp h
  obtain ⟨conPid, hconPid, h⟩ := bind_eq_done.mp h
  obtain ⟨conCreated, hconCreated, h⟩ := bind_eq_done.mp h
  obtain ⟨thumbprint, hthumbprint, h⟩ := bind_eq_done.mp h
  obtain ⟨left, hleft, h⟩ := bind_eq_done.mp h
  obtain ⟨hroom, h⟩ := of_require_done h
  obtain ⟨conSwitch, hconSwitch, h⟩ := bind_eq_done.mp h
  obtain ⟨htotal, h⟩ := of_require_done h
  obtain ⟨_, hvalid, h⟩ := bind_eq_done.mp h
  obtain rfl := pure_eq_done.mp h
  clear h
  refine ⟨hvalid, ?_⟩
  clear hvalid
  subst htag' hlength' hpadding'
  obtain ⟨-, rfl⟩ := minus_eq_done.mp hbody
  obtain ⟨-, rfl⟩ := readAt_eq_done.mp hsigned
  obtain ⟨-, rfl⟩ := readAt_eq_done.mp hhash
  obtain ⟨hreservedFits, rfl⟩ := readAt_eq_done.mp hreserved
  obtain ⟨hproxySwitchFits, rfl⟩ := readAt_eq_done.mp hproxySwitch
  obtain ⟨hproxyConfigFits, rfl⟩ := readAt_eq_done.mp hproxyConfig
  obtain ⟨hbrokerSwitchFits, rfl⟩ := readAt_eq_done.mp hbrokerSwitch
  obtain ⟨hbrokerConfigFits, rfl⟩ := readAt_eq_done.mp hbrokerConfig
  obtain ⟨hconSwitchFits, rfl⟩ := readAt_eq_done.mp hconSwitch
  have hzeros := zeros_of_nonzero (length_slice hreservedFits) hzeros
  have hsize : 352 + conSize + proxySwitchSize + proxyConfigSize + brokerSwitchSize + brokerConfigSize = b.length := by
    clear * - hlarge htotal
    omega
  have hproxy := length_slice hproxySwitchFits
  have hproxy' := length_slice hproxyConfigFits
  have hbroker := length_slice hbrokerSwitchFits
  have hbroker' := length_slice hbrokerConfigFits
  have hcon := length_slice hconSwitchFits
  refine ⟨?_, ?_, ?_, hdigest⟩
  · simpa only [planSize, hproxy, hproxy', hbroker, hbroker', hcon, hsize] using hlimit
  · rw [map_length_parts, sum_sizes]
    simpa only [planSize, hproxy, hproxy', hbroker, hbroker', hcon] using hsize
  · rw [map_length_parts]
    simp only [sizes, cut, parts, planSize, List.cons.injEq, Nat.zero_add, Nat.reduceAdd, hproxy, hproxy', hbroker,
      hbroker', hcon, hsize, and_true]
    exact ⟨(readAt_eq_done.mp htag).2, (u32At_eq_done.mp hlength).2.2, (u32At_eq_done.mp hpadding).2.2,
      (readBlock_eq_done.mp hoperation).2, (get64_eq_done.mp hsequence).2, (get64_eq_done.mp hgeneration).2,
      (get64_eq_done.mp harmedUtc).2, (get64_eq_done.mp hdeadlineUtc).2, (get32_eq_done.mp hworkerPid).2,
      (get32_eq_done.mp hsupervisorPid).2, (readBlock_eq_done.mp hworkerCreated).2,
      (readBlock_eq_done.mp hsupervisorCreated).2, (readBlock_eq_done.mp hoperationSha256).2,
      (get32_eq_done.mp hverifyMs).2, (get32_eq_done.mp hworkerMs).2, (get32_eq_done.mp hlockMs).2,
      (get32_eq_done.mp hproxyMs).2, (get32_eq_done.mp hbrokerPrepareMs).2, (get32_eq_done.mp hmosquittoMs).2,
      (get32_eq_done.mp hchannelMs).2, (get32_eq_done.mp htotalMs).2, (get64_eq_done.mp hproxySwitchSequence).2,
      (get64_eq_done.mp hbrokerSwitchSequence).2, (get64_eq_done.mp hproxyConfigSequence).2,
      (get64_eq_done.mp hbrokerConfigSequence).2, (u32At_eq_done.mp hproxySwitchSize).2.2,
      (u32At_eq_done.mp hbrokerSwitchSize).2.2, (u32At_eq_done.mp hproxyConfigSize).2.2,
      (u32At_eq_done.mp hbrokerConfigSize).2.2, (get64_eq_done.mp hconSequence).2, (u32At_eq_done.mp hconSize).2.2,
      (get32_eq_done.mp hconPid).2, (readBlock_eq_done.mp hconCreated).2, (readBlock_eq_done.mp hthumbprint).2,
      hzeros⟩

theorem decode_encode (h : valid win roots p = .done ()) (hlimit : planSize p ≤ planLimit) :
    ∃ b, encode win roots p = .done b ∧ decode win roots b = .done p :=
  ⟨_, bind_done h (require_done hlimit rfl), decode_of_sealed h hlimit (sealed_signedRecord win.sha256 (parts p))⟩

theorem encode_decode (h : decode win roots b = .done p) : encode win roots p = .done b := by
  obtain ⟨hvalid, hlimit, hsealed⟩ := sealed_of_decode h
  rw [← hsealed.eq_signedRecord]
  exact bind_done hvalid (require_done hlimit rfl)

end Canonical

end EtranProcessing.Deployment.CommunicationCodec
