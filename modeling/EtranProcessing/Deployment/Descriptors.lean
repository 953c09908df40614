import EtranProcessing.Library.RawMemory
import EtranProcessing.Library.LittleEndian

namespace EtranProcessing.Deployment.Descriptors

open Library.RawMemory Library.LittleEndian

abbrev Bytes := List UInt8

/-- What the system says of the bytes of a SID and of a descriptor. -/
structure Security where
  isLocalSystem : Bytes → Bool
  isAdministrators : Bytes → Bool
  isValidSid : Bytes → Bool
  isValidDescriptor : Bytes → Bool
  descriptorLength : Bytes → Nat

def numberAt (width : Nat) (b : Bytes) (offset : Nat) : Checked Nat := do
  let bytes ← readAt b offset width
  pure (ofBytes bytes)

def byteAt (b : Bytes) (offset : Nat) : Checked Nat := numberAt 1 b offset
def u16At (b : Bytes) (offset : Nat) : Checked Nat := numberAt 2 b offset
def u32At (b : Bytes) (offset : Nat) : Checked Nat := numberAt 4 b offset
def u64At (b : Bytes) (offset : Nat) : Checked Nat := numberAt 8 b offset

def sidRevision : Nat := 1
def maxSubAuthorities : Nat := 15
def aclSizeMin : Nat := 8
def aceSizeMin : Nat := 12
def selfRelative : Nat := 0x8000
def daclPresent : Nat := 4

def readExecute : UInt32 := 0x00120089 ||| 0x001200a0 ||| 0x80000000 ||| 0x20000000

def sidAt (sd : Bytes) (offset : Nat) : Checked Bytes := do
  let count ← byteAt sd (offset + 1)
  readAt sd offset (8 + 4 * count)

def Security.trusted (sec : Security) (sid : Bytes) : Bool := sec.isLocalSystem sid || sec.isAdministrators sid

def sidRange (sd : Bytes) (size offset : Nat) : Checked Bool :=
  if offset = 0 ∨ size < offset then pure false
  else do
    let left ← minus size offset
    if left < 8 then pure false
    else
      let revision ← byteAt sd offset
      let count ← byteAt sd (offset + 1)
      pure (decide (revision = sidRevision ∧ count ≤ maxSubAuthorities ∧ 8 + 4 * count ≤ left))

structure DescriptorHeader where
  revision : Nat
  control : Nat
  owner : Nat
  group : Nat
  sacl : Nat
  dacl : Nat

def descriptorHeader (sd : Bytes) : Checked DescriptorHeader := do
  let header ← readAt sd 0 20
  let revision ← byteAt header 0
  let control ← u16At header 2
  let owner ← u32At header 4
  let group ← u32At header 8
  let sacl ← u32At header 12
  let dacl ← u32At header 16
  pure ⟨revision, control, owner, group, sacl, dacl⟩

/-- The entries of the list; whoever is not trusted may read and execute only. -/
def aceLoop (sec : Security) (sd : Bytes) (end' : Nat) : Nat → Nat → Checked Unit
  | 0, _ => pure ()
  | count + 1, offset => do
      require (offset ≤ end')
      let left ← minus end' offset
      require (aceSizeMin ≤ left)
      let ace ← readAt sd offset aceSizeMin
      let aceType ← byteAt ace 0
      let aceSize ← u16At ace 2
      let mask ← u32At ace 4
      require (aceType = 0 ∧ aceSizeMin ≤ aceSize ∧ aceSize &&& 3 = 0)
      let left ← minus end' offset
      require (aceSize ≤ left)
      let ranged ← sidRange sd (offset + aceSize) (offset + 8)
      require (ranged = true)
      let sid ← sidAt sd (offset + 8)
      require (sec.trusted sid = true ∨ UInt32.ofNat mask &&& ~~~readExecute = 0)
      aceLoop sec sd end' count (offset + aceSize)

def policyAligned (sec : Security) (sd : Bytes) : Checked Unit := do
  require (20 ≤ sd.length ∧ sd.length ≤ 4096)
  let header ← descriptorHeader sd
  require (header.revision = 1 ∧ header.control &&& selfRelative ≠ 0 ∧ header.control &&& daclPresent ≠ 0 ∧
    header.sacl = 0 ∧ (header.owner ||| header.group ||| header.dacl) &&& 3 = 0)
  let owner ← sidRange sd sd.length header.owner
  require (owner = true)
  let group ← sidRange sd sd.length header.group
  require (group = true)
  require (header.dacl ≠ 0 ∧ header.dacl ≤ sd.length)
  let left ← minus sd.length header.dacl
  require (aclSizeMin ≤ left)
  let acl ← readAt sd header.dacl aclSizeMin
  let revision ← byteAt acl 0
  let aclSize ← u16At acl 2
  let aceCount ← u16At acl 4
  require (revision = 2 ∧ aceCount ≠ 0 ∧ aclSizeMin ≤ aclSize)
  let left ← minus sd.length header.dacl
  require (aclSize ≤ left)
  aceLoop sec sd (header.dacl + aclSize) aceCount (header.dacl + aclSizeMin)
  let sid ← sidAt sd header.owner
  require (sec.trusted sid = true ∧ sec.isValidDescriptor sd = true ∧ sec.descriptorLength sd = sd.length)

def policy (sec : Security) (sd : Bytes) : Checked Unit := do
  require (sd.length ≤ 4096)
  policyAligned sec sd

/-- The owner or the group of a saved configuration. -/
def configSid (sec : Security) (sd : Bytes) (offset : Nat) : Checked Unit := do
  require (offset &&& 3 = 0 ∧ 20 ≤ offset ∧ offset ≤ sd.length)
  let left ← minus sd.length offset
  require (8 ≤ left)
  let revision ← byteAt sd offset
  require (revision = sidRevision)
  let count ← byteAt sd (offset + 1)
  require (count ≤ maxSubAuthorities ∧ 8 + 4 * count ≤ left)
  let sid ← sidAt sd offset
  require (sec.isValidSid sid = true)

def configGroup (sec : Security) (sd : Bytes) (offset : Nat) : Checked Unit :=
  if offset = 0 then pure () else configSid sec sd offset

def configAceLoop (sec : Security) (sd : Bytes) (acl aclSize : Nat) : Nat → Nat → Checked Unit
  | 0, _ => pure ()
  | count + 1, offset => do
      require (offset ≤ aclSize)
      let left ← minus aclSize offset
      require (16 ≤ left)
      let ace ← readAt sd (acl + offset) aceSizeMin
      let aceType ← byteAt ace 0
      let aceSize ← u16At ace 2
      let mask ← u32At ace 4
      require (aceType = 0 ∧ aceSize &&& 3 = 0 ∧ 16 ≤ aceSize ∧ aceSize ≤ left)
      let revision ← byteAt sd (acl + offset + 8)
      require (revision = sidRevision)
      let subAuthorities ← byteAt sd (acl + offset + 9)
      require (subAuthorities ≤ maxSubAuthorities ∧ 16 + 4 * subAuthorities ≤ aceSize)
      let sid ← sidAt sd (acl + offset + 8)
      require (sec.isValidSid sid = true)
      require (sec.trusted sid = true ∨ UInt32.ofNat mask &&& ~~~readExecute = 0)
      configAceLoop sec sd acl aclSize count (offset + aceSize)

/-- The saved configuration of a public broker: its path, the old and the new bytes and a bounded descriptor. -/
def config (sec : Security) (b path : Bytes) : Checked Unit := do
  require (24 ≤ b.length)
  let version ← u32At b 0
  let existed ← u32At b 4
  require (version = 1 ∧ existed = 1)
  let n ← u32At b 8
  let old ← u32At b 12
  let next ← u32At b 16
  let sdSize ← u32At b 20
  require (n = path.length ∧ old ≤ 65536 ∧ next ≤ 65536 ∧ 20 ≤ sdSize ∧ sdSize ≤ 4096 ∧
    24 + n + old + next + sdSize = b.length)
  let name ← readAt b 24 n
  require (name = path)
  let sd ← readAt b (24 + n + old + next) sdSize
  let header ← descriptorHeader sd
  require (header.revision = 1 ∧ header.control &&& selfRelative ≠ 0 ∧ header.control &&& daclPresent ≠ 0 ∧
    header.sacl = 0 ∧ header.owner ≠ 0 ∧ header.dacl ≠ 0)
  configSid sec sd header.owner
  configGroup sec sd header.group
  require (header.dacl &&& 3 = 0 ∧ 20 ≤ header.dacl ∧ header.dacl ≤ sd.length)
  let left ← minus sd.length header.dacl
  require (aclSizeMin ≤ left)
  let acl ← readAt sd header.dacl aclSizeMin
  let aclSize ← u16At acl 2
  let aceCount ← u16At acl 4
  require (aclSizeMin ≤ aclSize ∧ aclSize ≤ left ∧ aceCount ≠ 0)
  configAceLoop sec sd header.dacl aclSize aceCount aclSizeMin
  let sid ← sidAt sd header.owner
  require (sec.trusted sid = true ∧ sec.isValidDescriptor sd = true ∧ sec.descriptorLength sd = sd.length)

section Sound

variable {sec : Security} {b sd : Bytes}

variable {offset : Nat} {post : Nat → Prop}

theorem sound_numberAt {width offset : Nat} (h : offset + width ≤ b.length)
    (hpost : ∀ n, n < 256 ^ width → post n) : Sound (numberAt width b offset) post := by
  rw [numberAt, sound_bind, sound_readAt]
  refine ⟨h, hpost _ ?_⟩
  have hlt := ofBytes_lt (Library.Buffers.slice b offset width)
  rwa [Library.Buffers.length_slice h] at hlt

theorem sound_byteAt (h : offset < b.length) (hpost : ∀ n, post n) :
    Sound (byteAt b offset) post :=
  sound_numberAt h fun n _ => hpost n

theorem sound_u16At (h : offset + 2 ≤ b.length) (hpost : ∀ n, post n) :
    Sound (u16At b offset) post :=
  sound_numberAt h fun n _ => hpost n

theorem sound_u32At (h : offset + 4 ≤ b.length) (hpost : ∀ n, post n) :
    Sound (u32At b offset) post :=
  sound_numberAt h fun n _ => hpost n

theorem byteAt_eq (h : offset < b.length) :
    byteAt b offset = .done (ofBytes (Library.Buffers.slice b offset 1)) := by
  rw [byteAt, numberAt, bind_eq_done]
  exact ⟨_, readAt_eq_done.mpr ⟨h, rfl⟩, rfl⟩

theorem sound_sidAt (h : offset + 1 < b.length)
    (hfits : offset + (8 + 4 * ofBytes (Library.Buffers.slice b (offset + 1) 1)) ≤ b.length) :
    Sound (sidAt b offset) fun _ => True := by
  rw [sidAt, byteAt_eq h]
  exact sound_readAt.mpr ⟨hfits, trivial⟩

theorem sound_sidRange {size offset : Nat} (hsize : size ≤ sd.length) :
    Sound (sidRange sd size offset) fun ok => ok = true → Sound (sidAt sd offset) fun _ => True := by
  unfold sidRange
  rw [sound_ite]
  refine ⟨fun _ => by simp, fun hin => ?_⟩
  simp only [not_or, Nat.not_lt] at hin
  rw [sound_bind, sound_minus]
  refine ⟨hin.2, ?_⟩
  rw [sound_ite]
  refine ⟨fun _ => by simp, fun hroom => ?_⟩
  rw [byteAt_eq (by omega), byteAt_eq (by omega)]
  intro hok
  obtain ⟨-, -, hfits⟩ := of_decide_eq_true hok
  exact sound_sidAt (by omega) (by omega)

theorem sound_descriptorHeader (h : 20 ≤ sd.length) {post : DescriptorHeader → Prop} (hpost : ∀ header, post header) :
    Sound (descriptorHeader sd) post := by
  rw [descriptorHeader, sound_bind, sound_readAt]
  refine ⟨h, ?_⟩
  have hlength := @Library.Buffers.length_slice _ sd 0 20 h
  generalize Library.Buffers.slice sd 0 20 = header at hlength
  refine .bind (sound_byteAt (by omega) fun _ => trivial) fun _ _ => ?_
  refine .bind (sound_u16At (by omega) fun _ => trivial) fun _ _ => ?_
  refine .bind (sound_u32At (by omega) fun _ => trivial) fun _ _ => ?_
  refine .bind (sound_u32At (by omega) fun _ => trivial) fun _ _ => ?_
  refine .bind (sound_u32At (by omega) fun _ => trivial) fun _ _ => ?_
  refine .bind (sound_u32At (by omega) fun _ => trivial) fun _ _ => ?_
  exact hpost _

theorem sound_aceLoop {end' : Nat} (hend : end' ≤ sd.length) (count offset : Nat) :
    Sound (aceLoop sec sd end' count offset) fun _ => True := by
  induction count generalizing offset with
  | zero => trivial
  | succ count ih =>
      rw [aceLoop, sound_bind, sound_require]
      intro hoffset
      rw [sound_bind, sound_minus]
      refine ⟨hoffset, ?_⟩
      rw [sound_bind, sound_require]
      intro hroom
      unfold aceSizeMin at hroom
      rw [sound_bind, sound_readAt]
      refine ⟨by unfold aceSizeMin; omega, ?_⟩
      have hlength := @Library.Buffers.length_slice _ sd offset 12 (by omega)
      rw [show aceSizeMin = 12 from rfl]
      generalize Library.Buffers.slice sd offset 12 = ace at hlength
      refine .bind (sound_byteAt (by omega) fun _ => trivial) fun aceType _ => ?_
      refine .bind (sound_u16At (by omega) fun _ => trivial) fun aceSize _ => ?_
      refine .bind (sound_u32At (by omega) fun _ => trivial) fun mask _ => ?_
      rw [sound_bind, sound_require]
      rintro ⟨-, -, -⟩
      rw [sound_bind, sound_minus]
      refine ⟨hoffset, ?_⟩
      rw [sound_bind, sound_require]
      intro hfits
      refine .bind (sound_sidRange (by omega)) fun ranged hranged => ?_
      rw [sound_bind, sound_require]
      intro hok
      refine .bind (hranged hok) fun sid _ => ?_
      rw [sound_bind, sound_require]
      intro _
      exact ih (offset + aceSize)

theorem sound_policyAligned (sd : Bytes) : Sound (policyAligned sec sd) fun _ => True := by
  rw [policyAligned, sound_bind, sound_require]
  rintro ⟨hlarge, -⟩
  refine .bind (sound_descriptorHeader hlarge fun _ => trivial) fun header _ => ?_
  rw [sound_bind, sound_require]
  intro _
  refine .bind (sound_sidRange le_rfl) fun owner howner => ?_
  rw [sound_bind, sound_require]
  intro hok
  refine .bind (sound_sidRange le_rfl) fun group _ => ?_
  rw [sound_bind, sound_require]
  intro _
  rw [sound_bind, sound_require]
  rintro ⟨-, hdacl⟩
  rw [sound_bind, sound_minus]
  refine ⟨hdacl, ?_⟩
  rw [sound_bind, sound_require]
  intro hroom
  rw [sound_bind, sound_readAt]
  refine ⟨by omega, ?_⟩
  have hlength := @Library.Buffers.length_slice _ sd header.dacl aclSizeMin (by omega)
  generalize Library.Buffers.slice sd header.dacl aclSizeMin = acl at hlength
  unfold aclSizeMin at hlength
  refine .bind (sound_byteAt (by omega) fun _ => trivial) fun revision _ => ?_
  refine .bind (sound_u16At (by omega) fun _ => trivial) fun aclSize _ => ?_
  refine .bind (sound_u16At (by omega) fun _ => trivial) fun aceCount _ => ?_
  rw [sound_bind, sound_require]
  intro _
  rw [sound_bind, sound_minus]
  refine ⟨hdacl, ?_⟩
  rw [sound_bind, sound_require]
  intro hfits
  refine .bind (sound_aceLoop (by omega) _ _) fun _ _ => ?_
  refine .bind (howner hok) fun sid _ => ?_
  rw [sound_require]
  exact fun _ => trivial

theorem sound_policy (sd : Bytes) : Sound (policy sec sd) fun _ => True := by
  rw [policy, sound_bind, sound_require]
  exact fun _ => sound_policyAligned sd

theorem sound_configSid : Sound (configSid sec sd offset) fun _ => Sound (sidAt sd offset) fun _ => True := by
  rw [configSid, sound_bind, sound_require]
  rintro ⟨-, -, hoffset⟩
  rw [sound_bind, sound_minus]
  refine ⟨hoffset, ?_⟩
  rw [sound_bind, sound_require]
  intro hroom
  rw [byteAt_eq (by omega), byteAt_eq (by omega)]
  rw [sound_bind, sound_done, sound_bind, sound_require]
  intro _
  rw [sound_bind, sound_done, sound_bind, sound_require]
  rintro ⟨-, hfits⟩
  have hsid : Sound (sidAt sd offset) fun _ => True := sound_sidAt (by omega) (by omega)
  refine .bind hsid fun sid _ => ?_
  rw [sound_require]
  exact fun _ => hsid

theorem sound_configAceLoop {acl aclSize : Nat} (hacl : acl + aclSize ≤ sd.length) (count offset : Nat) :
    Sound (configAceLoop sec sd acl aclSize count offset) fun _ => True := by
  induction count generalizing offset with
  | zero => trivial
  | succ count ih =>
      rw [configAceLoop, sound_bind, sound_require]
      intro hoffset
      rw [sound_bind, sound_minus]
      refine ⟨hoffset, ?_⟩
      rw [sound_bind, sound_require]
      intro hroom
      rw [sound_bind, sound_readAt]
      refine ⟨by unfold aceSizeMin; omega, ?_⟩
      have hlength := @Library.Buffers.length_slice _ sd (acl + offset) 12 (by omega)
      rw [show aceSizeMin = 12 from rfl]
      generalize Library.Buffers.slice sd (acl + offset) 12 = ace at hlength
      refine .bind (sound_byteAt (by omega) fun _ => trivial) fun aceType _ => ?_
      refine .bind (sound_u16At (by omega) fun _ => trivial) fun aceSize _ => ?_
      refine .bind (sound_u32At (by omega) fun _ => trivial) fun mask _ => ?_
      rw [sound_bind, sound_require]
      rintro ⟨-, -, -, hfits⟩
      refine .bind (sound_byteAt (by omega) fun _ => trivial) fun revision _ => ?_
      rw [sound_bind, sound_require]
      intro _
      rw [byteAt_eq (by omega), sound_bind, sound_done, sound_bind, sound_require]
      rintro ⟨-, hsub⟩
      have hsid : Sound (sidAt sd (acl + offset + 8)) fun _ => True := by
        refine sound_sidAt (by omega) ?_
        change acl + offset + 8 + (8 + 4 * ofBytes (Library.Buffers.slice sd (acl + offset + 9) 1)) ≤ sd.length
        omega
      refine .bind hsid fun sid _ => ?_
      rw [sound_bind, sound_require]
      intro _
      rw [sound_bind, sound_require]
      intro _
      exact ih (offset + aceSize)

theorem sound_config (b path : Bytes) : Sound (config sec b path) fun _ => True := by
  rw [config, sound_bind, sound_require]
  intro hsize
  refine .bind (sound_u32At (by omega) fun _ => trivial) fun version _ => ?_
  refine .bind (sound_u32At (by omega) fun _ => trivial) fun existed _ => ?_
  rw [sound_bind, sound_require]
  intro _
  refine .bind (sound_u32At (by omega) fun _ => trivial) fun n _ => ?_
  refine .bind (sound_u32At (by omega) fun _ => trivial) fun old _ => ?_
  refine .bind (sound_u32At (by omega) fun _ => trivial) fun next _ => ?_
  refine .bind (sound_u32At (by omega) fun _ => trivial) fun sdSize _ => ?_
  rw [sound_bind, sound_require]
  rintro ⟨-, -, -, hsd, -, htotal⟩
  rw [sound_bind, sound_readAt]
  refine ⟨by omega, ?_⟩
  rw [sound_bind, sound_require]
  intro _
  rw [sound_bind, sound_readAt]
  refine ⟨by omega, ?_⟩
  have hlength := @Library.Buffers.length_slice _ b (24 + n + old + next) sdSize (by omega)
  generalize Library.Buffers.slice b (24 + n + old + next) sdSize = sd at hlength
  refine .bind (sound_descriptorHeader (by omega) fun _ => trivial) fun header _ => ?_
  rw [sound_bind, sound_require]
  intro _
  refine .bind sound_configSid fun _ howner => ?_
  have hgroup : Sound (configGroup sec sd header.group) fun _ => True :=
    sound_ite.mpr ⟨fun _ => sound_pure.mpr trivial, fun _ => sound_configSid.mono fun _ _ => trivial⟩
  refine .bind hgroup fun _ _ => ?_
  rw [sound_bind, sound_require]
  rintro ⟨-, -, hdacl⟩
  rw [sound_bind, sound_minus]
  refine ⟨hdacl, ?_⟩
  rw [sound_bind, sound_require]
  intro hroom
  rw [sound_bind, sound_readAt]
  refine ⟨by omega, ?_⟩
  have hacl := @Library.Buffers.length_slice _ sd header.dacl aclSizeMin (by omega)
  generalize Library.Buffers.slice sd header.dacl aclSizeMin = acl at hacl
  unfold aclSizeMin at hacl
  refine .bind (sound_u16At (by omega) fun _ => trivial) fun aclSize _ => ?_
  refine .bind (sound_u16At (by omega) fun _ => trivial) fun aceCount _ => ?_
  rw [sound_bind, sound_require]
  rintro ⟨-, hfits, -⟩
  refine .bind (sound_configAceLoop (by omega) _ _) fun _ _ => ?_
  refine .bind howner fun sid _ => ?_
  rw [sound_require]
  exact fun _ => trivial

end Sound

end EtranProcessing.Deployment.Descriptors
