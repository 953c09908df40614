import EtranProcessing.Deployment.Paths
import EtranProcessing.Deployment.Descriptors

namespace EtranProcessing.Deployment.PlanFields

open Library.RawMemory Library.LittleEndian Library.Buffers Paths Descriptors

structure Block (n : Nat) where
  bytes : Bytes
  size : bytes.length = n
  deriving DecidableEq

def readBlock (b : Bytes) (offset n : Nat) : Checked (Block n) :=
  if h : offset + n ≤ b.length then .done ⟨slice b offset n, length_slice h⟩ else .fault

def nonzero (bytes : Bytes) : Bool := bytes.any (· != 0)

structure Text where
  units : Wide
  zeroFree : 0 ∉ units
  deriving DecidableEq

def wideBytes (units : Wide) : Bytes := units.flatMap fun c => toBytes 2 c.toNat

def wideUnits : Bytes → Wide
  | low :: high :: rest => UInt16.ofNat (ofBytes [low, high]) :: wideUnits rest
  | _ => []

def textOf (bytes : Bytes) : Option Text :=
  if h : 0 ∉ wideUnits bytes then some ⟨wideUnits bytes, h⟩ else none

def store32 (v : UInt32) : Bytes := toBytes 4 v.toNat
def store64 (v : UInt64) : Bytes := toBytes 8 v.toNat

def get32 (b : Bytes) (offset : Nat) : Checked UInt32 := do
  let n ← u32At b offset
  pure (UInt32.ofNat n)

def get64 (b : Bytes) (offset : Nat) : Checked UInt64 := do
  let n ← u64At b offset
  pure (UInt64.ofNat n)

@[simp] theorem length_store32 (v : UInt32) : (store32 v).length = 4 := length_toBytes 4 _

@[simp] theorem length_store64 (v : UInt64) : (store64 v).length = 8 := length_toBytes 8 _

def signedRecord (sha256 : Bytes → Block 32) (parts : List Bytes) : Bytes := parts.flatten ++ (sha256 parts.flatten).bytes

structure Sealed (sha256 : Bytes → Block 32) (parts : List Bytes) (b : Bytes) : Prop where
  size : (parts.map List.length).sum + 32 = b.length
  parts : cut b 0 (parts.map List.length) = parts
  digest : (sha256 (slice b 0 (b.length - 32))).bytes = slice b (b.length - 32) 32

section Seals

variable {sha256 : Bytes → Block 32} {parts : List Bytes} {b : Bytes}

theorem sealed_signedRecord (sha256 : Bytes → Block 32) (parts : List Bytes) : Sealed sha256 parts (signedRecord sha256 parts) := by
  have hlength : (signedRecord sha256 parts).length = (parts.map List.length).sum + 32 := by
    rw [signedRecord, List.length_append, List.length_flatten, Block.size]
  have hsigned : (parts.map List.length).sum = parts.flatten.length := List.length_flatten.symm
  refine ⟨hlength.symm, cut_flatten parts _, ?_⟩
  rw [hlength, Nat.add_sub_cancel, hsigned, slice_zero, signedRecord, List.take_left, slice, List.drop_left,
    List.take_of_length_le (le_of_eq (Block.size _))]

theorem Sealed.eq_signedRecord (h : Sealed sha256 parts b) : signedRecord sha256 parts = b := by
  have hsize := h.size
  have hsigned : parts.flatten = slice b 0 (b.length - 32) := by
    calc
      parts.flatten = (cut b 0 (parts.map List.length)).flatten := by rw [h.parts]
      _ = slice b 0 (parts.map List.length).sum := flatten_cut b _ 0
      _ = slice b 0 (b.length - 32) := by rw [← hsize, Nat.add_sub_cancel]
  rw [signedRecord, hsigned, h.digest]
  exact slice_all (by omega)

end Seals

section Texts

theorem wideUnits_wideBytes (units : Wide) : wideUnits (wideBytes units) = units := by
  induction units with
  | nil => rfl
  | cons c units ih =>
      have hc : ofBytes (toBytes 2 c.toNat) = c.toNat := ofBytes_toBytes_of_lt c.toNat_lt
      change UInt16.ofNat (ofBytes (toBytes 2 c.toNat)) :: wideUnits (wideBytes units) = c :: units
      rw [hc, ih, UInt16.ofNat_toNat]

theorem wideBytes_wideUnits (bytes : Bytes) (h : bytes.length % 2 = 0) : wideBytes (wideUnits bytes) = bytes := by
  induction bytes using wideUnits.induct with
  | case1 low high rest ih =>
      have hlt := ofBytes_lt [low, high]
      simp only [List.length_cons, List.length_nil, Nat.zero_add, Nat.reduceAdd, Nat.reducePow] at hlt
      have hunit : (UInt16.ofNat (ofBytes [low, high])).toNat = ofBytes [low, high] := by
        rw [UInt16.toNat_ofNat']
        omega
      have hpair : toBytes 2 (ofBytes [low, high]) = [low, high] := toBytes_ofBytes [low, high]
      simp only [List.length_cons] at h
      change toBytes 2 (UInt16.ofNat (ofBytes [low, high])).toNat ++ wideBytes (wideUnits rest) = _
      rw [hunit, hpair, ih (by omega)]
      rfl
  | case2 bytes hshort =>
      match bytes, hshort, h with
      | [], _, _ => rfl
      | [b], _, h => simp at h
      | low :: high :: rest, hshort, _ => exact (hshort low high rest rfl).elim

theorem length_wideBytes (units : Wide) : (wideBytes units).length = 2 * units.length := by
  induction units with
  | nil => rfl
  | cons c units ih =>
      rw [wideBytes, List.flatMap_cons, List.length_append, length_toBytes]
      rw [wideBytes] at ih
      rw [ih, List.length_cons]
      omega

theorem textOf_wideBytes (t : Text) : textOf (wideBytes t.units) = some t := by
  unfold textOf
  rw [dif_pos (by rw [wideUnits_wideBytes]; exact t.zeroFree)]
  simp only [wideUnits_wideBytes]

theorem wideBytes_of_textOf {bytes : Bytes} {t : Text} (heven : bytes.length % 2 = 0) (h : textOf bytes = some t) :
    wideBytes t.units = bytes := by
  unfold textOf at h
  split_ifs at h
  obtain rfl := Option.some.inj h
  exact wideBytes_wideUnits bytes heven

end Texts

section Reads

variable {b : Bytes} {offset : Nat}

theorem bind_done {α β : Type} {x : Checked α} {f : α → Checked β} {a : α} {c : β} (h : x = .done a) (hf : f a = .done c) :
    (x >>= f) = .done c := bind_eq_done.mpr ⟨a, h, hf⟩

theorem require_done {α : Type} {p : Prop} [Decidable p] {f : Unit → Checked α} {c : α} (h : p) (hf : f () = .done c) :
    (require p >>= f) = .done c := bind_eq_done.mpr ⟨(), require_eq_done.mpr h, hf⟩

theorem of_require_done {α : Type} {p : Prop} [Decidable p] {f : Unit → Checked α} {c : α} (h : (require p >>= f) = .done c) :
    p ∧ f () = .done c := by
  obtain ⟨u, hp, hf⟩ := bind_eq_done.mp h
  exact ⟨require_eq_done.mp hp, hf⟩

theorem numberAt_eq_done {width n : Nat} :
    numberAt width b offset = .done n ↔ offset + width ≤ b.length ∧ n < 256 ^ width ∧ slice b offset width = toBytes width n := by
  simp only [numberAt, bind_eq_done, readAt_eq_done, pure_eq_done]
  constructor
  · rintro ⟨bytes, ⟨hfits, rfl⟩, rfl⟩
    have hlength := length_slice hfits
    have hlt := ofBytes_lt (slice b offset width)
    rw [hlength] at hlt
    exact ⟨hfits, hlt, (toBytes_of_length hlength).symm⟩
  · rintro ⟨hfits, hlt, hslice⟩
    exact ⟨_, ⟨hfits, rfl⟩, hslice ▸ ofBytes_toBytes_of_lt hlt⟩

theorem u32At_eq_done {n : Nat} :
    u32At b offset = .done n ↔ offset + 4 ≤ b.length ∧ n < 2 ^ 32 ∧ slice b offset 4 = toBytes 4 n := numberAt_eq_done

theorem get32_eq_done {v : UInt32} : get32 b offset = .done v ↔ offset + 4 ≤ b.length ∧ slice b offset 4 = store32 v := by
  simp only [get32, bind_eq_done, u32At_eq_done, pure_eq_done]
  constructor
  · rintro ⟨n, ⟨hfits, hlt, hslice⟩, rfl⟩
    exact ⟨hfits, by rw [store32, UInt32.toNat_ofNat', Nat.mod_eq_of_lt hlt, hslice]⟩
  · rintro ⟨hfits, hslice⟩
    exact ⟨v.toNat, ⟨hfits, v.toNat_lt, hslice⟩, UInt32.ofNat_toNat⟩

theorem get64_eq_done {v : UInt64} : get64 b offset = .done v ↔ offset + 8 ≤ b.length ∧ slice b offset 8 = store64 v := by
  simp only [get64, u64At, bind_eq_done, numberAt_eq_done, pure_eq_done]
  constructor
  · rintro ⟨n, ⟨hfits, hlt, hslice⟩, rfl⟩
    have hsame : n % 2 ^ 64 = n := Nat.mod_eq_of_lt hlt
    exact ⟨hfits, by rw [store64, UInt64.toNat_ofNat', hsame, hslice]⟩
  · rintro ⟨hfits, hslice⟩
    exact ⟨v.toNat, ⟨hfits, v.toNat_lt, hslice⟩, UInt64.ofNat_toNat⟩

theorem readBlock_eq_done {n : Nat} {block : Block n} :
    readBlock b offset n = .done block ↔ offset + n ≤ b.length ∧ slice b offset n = block.bytes := by
  unfold readBlock
  split_ifs with h
  · obtain ⟨bytes, hsize⟩ := block
    simp [h]
  · simp [h]

theorem sound_readBlock {n : Nat} {post : Block n → Prop} (h : offset + n ≤ b.length) (hpost : ∀ block, post block) :
    Sound (readBlock b offset n) post := by
  rw [readBlock, dif_pos h]
  exact hpost _

theorem sound_get32 {post : UInt32 → Prop} (h : offset + 4 ≤ b.length) (hpost : ∀ v, post v) : Sound (get32 b offset) post :=
  .bind (sound_u32At h fun _ => trivial) fun _ _ => hpost _

theorem sound_get64 {post : UInt64 → Prop} (h : offset + 8 ≤ b.length) (hpost : ∀ v, post v) : Sound (get64 b offset) post :=
  .bind (sound_numberAt h fun _ _ => trivial) fun _ _ => hpost _

end Reads

end EtranProcessing.Deployment.PlanFields
