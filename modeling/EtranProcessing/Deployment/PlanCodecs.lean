import EtranProcessing.Deployment.RecoveryCodec
import EtranProcessing.Deployment.CommunicationCodec

namespace EtranProcessing.Deployment.PlanCodecs

open Library.RawMemory Paths Descriptors PlanFields SwitchRecords

/-- The two plans and their bytes determine each other, and no read leaves its buffer and no difference goes below zero
    whatever bytes are decoded and whatever plans are checked. -/
theorem plans_canonical (win : Windows) (roots : Layout) :
    (∀ p, RecoveryCodec.valid win roots p = .done () →
      ∃ b, RecoveryCodec.encode win roots p = .done b ∧ RecoveryCodec.decode win roots b = .done p) ∧
    (∀ b p, RecoveryCodec.decode win roots b = .done p → RecoveryCodec.encode win roots p = .done b) ∧
    (∀ p, CommunicationCodec.valid win roots p = .done () →
      CommunicationCodec.planSize p ≤ CommunicationCodec.planLimit →
      ∃ b, CommunicationCodec.encode win roots p = .done b ∧ CommunicationCodec.decode win roots b = .done p) ∧
    (∀ b p, CommunicationCodec.decode win roots b = .done p → CommunicationCodec.encode win roots p = .done b) ∧
    (∀ b, RecoveryCodec.decode win roots b ≠ .fault) ∧ (∀ p, RecoveryCodec.valid win roots p ≠ .fault) ∧
    (∀ b, CommunicationCodec.decode win roots b ≠ .fault) ∧ (∀ p, CommunicationCodec.valid win roots p ≠ .fault) ∧
    (∀ b, switchDecode win roots b ≠ .fault) :=
  ⟨fun _ => RecoveryCodec.decode_encode, fun _ _ => RecoveryCodec.encode_decode,
    fun _ => CommunicationCodec.decode_encode, fun _ _ => CommunicationCodec.encode_decode,
    fun b => (RecoveryCodec.sound_decode b).ne_fault, fun p => (RecoveryCodec.sound_valid p).ne_fault,
    fun b => (CommunicationCodec.sound_decode b).ne_fault, fun p => (CommunicationCodec.sound_valid p).ne_fault,
    fun b => (sound_switchDecode roots b).ne_fault⟩

/-- A system that trusts the SID of the local system only. -/
def sampleWindows : Windows where
  getFullPathName := some
  programFiles := none
  programData := none
  isLocalSystem sid := sid == [1, 1, 0, 0, 0, 0, 0, 5, 18, 0, 0, 0]
  isAdministrators _ := false
  isValidSid _ := true
  isValidDescriptor _ := true
  descriptorLength := List.length
  utf8ToWide bytes := some (bytes.map fun b => UInt16.ofNat b.toNat)
  sha256 bytes := ⟨List.replicate 32 (UInt8.ofNat bytes.length), by simp⟩

def block (n : Nat) : Block n := ⟨List.replicate n 1, by simp⟩

end EtranProcessing.Deployment.PlanCodecs
