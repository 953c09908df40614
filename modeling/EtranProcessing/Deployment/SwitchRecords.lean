import EtranProcessing.Deployment.PlanFields

namespace EtranProcessing.Deployment.SwitchRecords

open Library.RawMemory Library.LittleEndian Paths Descriptors PlanFields

structure Windows extends System, Security where
  -- the conversion from UTF-8 refuses what is not well formed
  utf8ToWide : Bytes → Option Wide
  sha256 : Bytes → Block 32

structure Reader where
  place : Nat
  ok : Bool

def switchNumber (b : Bytes) (width : Nat) (c : Reader) : Checked (Nat × Reader) :=
  if b.length < c.place + width then pure (0, { c with ok := false })
  else do
    let n ← numberAt width b c.place
    pure (n, { c with place := c.place + width })

def switchText (win : Windows) (b : Bytes) (n capacity : Nat) (c : Reader) : Checked (Wide × Reader) := do
  let left ← minus b.length c.place
  if left < n then pure ([], { c with ok := false })
  else
    let bytes ← readAt b c.place n
    if 0 ∈ bytes then pure ([], { c with ok := false })
    else
      match win.utf8ToWide bytes with
      | none => pure ([], { c with ok := false })
      | some text =>
          if text = [] ∨ capacity ≤ text.length then pure ([], { c with ok := false })
          else pure (text, { c with place := c.place + n })

def switchString (win : Windows) (b : Bytes) (capacity : Nat) (c : Reader) : Checked (Wide × Reader) := do
  let (n, c) ← switchNumber b 4 c
  if c.ok = false ∨ n = 0 ∨ 8192 < n then pure ([], { c with ok := false })
  else switchText win b n capacity c

structure ServiceSwitch where
  layout : Layout
  service : Wide
  account : Wide
  imagePath : Wide
  after : Wide
  startType : Nat
  size : Nat
  beforeSize : Nat
  sha256 : Block 32
  beforeSha256 : Block 32

def switchDecode (win : Windows) (roots : Layout) (b : Bytes) : Checked ServiceSwitch := do
  require (b.length ≤ 16384)
  let (version, c) ← switchNumber b 4 ⟨0, true⟩
  let c := if version = 1 then c else { c with ok := false }
  let (binaries, c) ← switchString win b maxPath c
  let (data, c) ← switchString win b maxPath c
  let (release, c) ← switchString win b 32 c
  let (service, c) ← switchString win b 32 c
  let (account, c) ← switchString win b 256 c
  let (imagePath, c) ← switchString win b 2048 c
  let (after, c) ← switchString win b 2048 c
  let (startType, c) ← switchNumber b 4 c
  let (size, c) ← switchNumber b 8 c
  let (beforeSize, c) ← switchNumber b 8 c
  require (c.ok = true ∧ c.place + 64 = b.length)
  let sha256 ← readBlock b c.place 32
  let beforeSha256 ← readBlock b (c.place + 32) 32
  let layout ← found (fromRoots win.toSystem binaries data release)
  require (wcsicmp layout.data roots.data = true ∧ wcsicmp layout.binaries roots.binaries = true)
  pure ⟨layout, service, account, imagePath, after, startType, size, beforeSize, sha256, beforeSha256⟩

/-- The image of a command and what follows it; the image is the executable of a component in a release. -/
def command (win : Windows) (roots : Layout) (name text : Wide) : Option (Wide × Wide) :=
  if 2048 ≤ text.length then none
  else
    match text with
    | 34 :: tail =>
        let image := tail.takeWhile (· ≠ 34)
        match tail.dropWhile (· ≠ 34) with
        | [] => none
        | _ :: suffix =>
            if (suffix.head?.any fun c => c != 32 && c != 9) = true ∨ maxPath ≤ image.length then none
            else
              let pre := roots.binaries ++ wide "\\releases\\"
              if maxPath ≤ pre.length ∨ image.take pre.length ≠ pre then none
              else
                let rest := image.drop pre.length
                let version := rest.takeWhile (· ≠ slash)
                if slash ∉ rest ∨ 32 ≤ version.length then none
                else do
                  let layout ← fromRoots win.toSystem roots.binaries roots.data version
                  let expected ← component layout.release name (name ++ wide ".exe")
                  if image = expected then some (image, suffix) else none
    | _ => none

section Sound

variable {win : Windows} {roots : Layout} {b : Bytes}

theorem sound_switchNumber {width : Nat} {c : Reader} (h : c.place ≤ b.length) :
    Sound (switchNumber b width c) fun r => r.2.place ≤ b.length := by
  unfold switchNumber
  rw [sound_ite]
  refine ⟨fun _ => h, fun hroom => ?_⟩
  rw [sound_bind]
  exact sound_numberAt (by omega) fun n _ => sound_pure.mpr (by dsimp only; omega)

theorem sound_switchText {n capacity : Nat} {c : Reader} (h : c.place ≤ b.length) :
    Sound (switchText win b n capacity c) fun r => r.2.place ≤ b.length := by
  rw [switchText, sound_bind, sound_minus]
  refine ⟨h, ?_⟩
  rw [sound_ite]
  refine ⟨fun _ => h, fun hroom => ?_⟩
  rw [sound_bind, sound_readAt]
  refine ⟨by omega, ?_⟩
  rw [sound_ite]
  refine ⟨fun _ => h, fun _ => ?_⟩
  split
  · exact h
  · rw [sound_ite]
    exact ⟨fun _ => h, fun _ => sound_pure.mpr (by dsimp only; omega)⟩

theorem sound_switchString {capacity : Nat} {c : Reader} (h : c.place ≤ b.length) :
    Sound (switchString win b capacity c) fun r => r.2.place ≤ b.length := by
  unfold switchString
  refine .bind (sound_switchNumber h) ?_
  rintro ⟨n, c⟩ hc
  dsimp only
  rw [sound_ite]
  exact ⟨fun _ => hc, fun _ => sound_switchText hc⟩

theorem sound_switchDecode (roots : Layout) (b : Bytes) : Sound (switchDecode win roots b) fun _ => True := by
  rw [switchDecode, sound_bind, sound_require]
  intro _
  refine .bind (sound_switchNumber (Nat.zero_le _)) ?_
  rintro ⟨version, c⟩ hc
  have hversion : (if version = 1 then c else { c with ok := false }).place ≤ b.length := by
    split_ifs <;> exact hc
  refine .bind (sound_switchString hversion) ?_
  rintro ⟨binaries, c⟩ hc
  refine .bind (sound_switchString hc) ?_
  rintro ⟨data, c⟩ hc
  refine .bind (sound_switchString hc) ?_
  rintro ⟨release, c⟩ hc
  refine .bind (sound_switchString hc) ?_
  rintro ⟨service, c⟩ hc
  refine .bind (sound_switchString hc) ?_
  rintro ⟨account, c⟩ hc
  refine .bind (sound_switchString hc) ?_
  rintro ⟨imagePath, c⟩ hc
  refine .bind (sound_switchString hc) ?_
  rintro ⟨after, c⟩ hc
  refine .bind (sound_switchNumber hc) ?_
  rintro ⟨startType, c⟩ hc
  refine .bind (sound_switchNumber hc) ?_
  rintro ⟨size, c⟩ hc
  refine .bind (sound_switchNumber hc) ?_
  rintro ⟨beforeSize, c⟩ hc
  dsimp only
  rw [sound_bind, sound_require]
  rintro ⟨-, hend⟩
  refine .bind (sound_readBlock (by omega) fun _ => trivial) fun sha256 _ => ?_
  refine .bind (sound_readBlock (by omega) fun _ => trivial) fun beforeSha256 _ => ?_
  rw [sound_bind, sound_found]
  intro layout _
  rw [sound_bind, sound_require]
  exact fun _ => trivial

end Sound

end EtranProcessing.Deployment.SwitchRecords
