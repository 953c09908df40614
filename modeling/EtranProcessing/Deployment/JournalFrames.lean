import EtranProcessing.Deployment.Journal

namespace EtranProcessing.Deployment.JournalFrames

open Library.FrameLog Library.LittleEndian Journal

/-- What a reader must find at the front of the bytes to take a frame. -/
structure WholeFrame (sha256 : Bytes → Digest) (c : Cursor) (bs : Bytes) : Prop where
  kind : get32 bs ≠ 0
  length : get32 (bs.drop 4) ≤ maxRecord
  number : get64 (bs.drop 8) = (c.sequence + 1) % 2 ^ 64
  enough : frameSize + get32 (bs.drop 4) + 4 ≤ bs.length
  marker : get32 (bs.drop (frameSize + get32 (bs.drop 4))) = endMarker
  digest : (storeHash sha256 (bs.take 16 ++ c.digest.bytes)
    ((bs.drop frameSize).take (get32 (bs.drop 4)))).bytes = (bs.drop 16).take 32

def cursorAfter (sha256 : Bytes → Digest) (c : Cursor) (bs : Bytes) : Cursor :=
  ⟨get64 (bs.drop 8), storeHash sha256 (bs.take 16 ++ c.digest.bytes) ((bs.drop frameSize).take (get32 (bs.drop 4)))⟩

theorem dword_of_lt {n : Nat} (h : n < 2 ^ 32) : dword n = n := Nat.mod_eq_of_lt h

theorem dword_frame {n : Nat} (h : n ≤ maxRecord) : dword (frameSize + n + 4) = frameSize + n + 4 := by
  apply dword_of_lt
  unfold maxRecord at h
  unfold frameSize
  omega

variable {sha256 : Bytes → Digest}

theorem frame_fields {c : Cursor} {bs : Bytes} (hkind : get32 bs ≠ 0) (hlength : get32 (bs.drop 4) ≤ maxRecord)
    (hnumber : get64 (bs.drop 8) = (c.sequence + 1) % 2 ^ 64) :
    ¬ (get32 bs = 0 ∨ maxRecord < get32 (bs.drop 4) ∨ get64 (bs.drop 8) ≠ (c.sequence + 1) % 2 ^ 64) := by
  rintro (hzero | hlarge | hother)
  · exact hkind hzero
  · exact absurd hlength (Nat.not_le.mpr hlarge)
  · exact hother hnumber

theorem scanFrame_item {c : Cursor} {bs : Bytes} {r : Record} {next : Cursor} {size : Nat} :
    scanFrame sha256 c bs = .item r next size ↔
      WholeFrame sha256 c bs ∧ r = recordAt bs ∧ next = cursorAfter sha256 c bs ∧
        size = frameSize + get32 (bs.drop 4) + 4 := by
  unfold scanFrame
  constructor
  · intro h
    simp only at h
    split at h
    next => cases h
    next hhead =>
      split at h
      next => cases h
      next hfields =>
        simp only [not_or, ne_eq, Decidable.not_not, Nat.not_lt] at hfields
        obtain ⟨hkind, hlength, hnumber⟩ := hfields
        rw [dword_frame hlength] at h
        split at h
        next => cases h
        next henough =>
          split at h
          next hwhole =>
            cases h
            exact ⟨⟨hkind, hlength, hnumber, Nat.not_lt.mp henough, hwhole.1, hwhole.2⟩, rfl, rfl, rfl⟩
          next => cases h
  · rintro ⟨h, rfl, rfl, rfl⟩
    have henough := h.enough
    have hhead : ¬ bs.length < frameSize := by omega
    have hfields := frame_fields h.kind h.length h.number
    simp only [if_neg hhead, if_neg hfields, dword_frame h.length, if_neg (Nat.not_lt.mpr henough)]
    rw [if_pos ⟨h.marker, h.digest⟩]
    rfl

theorem take_drop_take {α : Type} (l : List α) {m k n : Nat} (h : k + n ≤ m) :
    ((l.take m).drop k).take n = (l.drop k).take n := by
  rw [List.drop_take, List.take_take, Nat.min_eq_left (by omega)]

theorem get32_take (l : Bytes) {m k : Nat} (h : k + 4 ≤ m) : get32 ((l.take m).drop k) = get32 (l.drop k) := by
  rw [get32, take_drop_take l h, get32]

theorem get64_take (l : Bytes) {m k : Nat} (h : k + 8 ≤ m) : get64 ((l.take m).drop k) = get64 (l.drop k) := by
  rw [get64, take_drop_take l h, get64]

theorem take_take_of_le {α : Type} (l : List α) {m n : Nat} (h : n ≤ m) : (l.take m).take n = l.take n := by
  rw [List.take_take, Nat.min_eq_left h]

theorem get32_take_front (l : Bytes) {m : Nat} (h : 4 ≤ m) : get32 (l.take m) = get32 l := by
  rw [get32, take_take_of_le l h, get32]

theorem WholeFrame.take {c : Cursor} {bs : Bytes} (h : WholeFrame sha256 c bs) {m : Nat}
    (hm : frameSize + get32 (bs.drop 4) + 4 ≤ m) :
    WholeFrame sha256 c (bs.take m) ∧ recordAt (bs.take m) = recordAt bs ∧
      cursorAfter sha256 c (bs.take m) = cursorAfter sha256 c bs ∧ get32 ((bs.take m).drop 4) = get32 (bs.drop 4) := by
  have hframe : frameSize = 48 := rfl
  have hkind := get32_take_front bs (m := m) (by omega)
  have hlength := get32_take bs (m := m) (k := 4) (by omega)
  have hnumber := get64_take bs (m := m) (k := 8) (by omega)
  have hmarker := get32_take bs (m := m) (k := frameSize + get32 (bs.drop 4)) (by omega)
  have hprefix := take_take_of_le bs (m := m) (n := 16) (by omega)
  have hpayload := take_drop_take bs (m := m) (k := frameSize) (n := get32 (bs.drop 4)) (by omega)
  have hdigest := take_drop_take bs (m := m) (k := 16) (n := 32) (by omega)
  refine ⟨⟨?_, ?_, ?_, ?_, ?_, ?_⟩, ?_, ?_, hlength⟩
  · rw [hkind]
    exact h.kind
  · rw [hlength]
    exact h.length
  · rw [hnumber]
    exact h.number
  · have henough := h.enough
    rw [hlength, List.length_take]
    omega
  · rw [hlength, hmarker]
    exact h.marker
  · rw [hlength, hprefix, hpayload, hdigest]
    exact h.digest
  · simp only [recordAt, hkind, hnumber, hlength, hpayload]
  · simp only [cursorAfter, hnumber, hprefix, hlength, hpayload]

theorem scanFrame_local : Local (scanFrame sha256) where
  pos := by
    intro c bs r next size h
    obtain ⟨hwhole, _, _, rfl⟩ := scanFrame_item.mp h
    have henough := hwhole.enough
    have hframe : frameSize = 48 := rfl
    exact ⟨by omega, henough⟩
  front := by
    intro c bs r next size m h hm
    obtain ⟨hwhole, rfl, rfl, rfl⟩ := scanFrame_item.mp h
    obtain ⟨htaken, hrecord, hcursor, hlength⟩ := hwhole.take hm
    exact scanFrame_item.mpr ⟨htaken, hrecord.symm, hcursor.symm, by rw [hlength]⟩

theorem measured_clean (n : Nat) (c : Cursor) (bs : Bytes)
    (h : (walk (scanFrame sha256) n c bs).ending = .clean) :
    measured n bs = (walk (scanFrame sha256) n c bs).items := by
  induction n generalizing c bs with
  | zero =>
      cases bs with
      | nil => rfl
      | cons => cases h
  | succ n ih =>
      cases bs with
      | nil => rfl
      | cons b bs =>
          cases hp : scanFrame sha256 c (b :: bs) with
          | short => simp [walk, hp] at h
          | invalid e => simp [walk, hp] at h
          | item =>
              obtain ⟨hwhole, rfl, rfl, rfl⟩ := scanFrame_item.mp hp
              rw [walk_item (List.cons_ne_nil b bs) hp] at h ⊢
              simp only [measured, dword_frame hwhole.length, Walk.cons]
              exact congrArg _ (ih _ _ h)

theorem measured_scan {header file : Bytes} {w : Walk Cursor Win32Error Record}
    (h : scan sha256 header file = .ok w) : measured file.length ((file.drop headerSize).take w.used) = w.items := by
  unfold scan at h
  split at h
  next => cases h
  next =>
    split at h
    next => cases h
    next =>
      obtain ⟨rfl, hending⟩ := Walk.result_eq_ok.mp h
      have hrepaired := walk_repaired scanFrame_local file.length (initial sha256 header) (file.drop headerSize) hending
      rw [measured_clean _ _ _ (congrArg Walk.ending hrepaired), hrepaired]

section Writing

def cursorNext (sha256 : Bytes → Digest) (c : Cursor) (r : Record) : Cursor :=
  ⟨(c.sequence + 1) % 2 ^ 64, frameDigest sha256 c r.kind r.bytes⟩

structure Fits (c : Cursor) (r : Record) : Prop where
  kind : r.kind ≠ 0
  length : r.bytes.length ≤ maxRecord
  number : r.sequence = (c.sequence + 1) % 2 ^ 64

def recordFrame (sha256 : Bytes → Digest) (c : Cursor) (r : Record) : Bytes := frameBytes sha256 c r.kind r.bytes

@[simp] theorem length_storeU32 (v : Nat) : (storeU32 v).length = 4 := length_toBytes 4 v

@[simp] theorem length_storeU64 (v : Nat) : (storeU64 v).length = 8 := length_toBytes 8 v

@[simp] theorem length_frameHead (kind : UInt32) (size sequence : Nat) : (frameHead kind size sequence).length = 16 := by
  simp [frameHead]

theorem length_frameBytes (c : Cursor) (kind : UInt32) (bytes : Bytes) :
    (frameBytes sha256 c kind bytes).length = frameSize + bytes.length + 4 := by
  simp [frameBytes, Digest.size, frameSize]
  omega

theorem get32_storeU32 {v : Nat} (h : v < 2 ^ 32) (rest : Bytes) : get32 (storeU32 v ++ rest) = v := by
  rw [get32, List.take_left' (length_storeU32 v), storeU32, ofBytes_toBytes_of_lt (by omega)]

theorem get64_storeU64 (v : Nat) (rest : Bytes) : get64 (storeU64 v ++ rest) = v % 2 ^ 64 := by
  have hwidth : 256 ^ 8 = 2 ^ 64 := rfl
  rw [get64, List.take_left' (length_storeU64 v), storeU64, ofBytes_toBytes, hwidth]

theorem frameBytes_parts (c : Cursor) {kind : UInt32} {bytes : Bytes} (hlength : bytes.length ≤ maxRecord)
    (rest : Bytes) :
    get32 (frameBytes sha256 c kind bytes ++ rest) = kind.toNat ∧
      get32 ((frameBytes sha256 c kind bytes ++ rest).drop 4) = bytes.length ∧
      get64 ((frameBytes sha256 c kind bytes ++ rest).drop 8) = (c.sequence + 1) % 2 ^ 64 ∧
      (frameBytes sha256 c kind bytes ++ rest).take 16 = frameHead kind bytes.length (c.sequence + 1) ∧
      ((frameBytes sha256 c kind bytes ++ rest).drop 16).take 32 = (frameDigest sha256 c kind bytes).bytes ∧
      ((frameBytes sha256 c kind bytes ++ rest).drop frameSize).take bytes.length = bytes ∧
      get32 ((frameBytes sha256 c kind bytes ++ rest).drop (frameSize + bytes.length)) = endMarker := by
  have hsmall : bytes.length < 2 ^ 32 := by
    unfold maxRecord at hlength
    omega
  have hd := (frameDigest sha256 c kind bytes).size
  refine ⟨?_, ?_, ?_, ?_, ?_, ?_, ?_⟩
  · simp only [frameBytes, frameHead, List.append_assoc]
    exact get32_storeU32 kind.toNat_lt _
  · simp only [frameBytes, frameHead, List.append_assoc]
    rw [List.drop_left' (length_storeU32 _)]
    exact get32_storeU32 hsmall _
  · simp only [frameBytes, frameHead, List.append_assoc]
    rw [← List.append_assoc, List.drop_left' (by simp)]
    exact get64_storeU64 _ _
  · simp only [frameBytes, List.append_assoc]
    exact List.take_left' (by simp)
  · simp only [frameBytes, List.append_assoc]
    rw [List.drop_left' (by simp)]
    exact List.take_left' hd
  · simp only [frameBytes, List.append_assoc]
    rw [← List.append_assoc, List.drop_left' (by simp [hd, frameSize])]
    exact List.take_left' rfl
  · simp only [frameBytes, List.append_assoc]
    rw [← List.append_assoc, ← List.append_assoc, List.drop_left' (by simp [hd, frameSize, ← Nat.add_assoc])]
    exact get32_storeU32 (by decide) _

/-- The fields in front of a record are read as they are meant wherever the frame is cut behind them. -/
theorem cut_fields {c : Cursor} {r : Record} (hr : Fits c r) {m : Nat} (hm : frameSize ≤ m) :
    let cut := (recordFrame sha256 c r).take m
    get32 (cut.drop 4) = r.bytes.length ∧
      ¬ (get32 cut = 0 ∨ maxRecord < get32 (cut.drop 4) ∨ get64 (cut.drop 8) ≠ (c.sequence + 1) % 2 ^ 64) := by
  obtain ⟨hkind, hlength, hnumber, _⟩ := @frameBytes_parts sha256 c r.kind r.bytes hr.length []
  rw [List.append_nil] at hkind hlength hnumber
  have hframe : frameSize = 48 := rfl
  have hkind' := get32_take_front (recordFrame sha256 c r) (m := m) (by omega)
  have hlength' := get32_take (recordFrame sha256 c r) (m := m) (k := 4) (by omega)
  have hnumber' := get64_take (recordFrame sha256 c r) (m := m) (k := 8) (by omega)
  rw [recordFrame, hkind] at hkind'
  rw [recordFrame, hlength] at hlength'
  rw [recordFrame, hnumber] at hnumber'
  refine ⟨hlength', frame_fields ?_ ?_ hnumber'⟩
  · rw [recordFrame, hkind']
    exact fun hzero => hr.kind (UInt32.toNat_inj.mp hzero)
  · rw [recordFrame, hlength']
    exact hr.length

theorem journal_reads : Reads (scanFrame sha256) (recordFrame sha256) (cursorNext sha256) Fits where
  pos := by
    intro c r
    rw [recordFrame, length_frameBytes]
    omega
  whole := by
    intro c r rest hr
    obtain ⟨hkind, hlength, hnumber, hhead, hdigest, hbytes, hmarker⟩ :=
      @frameBytes_parts sha256 c r.kind r.bytes hr.length rest
    have htotal := @length_frameBytes sha256 c r.kind r.bytes
    refine scanFrame_item.mpr ⟨⟨?_, ?_, ?_, ?_, ?_, ?_⟩, ?_, ?_, ?_⟩
    · rw [recordFrame, hkind]
      exact fun hzero => hr.kind (UInt32.toNat_inj.mp hzero)
    · rw [recordFrame, hlength]
      exact hr.length
    · exact hnumber
    · rw [recordFrame, hlength, List.length_append, htotal]
      exact Nat.le_add_right _ _
    · rw [recordFrame, hlength]
      exact hmarker
    · rw [recordFrame, hlength, hhead, hbytes, hdigest]
      rfl
    · rw [recordFrame, recordAt, hkind, hnumber, hlength, hbytes, ← hr.number, UInt32.ofNat_toNat]
    · rw [recordFrame, cursorAfter, hnumber, hhead, hlength, hbytes]
      rfl
    · rw [recordFrame, hlength, htotal]
  cut := by
    intro c r m hr hpos hlt
    have htotal := @length_frameBytes sha256 c r.kind r.bytes
    rw [recordFrame, htotal] at hlt
    have hcut : ((recordFrame sha256 c r).take m).length = m := by
      rw [List.length_take, recordFrame, htotal]
      omega
    unfold scanFrame
    simp only [hcut]
    split
    next => rfl
    next hlong =>
      obtain ⟨hlength, hfields⟩ := @cut_fields sha256 c r hr m (Nat.not_lt.mp hlong)
      have hshort : m < dword (frameSize + get32 (((recordFrame sha256 c r).take m).drop 4) + 4) := by
        rw [hlength, dword_frame hr.length]
        exact hlt
      rw [if_neg hfields, if_pos hshort]

end Writing

end EtranProcessing.Deployment.JournalFrames
