import EtranProcessing.Deployment.CatalogFloor
import EtranProcessing.Deployment.JournalFrames
import EtranProcessing.Library.Runs

namespace EtranProcessing.Deployment.AntiRollback

open Library.Runs Journal JournalFrames CatalogFloor

variable {sha256 : Bytes → Digest}

@[simp] theorem length_floorHeader (keyId : KeyId) : (floorHeader keyId).length = floorHeaderSize := by
  simp [floorHeader, keyId.size, floorHeaderSize]

variable {c : Catalog} {fault : Option Fault} {state state' : FloorState} {now : Nat} {keyId keyId' : KeyId} {a : Catalog × Nat} {s : Floor} {file : Bytes}

theorem floorHeader_inj (h : floorHeader keyId = floorHeader keyId') : keyId = keyId' := by
  have hbytes : keyId.bytes = keyId'.bytes := by simpa [floorHeader] using h
  cases keyId
  cases keyId'
  simpa using hbytes

@[simp] theorem length_frameFront (c : Catalog) (now : Nat) : (frameFront c now).length = 48 := by
  simp [frameFront, c.digest.size]

@[simp] theorem length_floorFrame (s : FloorState) (c : Catalog) (now : Nat) :
    (floorFrame sha256 s c now).length = floorFrameSize := by
  simp [floorFrame, Digest.size, floorFrameSize]

theorem readFrames_append (n m : Nat) (s : FloorState) (front back : Bytes) (h : front.length = floorFrameSize * n) :
    readFrames sha256 (n + m) s (front ++ back) =
      (readFrames sha256 n s front).bind fun s => readFrames sha256 m s back := by
  induction n generalizing s front with
  | zero =>
      obtain rfl : front = [] := List.length_eq_zero_iff.mp (by simpa using h)
      simp [readFrames]
  | succ n ih =>
      have hlong : floorFrameSize ≤ front.length := by
        rw [h, Nat.mul_succ]
        omega
      have hrest : (front.drop floorFrameSize).length = floorFrameSize * n := by
        rw [List.length_drop, h, Nat.mul_succ]
        omega
      rw [Nat.succ_add, readFrames, readFrames, List.take_append_of_le_length hlong,
        List.drop_append_of_le_length hlong]
      cases readFrame sha256 s (front.take floorFrameSize) with
      | none => rfl
      | some s' => exact ih s' _ hrest

theorem readFrames_one (s : FloorState) (frame : Bytes) (h : frame.length = floorFrameSize) :
    readFrames sha256 1 s frame = readFrame sha256 s frame := by
  rw [readFrames, List.take_of_length_le (Nat.le_of_eq h)]
  cases readFrame sha256 s frame with
  | none => rfl
  | some s' => rfl

/-- A file that can be read: its header, and whole frames that the loop accepts. -/
structure Readable (sha256 : Bytes → Digest) (file : Bytes) (keyId : KeyId) (n : Nat) (state : FloorState) : Prop where
  length : file.length = floorHeaderSize + floorFrameSize * n
  limit : file.length ≤ floorLimit
  header : file.take floorHeaderSize = floorHeader keyId
  frames : readFrames sha256 n (floorStart sha256 keyId) (file.drop floorHeaderSize) = some state

variable {state : FloorState} {keyId : KeyId}

theorem readFloor_eq_some :
    readFloor sha256 file keyId = some state ↔ ∃ n, Readable sha256 file keyId n state := by
  have hframe : 0 < floorFrameSize := by decide
  unfold readFloor
  constructor
  · intro h
    split at h
    next hshape =>
      obtain ⟨hlow, hlimit, hwhole, hheader⟩ := hshape
      have hcount := Nat.div_add_mod (file.length - floorHeaderSize) floorFrameSize
      exact ⟨_, by omega, hlimit, hheader, h⟩
    next => cases h
  · rintro ⟨n, hlength, hlimit, hheader, hframes⟩
    have hrest : file.length - floorHeaderSize = floorFrameSize * n := by omega
    rw [if_pos ⟨by omega, hlimit, by rw [hrest, Nat.mul_mod_right], hheader⟩, hrest,
      Nat.mul_div_cancel_left n hframe]
    exact hframes

theorem Readable.append {file back : Bytes} {n m : Nat}
    (h : Readable sha256 file keyId n state) (hback : back.length = floorFrameSize * m)
    (hlimit : (file ++ back).length ≤ floorLimit) (hframes : readFrames sha256 m state back = some state') :
    Readable sha256 (file ++ back) keyId (n + m) state' := by
  have hlow : floorHeaderSize ≤ file.length := by
    rw [h.length]
    omega
  have hrest : (file.drop floorHeaderSize).length = floorFrameSize * n := by
    rw [List.length_drop, h.length]
    omega
  constructor
  case length => rw [List.length_append, h.length, hback, Nat.mul_add, Nat.add_assoc]
  case limit => exact hlimit
  case header => rw [List.take_append_of_le_length hlow, h.header]
  case frames =>
    rw [List.drop_append_of_le_length hlow, readFrames_append n m _ _ _ hrest, h.frames]
    exact hframes

theorem Readable.behind {file back : Bytes} {n k : Nat}
    (h : Readable sha256 file keyId n state) (h' : Readable sha256 (file ++ back) keyId' k state') :
    keyId' = keyId ∧ ∃ m, back.length = floorFrameSize * m ∧ readFrames sha256 m state back = some state' := by
  have hlow : floorHeaderSize ≤ file.length := by
    rw [h.length]
    omega
  have hkey : keyId' = keyId := by
    have hheader := h'.header
    rw [List.take_append_of_le_length hlow, h.header] at hheader
    exact (floorHeader_inj hheader).symm
  have hlength := h'.length
  rw [List.length_append, h.length] at hlength
  have hnk : n ≤ k := by
    have hle : floorFrameSize * n ≤ floorFrameSize * k := by omega
    exact Nat.le_of_mul_le_mul_left hle (by decide)
  obtain ⟨m, rfl⟩ := Nat.exists_eq_add_of_le hnk
  rw [Nat.mul_add] at hlength
  have hrest : (file.drop floorHeaderSize).length = floorFrameSize * n := by
    rw [List.length_drop, h.length]
    omega
  refine ⟨hkey, m, by omega, ?_⟩
  have hframes := h'.frames
  rw [hkey, List.drop_append_of_le_length hlow, readFrames_append n m _ _ _ hrest, h.frames] at hframes
  exact hframes

theorem readFloor_header (keyId : KeyId) : Readable sha256 (floorHeader keyId) keyId 0 (floorStart sha256 keyId) := by
  have hlength := length_floorHeader keyId
  constructor
  case length => simp
  case limit =>
    rw [hlength]
    decide
  case header => exact List.take_of_length_le (Nat.le_of_eq hlength)
  case frames => rfl

/-- One accepted catalogue after another: neither the revision nor the time goes back, and
a revision has one content. -/
def Above (a b : Catalog × Nat) : Prop :=
  a.1.revision ≤ b.1.revision ∧ a.2 ≤ b.2 ∧ (a.1.revision = b.1.revision → a.1.digest = b.1.digest)

def Admits (state : FloorState) (c : Catalog) (now : Nat) : Prop :=
  state.revision ≤ c.revision ∧ state.time ≤ now ∧ (c.revision = state.revision → c.digest.bytes = state.lastDigest)

def Covers (state : FloorState) (a : Catalog × Nat) : Prop :=
  a.1.revision ≤ state.revision ∧ a.2 ≤ state.time ∧ (a.1.revision = state.revision → a.1.digest.bytes = state.lastDigest)

theorem Covers.above (h : Covers state a)
    (hadmits : Admits state c now) : Above a (c, now) := by
  obtain ⟨hrevision, htime, hdigest⟩ := h
  obtain ⟨hrevision', htime', hdigest'⟩ := hadmits
  refine ⟨hrevision.trans hrevision', htime.trans htime', ?_⟩
  intro hsame
  have hbytes : a.1.digest.bytes = c.digest.bytes := by
    simp only at hsame
    rw [hdigest (by omega), hdigest' (by omega)]
  cases ha : a.1.digest
  cases hc : c.digest
  simpa [ha, hc] using hbytes

def stateAfter (sha256 : Bytes → Digest) (state : FloorState) (c : Catalog) (now : Nat) : FloorState :=
  ⟨storeHash sha256 (frameFront c now) state.previousHash.bytes, c.digest.bytes, c.revision, now⟩

theorem Covers.after (h : Covers state a)
    (hadmits : Admits state c now) : Covers (stateAfter sha256 state c now) a := by
  obtain ⟨hrevision, htime, hdigest⟩ := h.above hadmits
  exact ⟨hrevision, htime, fun hsame => congrArg Digest.bytes (hdigest hsame)⟩

theorem readFrame_floorFrame (h : Admits state c now)
    (hnow : now < 2 ^ 64) :
    readFrame sha256 state (floorFrame sha256 state c now) = some (stateAfter sha256 state c now) := by
  have hfront := length_frameFront c now
  have hbody : (floorFrame sha256 state c now).take 48 = frameFront c now := List.take_left' hfront
  have hhash : (floorFrame sha256 state c now).drop 48 =
      (storeHash sha256 (frameFront c now) state.previousHash.bytes).bytes := List.drop_left' hfront
  have hrevision : get64 (floorFrame sha256 state c now) = c.revision := by
    rw [floorFrame, frameFront, List.append_assoc, List.append_assoc, get64_storeU64,
      Nat.mod_eq_of_lt c.revisionSmall]
  have htime : get64 ((floorFrame sha256 state c now).drop 8) = now := by
    rw [floorFrame, frameFront, List.append_assoc, List.append_assoc, List.drop_left' (length_storeU64 _),
      get64_storeU64, Nat.mod_eq_of_lt hnow]
  have hdigest : ((floorFrame sha256 state c now).drop 16).take 32 = c.digest.bytes := by
    rw [floorFrame, frameFront, List.append_assoc, List.drop_left' (by simp)]
    exact List.take_left' c.digest.size
  have hadmitted : 0 < c.revision ∧ state.revision ≤ c.revision ∧ state.time ≤ now ∧
      (c.revision ≠ state.revision ∨ c.digest.bytes = state.lastDigest) := by
    refine ⟨c.revisionPos, h.1, h.2.1, ?_⟩
    by_cases hsame : c.revision = state.revision
    · exact .inr (h.2.2 hsame)
    · exact .inl hsame
  unfold readFrame
  simp only [hbody, hhash, hrevision, htime, hdigest, ne_eq, not_true_eq_false, if_false]
  exact if_pos hadmitted

/-- What a call can do. -/
inductive Outcome (sha256 : Bytes → Digest) (s : Floor) (c : Catalog) (now : Nat) (fault : Option Fault) :
    Bool × Floor → Prop where
  | refused : Outcome sha256 s c now fault (false, s)
  | created (n : Nat) (poisoned : Bool) (hfile : s.file = none) (hfault : fault ≠ none) :
      Outcome sha256 s c now fault (false, ⟨some ((floorHeader c.keyId).take n), poisoned⟩)
  | again (file : Bytes) (state : FloorState) (hfile : s.file = some file)
      (hread : readFloor sha256 file c.keyId = some state) (hrevision : c.revision = state.revision)
      (htime : now = state.time) (hdigest : c.digest.bytes = state.lastDigest) :
      Outcome sha256 s c now fault (true, s)
  | torn (n : Nat) (file : Bytes) (state : FloorState) (hfile : s.file.getD (floorHeader c.keyId) = file)
      (hread : readFloor sha256 file c.keyId = some state) (hadmits : Admits state c now) (hnow : now < 2 ^ 64)
      (hfault : fault = some (.frame n)) :
      Outcome sha256 s c now fault (false, ⟨some (file ++ (floorFrame sha256 state c now).take n), true⟩)
  | appended (file : Bytes) (state : FloorState) (hfile : s.file.getD (floorHeader c.keyId) = file)
      (hread : readFloor sha256 file c.keyId = some state) (hadmits : Admits state c now) (hnow : now < 2 ^ 64)
      (hlimit : file.length + floorFrameSize ≤ floorLimit) :
      Outcome sha256 s c now fault (true, ⟨some (file ++ floorFrame sha256 state c now), s.poisoned⟩)

theorem acceptOpened_cases (s : Floor) (file : Bytes) (c : Catalog) (now : Nat) (fault : Option Fault) :
    (acceptOpened sha256 s file c now fault = (false, s) ∧
        (fault = some .reading ∨ ∀ state, readFloor sha256 file c.keyId = some state → Admits state c now →
          floorLimit < file.length + floorFrameSize)) ∨
      ∃ state, readFloor sha256 file c.keyId = some state ∧ Admits state c now ∧
        ((c.revision = state.revision ∧ now = state.time ∧ acceptOpened sha256 s file c now fault = (true, s)) ∨
        (∃ n, fault = some (.frame n) ∧ acceptOpened sha256 s file c now fault =
          (false, ⟨some (file ++ (floorFrame sha256 state c now).take n), true⟩)) ∨
        (file.length + floorFrameSize ≤ floorLimit ∧ acceptOpened sha256 s file c now fault =
          (true, { s with file := some (file ++ floorFrame sha256 state c now) }))) := by
  unfold acceptOpened
  split
  next hreading => exact .inl ⟨rfl, .inl hreading⟩
  next =>
    cases hread : readFloor sha256 file c.keyId with
    | none => exact .inl ⟨rfl, .inr (by simp)⟩
    | some state =>
        simp only
        split
        next hbehind =>
          refine .inl ⟨rfl, .inr ?_⟩
          rintro _ hstate ⟨hrevision, htime, hdigest⟩
          cases hstate
          rcases hbehind with hlow | hearly | ⟨hsame, hother⟩
          · omega
          · omega
          · exact absurd (hdigest hsame) hother
        next hahead =>
          simp only [not_or, Nat.not_lt, not_and, ne_eq, Decidable.not_not] at hahead
          split
          next hsame => exact .inr ⟨state, rfl, hahead, .inl ⟨hsame.1, hsame.2, rfl⟩⟩
          next =>
            split
            next hfull => exact .inl ⟨rfl, .inr fun _ _ _ => hfull⟩
            next hroom =>
              split
              next n _ => exact .inr ⟨state, rfl, hahead, .inr (.inl ⟨n, rfl, rfl⟩)⟩
              next => exact .inr ⟨state, rfl, hahead, .inr (.inr ⟨Nat.not_lt.mp hroom, rfl⟩)⟩

theorem start_admits (c : Catalog) (now : Nat) : Admits (floorStart sha256 c.keyId) c now :=
  ⟨Nat.zero_le _, Nat.zero_le _, fun hzero => absurd hzero (Nat.ne_of_gt c.revisionPos)⟩

theorem catalogAccept_outcome (s : Floor) (c : Catalog) (now : Nat) (fault : Option Fault) :
    Outcome sha256 s c now fault (catalogAccept sha256 s c now fault) := by
  unfold catalogAccept
  split
  next => exact .refused
  next hvalid =>
    simp only [not_or, Nat.not_le] at hvalid
    have hnow : now < 2 ^ 64 := by
      have hbound := c.expiresSmall
      unfold maxTime at hbound
      omega
    split
    next => exact .refused
    next =>
      cases hfile : s.file with
      | some file =>
          simp only
          split
          next => exact .refused
          next =>
            rcases acceptOpened_cases s file c now fault with ⟨hresult, _⟩ | ⟨state, hread, hadmits, hcase⟩
            · rw [hresult]
              exact .refused
            · have hopened : s.file.getD (floorHeader c.keyId) = file := by simp [hfile]
              rcases hcase with ⟨hrevision, htime, hresult⟩ | ⟨n, hfault, hresult⟩ | ⟨hlimit, hresult⟩
              · rw [hresult]
                exact .again file state hfile hread hrevision htime (hadmits.2.2 hrevision)
              · rw [hresult]
                exact .torn n file state hopened hread hadmits hnow hfault
              · rw [hresult]
                exact .appended file state hopened hread hadmits hnow hlimit
      | none =>
          have hstart := readFloor_eq_some.mpr ⟨0, @readFloor_header sha256 c.keyId⟩
          have hopened : s.file.getD (floorHeader c.keyId) = floorHeader c.keyId := by simp [hfile]
          simp only
          split
          next => exact .created 0 s.poisoned hfile (by simp)
          next n _ => exact .created n true hfile (by simp)
          next =>
            rcases acceptOpened_cases { s with file := some (floorHeader c.keyId) } (floorHeader c.keyId) c now fault
              with ⟨hresult, hwhy⟩ | ⟨state, hread, hadmits, hcase⟩
            · rw [hresult]
              rcases hwhy with hreading | hfull
              · have hwhole : (floorHeader c.keyId).take floorHeaderSize = floorHeader c.keyId :=
                  List.take_of_length_le (Nat.le_of_eq (length_floorHeader c.keyId))
                rw [← hwhole]
                exact .created floorHeaderSize s.poisoned hfile (by simp [hreading])
              · have hlimit := hfull _ hstart (start_admits c now)
                rw [length_floorHeader] at hlimit
                exact absurd hlimit (by decide)
            · rcases hcase with ⟨hrevision, _, _⟩ | ⟨n, hfault, hresult⟩ | ⟨hlimit, hresult⟩
              · rw [hstart] at hread
                cases hread
                exact absurd hrevision (Nat.ne_of_gt c.revisionPos)
              · rw [hresult]
                exact .torn n _ state hopened hread hadmits hnow hfault
              · rw [hresult]
                exact .appended _ state hopened hread hadmits hnow hlimit

theorem readFloor_continued
    (hread : readFloor sha256 file c.keyId = some state) (hadmits : Admits state c now) (hnow : now < 2 ^ 64) (n : Nat)
    (hread' : readFloor sha256 (file ++ (floorFrame sha256 state c now).take n) keyId = some state') :
    state' = state ∨ state' = stateAfter sha256 state c now := by
  obtain ⟨_, hwhole⟩ := readFloor_eq_some.mp hread
  obtain ⟨_, hwhole'⟩ := readFloor_eq_some.mp hread'
  obtain ⟨_, m, hlength, hframes⟩ := hwhole.behind hwhole'
  rw [List.length_take, length_floorFrame] at hlength
  have hpos : 0 < floorFrameSize := by decide
  cases m with
  | zero => exact .inl (Option.some.inj hframes).symm
  | succ m =>
      rw [Nat.mul_succ] at hlength
      have hnone : floorFrameSize * m = 0 := by omega
      obtain rfl : m = 0 := by
        rcases Nat.mul_eq_zero.mp hnone with hzero | hzero
        · omega
        · exact hzero
      have hall : (floorFrame sha256 state c now).take n = floorFrame sha256 state c now := by
        apply List.take_of_length_le
        rw [length_floorFrame]
        omega
      rw [hall, readFrames_one _ _ (length_floorFrame _ _ _), readFrame_floorFrame hadmits hnow] at hframes
      exact .inr (Option.some.inj hframes).symm

theorem readFloor_appended {file : Bytes} {c : Catalog} {now : Nat} {state : FloorState}
    (hread : readFloor sha256 file c.keyId = some state) (hadmits : Admits state c now) (hnow : now < 2 ^ 64)
    (hlimit : file.length + floorFrameSize ≤ floorLimit) :
    readFloor sha256 (file ++ floorFrame sha256 state c now) c.keyId = some (stateAfter sha256 state c now) := by
  obtain ⟨_, hwhole⟩ := readFloor_eq_some.mp hread
  have hframe := @length_floorFrame sha256 state c now
  apply readFloor_eq_some.mpr
  refine ⟨_, hwhole.append (m := 1) (by rw [hframe, Nat.mul_one]) (by rw [List.length_append, hframe]; exact hlimit) ?_⟩
  rw [readFrames_one _ _ hframe, readFrame_floorFrame hadmits hnow]

theorem readFloor_unique
    (h : readFloor sha256 file keyId = some state) (h' : readFloor sha256 file keyId' = some state') :
    state' = state := by
  obtain ⟨_, hwhole⟩ := readFloor_eq_some.mp h
  obtain ⟨_, hwhole'⟩ := readFloor_eq_some.mp h'
  rw [← List.append_nil file] at hwhole'
  obtain ⟨rfl, _⟩ := hwhole.behind hwhole'
  exact Option.some.inj (h'.symm.trans h)

def Floored (sha256 : Bytes → Digest) (a : Catalog × Nat) (s : Floor) : Prop :=
  ∃ file, s.file = some file ∧ ∀ keyId state, readFloor sha256 file keyId = some state → Covers state a

theorem Floored.step (h : Floored sha256 a s) (e : Event) :
    Floored sha256 a (step sha256 s e) := by
  obtain ⟨file, hfile, hcovers⟩ := h
  cases e with
  | handle poisoned => exact ⟨file, hfile, hcovers⟩
  | accept c now fault =>
      have houtcome := @catalogAccept_outcome sha256 s c now fault
      simp only [CatalogFloor.step]
      generalize catalogAccept sha256 s c now fault = r at houtcome
      cases houtcome with
      | refused | again => exact ⟨file, hfile, hcovers⟩
      | created n poisoned hnone => rw [hnone] at hfile; cases hfile
      | torn n file' state hfile' hread hadmits hnow =>
          obtain rfl : file = file' := by simpa [hfile] using hfile'
          refine ⟨_, rfl, ?_⟩
          intro keyId state' hread'
          rcases readFloor_continued hread hadmits hnow n hread' with rfl | rfl
          · exact hcovers c.keyId _ hread
          · exact (hcovers c.keyId _ hread).after hadmits
      | appended file' state hfile' hread hadmits hnow hlimit =>
          obtain rfl : file = file' := by simpa [hfile] using hfile'
          refine ⟨_, rfl, ?_⟩
          intro keyId state' hread'
          have hnew := readFloor_unique (readFloor_appended hread hadmits hnow hlimit) hread'
          rw [hnew]
          exact (hcovers c.keyId _ hread).after hadmits

theorem accepted_state
    (h : (catalogAccept sha256 s c now fault).1 = true) :
    ∃ file state, (catalogAccept sha256 s c now fault).2.file = some file ∧
      readFloor sha256 file c.keyId = some state ∧ state.revision = c.revision ∧ state.time = now ∧
      state.lastDigest = c.digest.bytes := by
  have houtcome := @catalogAccept_outcome sha256 s c now fault
  generalize catalogAccept sha256 s c now fault = r at houtcome h
  cases houtcome with
  | refused => cases h
  | created => cases h
  | again file state hfile hread hrevision htime hdigest =>
      exact ⟨file, state, hfile, hread, hrevision.symm, htime.symm, hdigest.symm⟩
  | torn => cases h
  | appended file state hfile hread hadmits hnow hlimit =>
      exact ⟨_, _, rfl, readFloor_appended hread hadmits hnow hlimit, rfl, rfl, rfl⟩

theorem accepted_floored
    (h : (catalogAccept sha256 s c now fault).1 = true) :
    Floored sha256 (c, now) (catalogAccept sha256 s c now fault).2 := by
  obtain ⟨file, state, hfile, hread, hrevision, htime, hdigest⟩ := accepted_state h
  refine ⟨file, hfile, ?_⟩
  intro keyId state' hread'
  rw [readFloor_unique hread hread']
  exact ⟨Nat.le_of_eq hrevision.symm, Nat.le_of_eq htime.symm, fun _ => hdigest.symm⟩

theorem Floored.above (h : Floored sha256 a s)
    (haccepted : (catalogAccept sha256 s c now fault).1 = true) : Above a (c, now) := by
  obtain ⟨file, hfile, hcovers⟩ := h
  have houtcome := @catalogAccept_outcome sha256 s c now fault
  generalize catalogAccept sha256 s c now fault = r at houtcome haccepted
  cases houtcome with
  | refused | created | torn => cases haccepted
  | again file' state hfile' hread hrevision htime hdigest =>
      obtain rfl : file = file' := Option.some.inj (hfile.symm.trans hfile')
      exact (hcovers c.keyId state hread).above
        ⟨Nat.le_of_eq hrevision.symm, Nat.le_of_eq htime.symm, fun _ => hdigest⟩
  | appended file' state hfile' hread hadmits =>
      obtain rfl : file = file' := by simpa [hfile] using hfile'
      exact (hcovers c.keyId state hread).above hadmits

theorem Floored.accepted (events : List Event) (h : Floored sha256 a s) :
    ∀ b ∈ accepted sha256 s events, Above a b := by
  induction events generalizing s with
  | nil => simp [CatalogFloor.accepted]
  | cons e events ih =>
      have hnext := ih (h.step e)
      cases e with
      | handle poisoned => exact hnext
      | accept =>
          simp only [CatalogFloor.accepted]
          split
          next haccepted =>
            intro b hb
            rcases List.mem_cons.mp hb with rfl | hrest
            · exact h.above haccepted
            · exact hnext b hrest
          next => exact hnext

theorem accepted_above (events : List Event) (s : Floor) : (accepted sha256 s events).Pairwise Above := by
  induction events generalizing s with
  | nil => exact .nil
  | cons e events ih =>
      cases e with
      | handle poisoned => exact ih _
      | accept =>
          simp only [CatalogFloor.accepted]
          split
          next haccepted => exact .cons ((accepted_floored haccepted).accepted events) (ih _)
          next => exact ih _

theorem accepted_append (first second : List Event) (s : Floor) :
    accepted sha256 s (first ++ second) =
      accepted sha256 s first ++ accepted sha256 (run (step sha256) s first) second := by
  induction first generalizing s with
  | nil => rfl
  | cons e first ih =>
      cases e with
      | handle poisoned => exact ih _
      | accept =>
          simp only [List.cons_append, CatalogFloor.accepted]
          split
          next => exact congrArg _ (ih _)
          next => exact ih _

theorem refused_file
    (h : (catalogAccept sha256 s c now fault).1 = false) (hfault : fault = none) :
    (catalogAccept sha256 s c now fault).2.file = s.file := by
  have houtcome := @catalogAccept_outcome sha256 s c now fault
  generalize catalogAccept sha256 s c now fault = r at houtcome h
  cases houtcome with
  | refused => rfl
  | created n poisoned hfile hfaulty => exact absurd hfault hfaulty
  | again => rfl
  | torn n file state hfile hread hadmits hnow hfaulty =>
      rw [hfault] at hfaulty
      cases hfaulty
  | appended => cases h

theorem failed_file
    (h : (catalogAccept sha256 s c now fault).1 = false) :
    let file := s.file.getD (floorHeader c.keyId)
    (catalogAccept sha256 s c now fault).2.file = s.file ∨
      (s.file = none ∧ ∃ n, (catalogAccept sha256 s c now fault).2.file = some ((floorHeader c.keyId).take n)) ∨
      ∃ state n, readFloor sha256 file c.keyId = some state ∧
        (catalogAccept sha256 s c now fault).2.file = some (file ++ (floorFrame sha256 state c now).take n) := by
  intro file
  have houtcome := @catalogAccept_outcome sha256 s c now fault
  generalize catalogAccept sha256 s c now fault = r at houtcome h
  cases houtcome with
  | refused => exact .inl rfl
  | created n poisoned hfile => exact .inr (.inl ⟨hfile, n, rfl⟩)
  | again => exact .inl rfl
  | torn n file' state hfile hread => exact .inr (.inr ⟨state, n, by rw [← hread]; exact congrArg (readFloor sha256 · _) hfile, by rw [← hfile]⟩)
  | appended => cases h

theorem unreadable_refused
    (hfile : s.file = some file) (hread : readFloor sha256 file c.keyId = none) :
    (catalogAccept sha256 s c now fault).1 = false ∧ (catalogAccept sha256 s c now fault).2.file = some file := by
  have houtcome := @catalogAccept_outcome sha256 s c now fault
  generalize catalogAccept sha256 s c now fault = r at houtcome
  cases houtcome with
  | refused => exact ⟨rfl, hfile⟩
  | created n poisoned hnone => rw [hnone] at hfile; cases hfile
  | again file' state hfile' hread' =>
      obtain rfl : file = file' := Option.some.inj (hfile.symm.trans hfile')
      rw [hread] at hread'
      cases hread'
  | torn n file' state hfile' hread' | appended file' state hfile' hread' =>
      obtain rfl : file = file' := by simpa [hfile] using hfile'
      rw [hread] at hread'
      cases hread'

theorem cut_unreadable (keyId : KeyId) {n : Nat} (hn : n ≤ file.length)
    (hcut : n < floorHeaderSize ∨ (n - floorHeaderSize) % floorFrameSize ≠ 0) :
    readFloor sha256 (file.take n) keyId = none := by
  have hlength : (file.take n).length = n := by rw [List.length_take, Nat.min_eq_left hn]
  unfold readFloor
  apply if_neg
  rintro ⟨hlow, _, hwhole, _⟩
  rw [hlength] at hlow hwhole
  rcases hcut with hshort | hpart
  · omega
  · exact hpart hwhole

theorem chained_frame {front frame back : Bytes}
    (hfront : readFloor sha256 front keyId = some state) (hlength : frame.length = floorFrameSize)
    (h : readFloor sha256 (front ++ frame ++ back) keyId' = some state') :
    (storeHash sha256 (frame.take 48) state.previousHash.bytes).bytes = frame.drop 48 := by
  obtain ⟨_, hwhole⟩ := readFloor_eq_some.mp hfront
  obtain ⟨_, hwhole'⟩ := readFloor_eq_some.mp h
  rw [List.append_assoc] at hwhole'
  obtain ⟨_, m, hsize, hframes⟩ := hwhole.behind hwhole'
  rw [List.length_append, hlength] at hsize
  cases m with
  | zero =>
      have hpos : 0 < floorFrameSize := by decide
      rw [Nat.mul_zero] at hsize
      omega
  | succ m =>
      rw [readFrames, List.take_left' hlength] at hframes
      by_cases hchain : (storeHash sha256 (frame.take 48) state.previousHash.bytes).bytes = frame.drop 48
      · exact hchain
      · have hbroken : readFrame sha256 state frame = none := by
          unfold readFrame
          exact if_pos hchain
        rw [hbroken] at hframes
        cases hframes

theorem altered_frame {front frame frame' back back' : Bytes} {state state₁ state₂ : FloorState}
    (hfront : readFloor sha256 front keyId = some state) (hlength : frame.length = floorFrameSize)
    (hlength' : frame'.length = floorFrameSize) (hother : frame' ≠ frame)
    (h : readFloor sha256 (front ++ frame ++ back) keyId = some state₁)
    (h' : readFloor sha256 (front ++ frame' ++ back') keyId' = some state₂)
    (hpart : frame'.take 48 = frame.take 48 ∨ frame'.drop 48 = frame.drop 48) :
    frame'.take 48 ≠ frame.take 48 ∧
      sha256 (frame'.take 48 ++ state.previousHash.bytes) = sha256 (frame.take 48 ++ state.previousHash.bytes) := by
  have hchain := chained_frame hfront hlength h
  have hchain' := chained_frame hfront hlength' h'
  have hdifferent : frame'.take 48 = frame.take 48 → frame'.drop 48 = frame.drop 48 → False := by
    intro htake hdrop
    apply hother
    rw [← List.take_append_drop 48 frame', htake, hdrop, List.take_append_drop]
  rcases hpart with htake | hdrop
  · rw [htake, hchain] at hchain'
    exact (hdifferent htake hchain'.symm).elim
  · refine ⟨fun htake => hdifferent htake hdrop, ?_⟩
    have hbytes : (storeHash sha256 (frame'.take 48) state.previousHash.bytes).bytes =
        (storeHash sha256 (frame.take 48) state.previousHash.bytes).bytes := by rw [hchain', hchain, hdrop]
    unfold storeHash at hbytes
    cases hnew : sha256 (frame'.take 48 ++ state.previousHash.bytes)
    cases hold : sha256 (frame.take 48 ++ state.previousHash.bytes)
    simpa [hnew, hold] using hbytes

/-- The floor under any calls and failures. The chain of digests is not keyed, so the last
part is about frames that are altered without a new digest. -/
theorem floor_never_lowered (sha256 : Bytes → Digest) (s : Floor) (events : List Event) :
    (accepted sha256 s events).Pairwise Above ∧
    (∀ (c : Catalog) (now : Nat) (fault : Option Fault),
      let t := run (step sha256) s events
      let r := catalogAccept sha256 t c now fault
      (r.1 = true → (∃ file state, r.2.file = some file ∧ readFloor sha256 file c.keyId = some state ∧
        state.revision = c.revision ∧ state.time = now) ∧ ∀ a ∈ accepted sha256 s events, Above a (c, now)) ∧
      (r.1 = false → fault = none → r.2.file = t.file) ∧
      (r.1 = false → r.2.file = t.file ∨
        (t.file = none ∧ ∃ n, r.2.file = some ((floorHeader c.keyId).take n)) ∨
        ∃ state n, readFloor sha256 (t.file.getD (floorHeader c.keyId)) c.keyId = some state ∧
          r.2.file = some (t.file.getD (floorHeader c.keyId) ++ (floorFrame sha256 state c now).take n)) ∧
      ∀ file, t.file = some file → readFloor sha256 file c.keyId = none → r.1 = false ∧ r.2.file = some file) ∧
    (∀ (file : Bytes) (keyId : KeyId) (n : Nat), n ≤ file.length →
      (n < floorHeaderSize ∨ (n - floorHeaderSize) % floorFrameSize ≠ 0) →
      readFloor sha256 (file.take n) keyId = none) ∧
    ∀ (front frame frame' back back' : Bytes) (keyId keyId' : KeyId) (state state₁ state₂ : FloorState),
      readFloor sha256 front keyId = some state → frame.length = floorFrameSize → frame'.length = floorFrameSize →
      frame' ≠ frame → readFloor sha256 (front ++ frame ++ back) keyId = some state₁ →
      readFloor sha256 (front ++ frame' ++ back') keyId' = some state₂ →
      (frame'.take 48 = frame.take 48 ∨ frame'.drop 48 = frame.drop 48) →
      frame'.take 48 ≠ frame.take 48 ∧
        sha256 (frame'.take 48 ++ state.previousHash.bytes) = sha256 (frame.take 48 ++ state.previousHash.bytes) := by
  refine ⟨accepted_above events s, ?_, ?_, ?_⟩
  · intro c now fault t r
    refine ⟨?_, refused_file, failed_file, fun file => unreadable_refused⟩
    intro haccepted
    obtain ⟨file, state, hfile, hread, hrevision, htime, _⟩ := accepted_state haccepted
    refine ⟨⟨file, state, hfile, hread, hrevision, htime⟩, ?_⟩
    -- the call is the last of a longer run, whose accepted calls are in order
    have hordered := @accepted_above sha256 (events ++ [.accept c now fault]) s
    have hlast : accepted sha256 t [.accept c now fault] = [(c, now)] := if_pos haccepted
    rw [accepted_append, hlast, List.pairwise_append] at hordered
    intro a ha
    exact hordered.2.2 a ha (c, now) (List.mem_singleton_self _)
  · intro file keyId n hn hcut
    exact cut_unreadable keyId hn hcut
  · intro front frame frame' back back' keyId keyId' state state₁ state₂ hfront hlength hlength' hother h h' hpart
    exact altered_frame hfront hlength hlength' hother h h' hpart

def someKey : KeyId := ⟨List.replicate 64 0x61, rfl⟩

def someCatalog (revision : Nat) (hpos : 0 < revision) (hsmall : revision < 2 ^ 64) : Catalog :=
  ⟨someKey, ⟨List.replicate 32 revision.toUInt8, List.length_replicate⟩, revision, 1, 100, hpos, hsmall, by decide⟩

def older : Catalog := someCatalog 4 (by decide) (by decide)
def newer : Catalog := someCatalog 5 (by decide) (by decide)

theorem fresh_admitted (sha256 : Bytes → Digest) (hc : c.issued = 1 ∧ c.expires = 100)
    (fault : Option Fault) (hfault : fault = none ∨ ∃ n, fault = some (.frame n)) :
    catalogAccept sha256 ⟨none, false⟩ c 1 fault =
      match fault with
      | some (.frame n) =>
        (false, ⟨some (floorHeader c.keyId ++ (floorFrame sha256 (floorStart sha256 c.keyId) c 1).take n), true⟩)
      | _ => (true, ⟨some (floorHeader c.keyId ++ floorFrame sha256 (floorStart sha256 c.keyId) c 1), false⟩) := by
  have hstart := readFloor_eq_some.mpr ⟨0, @readFloor_header sha256 c.keyId⟩
  have hpos : ¬ c.revision = 0 := Nat.ne_of_gt c.revisionPos
  have hroom : ¬ floorLimit < floorHeaderSize + floorFrameSize := by decide
  rcases hfault with rfl | ⟨n, rfl⟩ <;>
    simp [catalogAccept, acceptOpened, hstart, hc.1, hc.2, floorStart, hpos, hroom]

/-- A call whose write fails is refused and leaves a part of the header or of a frame, and a
last frame written over, with the digest that the chain gives it, is taken as the floor. -/
theorem floor_rewritten :
    (∀ sha256 : Bytes → Digest, (catalogAccept sha256 ⟨none, false⟩ newer 1 (some (.frame 4))).1 = false ∧
      (catalogAccept sha256 ⟨none, false⟩ newer 1 (some (.frame 4))).2.file ≠ none) ∧
    ∀ sha256 : Bytes → Digest, ∃ file file' state,
      catalogAccept sha256 ⟨none, false⟩ newer 1 none = (true, ⟨some file, false⟩) ∧
        file'.length = file.length ∧ file'.take floorHeaderSize = file.take floorHeaderSize ∧
        readFloor sha256 file' newer.keyId = some state ∧ state.revision < newer.revision ∧
        (catalogAccept sha256 ⟨some file', false⟩ older 1 none).1 = true := by
  constructor
  · intro sha256
    rw [fresh_admitted sha256 ⟨rfl, rfl⟩ _ (.inr ⟨4, rfl⟩)]
    simp
  · intro sha256
    have hstart := readFloor_eq_some.mpr ⟨0, @readFloor_header sha256 someKey⟩
    have hread := @readFloor_appended sha256 (floorHeader someKey) older 1 (floorStart sha256 someKey) hstart
      (start_admits older 1) (by decide) (by rw [length_floorHeader]; decide)
    refine ⟨_, floorHeader someKey ++ floorFrame sha256 (floorStart sha256 someKey) older 1, _,
      fresh_admitted sha256 ⟨rfl, rfl⟩ none (.inl rfl), ?_, ?_, hread, ?_, ?_⟩
    · simp
    · rw [List.take_left' (length_floorHeader _), List.take_left' (length_floorHeader _)]
      rfl
    · exact (by decide : older.revision < newer.revision)
    · have hread' : readFloor sha256 (floorHeader someKey ++ floorFrame sha256 (floorStart sha256 someKey) older 1)
          older.keyId = some (stateAfter sha256 (floorStart sha256 someKey) older 1) := hread
      have hdates : older.issued = 1 ∧ older.expires = 100 := ⟨rfl, rfl⟩
      simp [catalogAccept, acceptOpened, hread', stateAfter, hdates.1, hdates.2]

end EtranProcessing.Deployment.AntiRollback
