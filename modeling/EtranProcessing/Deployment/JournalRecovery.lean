import EtranProcessing.Deployment.JournalFrames
import EtranProcessing.Library.Runs

namespace EtranProcessing.Deployment.JournalRecovery

open Library.FrameLog Library.Runs Journal JournalFrames

abbrev Entry := UInt32 × Bytes

def numbered (entries : List Entry) : List Record := entries.mapIdx fun i e => ⟨e.1, i + 1, e.2⟩

/-- One operation's journal: the file, the handle of the process that has it open, the
entries whose append has been confirmed (to the caller, or by a later open) and the entry
whose append failed, with the bytes of its frame that had reached the file. -/
structure Site where
  file : Bytes
  handle : Option Handle
  completed : List Entry
  interrupted : Option (Entry × Nat)

inductive Event where
  | append (kind : UInt32) (bytes : Bytes) (fault : Option Nat)
  | exit
  | reopen (create : Bool)

def Site.recovered (s : Site) : List Entry :=
  match s.interrupted with
  | some (e, n) => if frameSize + e.2.length + 4 ≤ n then s.completed ++ [e] else s.completed
  | none => s.completed

def fresh (header : Bytes) : Site := ⟨header, none, [], none⟩

section Machine

variable (sha256 : Bytes → Digest) (header : Bytes)

/-- A crash during an append leaves on disk what a write that fails leaves: it is a
faulty append and the exit of the process. The journal is opened by one process at a time. -/
def step (s : Site) : Event → Site
  | .append kind bytes fault =>
    match s.handle with
    | none => s
    | some j =>
      match journalAppend sha256 j s.file kind bytes fault with
      | (.ok _, j, file) => ⟨file, some j, s.completed ++ [(kind, bytes)], s.interrupted⟩
      | (.error .writeFault, j, file) => ⟨file, some j, s.completed, some ((kind, bytes), fault.getD 0)⟩
      | (.error _, j, file) => ⟨file, some j, s.completed, s.interrupted⟩
  | .exit => { s with handle := none }
  | .reopen create =>
    match s.handle with
    | some _ => s
    | none =>
      match journalOpen sha256 header create s.file with
      | .error _ => s
      | .ok (j, file) => ⟨file, some j, s.recovered, none⟩

def cursorOf (entries : List Entry) : Cursor :=
  (numbered entries).foldl (cursorNext sha256) (initial sha256 header)

def framesOf (entries : List Entry) : Bytes :=
  frames (recordFrame sha256) (cursorNext sha256) (initial sha256 header) (numbered entries)

def tailOf (s : Site) : Bytes :=
  match s.interrupted with
  | some (e, n) => (frameBytes sha256 (cursorOf sha256 header s.completed) e.1 e.2).take n
  | none => []

end Machine

def Within (e : Entry) : Prop := e.1 ≠ 0 ∧ e.2.length ≤ maxRecord

def entrySize (e : Entry) : Nat := frameSize + e.2.length + 4

theorem numbered_append (entries : List Entry) (e : Entry) :
    numbered (entries ++ [e]) = numbered entries ++ [⟨e.1, entries.length + 1, e.2⟩] := by
  simp [numbered, List.mapIdx_append]

variable {sha256 : Bytes → Digest} {header : Bytes}

theorem cursorOf_append (entries : List Entry) (e : Entry) :
    cursorOf sha256 header (entries ++ [e]) =
      cursorNext sha256 (cursorOf sha256 header entries) ⟨e.1, entries.length + 1, e.2⟩ := by
  simp [cursorOf, numbered_append]

theorem framesOf_append (entries : List Entry) (e : Entry) :
    framesOf sha256 header (entries ++ [e]) =
      framesOf sha256 header entries ++ frameBytes sha256 (cursorOf sha256 header entries) e.1 e.2 := by
  rw [framesOf, numbered_append, frames_append]
  simp [framesOf, cursorOf, frames, recordFrame]

theorem length_framesOf (entries : List Entry) :
    (framesOf sha256 header entries).length = (entries.map entrySize).sum := by
  induction entries using List.reverseRecOn with
  | nil => rfl
  | append_singleton entries e ih =>
      rw [framesOf_append, List.length_append, ih, length_frameBytes]
      simp [entrySize]

theorem count_le (entries : List Entry) : 52 * entries.length ≤ (framesOf sha256 header entries).length := by
  rw [length_framesOf]
  induction entries with
  | nil => simp
  | cons e entries ih =>
      simp only [List.map_cons, List.sum_cons, List.length_cons, entrySize, frameSize] at ih ⊢
      omega

theorem cursorOf_sequence {entries : List Entry} (h : (framesOf sha256 header entries).length ≤ journalLimit) :
    (cursorOf sha256 header entries).sequence = entries.length := by
  induction entries using List.reverseRecOn with
  | nil => rfl
  | append_singleton entries e ih =>
      have hcount := @count_le sha256 header (entries ++ [e])
      rw [framesOf_append, List.length_append] at h hcount
      rw [cursorOf_append, cursorNext, ih (by omega), List.length_append, List.length_singleton]
      apply Nat.mod_eq_of_lt
      simp only [List.length_append, List.length_singleton, journalLimit] at h hcount
      omega

/-- What the process that has the journal open knows about it. -/
structure Live (sha256 : Bytes → Digest) (header : Bytes) (s : Site) (j : Handle) : Prop where
  sameHeader : j.header = header
  interrupted : s.interrupted = none
  sequence : j.sequence = (cursorOf sha256 header s.completed).sequence
  digest : j.digest = (cursorOf sha256 header s.completed).digest
  endOffset : j.endOffset = s.file.length

structure Inv (sha256 : Bytes → Digest) (header : Bytes) (s : Site) : Prop where
  file : s.file = header ++ framesOf sha256 header s.completed ++ tailOf sha256 header s
  within : ∀ e ∈ s.completed, Within e
  small : headerSize + (framesOf sha256 header s.completed).length ≤ journalLimit
  interrupted : ∀ e n, s.interrupted = some (e, n) → Within e ∧
    headerSize + (framesOf sha256 header s.completed).length + entrySize e ≤ journalLimit
  live : ∀ j, s.handle = some j → j.poisoned = false → Live sha256 header s j

theorem fits_of_within {entries : List Entry} {e : Entry} (he : Within e)
    (h : (framesOf sha256 header (entries ++ [e])).length ≤ journalLimit) :
    Fits (cursorOf sha256 header entries) ⟨e.1, entries.length + 1, e.2⟩ := by
  refine ⟨he.1, he.2, ?_⟩
  have hcount := @count_le sha256 header (entries ++ [e])
  have hbefore : (framesOf sha256 header entries).length ≤ journalLimit := by
    rw [framesOf_append, List.length_append] at h
    omega
  have hsmall : entries.length + 1 < 2 ^ 64 := by
    simp only [List.length_append, List.length_singleton, journalLimit] at h hcount
    omega
  rw [cursorOf_sequence hbefore]
  exact (Nat.mod_eq_of_lt hsmall).symm

theorem fitting_of_within {entries : List Entry} (hwithin : ∀ e ∈ entries, Within e)
    (h : (framesOf sha256 header entries).length ≤ journalLimit) :
    Fitting Fits (cursorNext sha256) (initial sha256 header) (numbered entries) := by
  induction entries using List.reverseRecOn with
  | nil => trivial
  | append_singleton entries e ih =>
      have hlast := fits_of_within (hwithin e (by simp)) h
      rw [framesOf_append, List.length_append] at h
      rw [numbered_append]
      exact (ih (fun e' he' => hwithin e' (List.mem_append_left _ he')) (by omega)).append hlast

theorem scan_entries (hheader : header.length = headerSize) {entries : List Entry} (hwithin : ∀ e ∈ entries, Within e)
    (tail : Bytes) (hsmall : (header ++ framesOf sha256 header entries ++ tail).length ≤ journalLimit)
    (htail : tail = [] ∨ ∃ e m, Fits (cursorOf sha256 header entries) ⟨e.1, entries.length + 1, e.2⟩ ∧ 0 < m ∧
      m < entrySize e ∧ tail = (frameBytes sha256 (cursorOf sha256 header entries) e.1 e.2).take m) :
    scan sha256 header (header ++ framesOf sha256 header entries ++ tail) =
      .ok ⟨numbered entries, cursorOf sha256 header entries, (framesOf sha256 header entries).length,
        bif tail.isEmpty then .clean else .torn⟩ := by
  have hlength : (header ++ framesOf sha256 header entries ++ tail).length =
      headerSize + (framesOf sha256 header entries ++ tail).length := by
    rw [List.append_assoc, List.length_append, hheader]
  have hin : ¬ ((header ++ framesOf sha256 header entries ++ tail).length < headerSize ∨
      journalLimit < (header ++ framesOf sha256 header entries ++ tail).length) := by
    omega
  have hfront : (header ++ framesOf sha256 header entries ++ tail).take headerSize = header := by
    rw [List.append_assoc]
    exact List.take_left' hheader
  have hback : (header ++ framesOf sha256 header entries ++ tail).drop headerSize =
      framesOf sha256 header entries ++ tail := by
    rw [List.append_assoc]
    exact List.drop_left' hheader
  have hfitting := @fitting_of_within sha256 header entries hwithin (by
    rw [@List.length_append _ (framesOf sha256 header entries)] at hlength
    omega)
  have hwalk := walk_frames journal_reads (header ++ framesOf sha256 header entries ++ tail).length
    (initial sha256 header) (numbered entries) tail hfitting (by rw [hlength]; exact Nat.le_add_left _ _) (by
      rcases htail with hnil | ⟨e, m, hfits, hpos, hlt, htake⟩
      · exact .inl hnil
      · refine .inr ⟨⟨e.1, entries.length + 1, e.2⟩, m, hfits, hpos, ?_, htake⟩
        rw [recordFrame, length_frameBytes]
        exact hlt)
  unfold scan
  rw [if_neg hin, if_neg (by simpa using hfront), hback]
  refine Walk.result_eq_ok.mpr ⟨hwalk, ?_⟩
  intro e he
  have hending := (congrArg Walk.ending hwalk).symm.trans he
  cases hempty : tail.isEmpty with
  | true => simp [hempty] at hending
  | false => simp [hempty] at hending

theorem length_frame (e : Entry) (c : Cursor) : (frameBytes sha256 c e.1 e.2).length = entrySize e :=
  length_frameBytes c e.1 e.2

variable {s : Site}

theorem Inv.recovered (h : Inv sha256 header s) : (∀ e ∈ s.recovered, Within e) ∧
    headerSize + (framesOf sha256 header s.recovered).length ≤ journalLimit := by
  cases hi : s.interrupted with
  | none => simpa only [Site.recovered, hi] using ⟨h.within, h.small⟩
  | some p =>
      obtain ⟨e, n⟩ := p
      obtain ⟨hwithin, hsmall⟩ := h.interrupted e n hi
      simp only [Site.recovered, hi]
      split
      next =>
        refine ⟨?_, ?_⟩
        · intro e' he'
          rcases List.mem_append.mp he' with he' | he'
          · exact h.within e' he'
          · exact List.mem_singleton.mp he' ▸ hwithin
        · rw [framesOf_append, List.length_append, length_frame]
          omega
      next => exact ⟨h.within, h.small⟩

theorem Inv.file_recovered (h : Inv sha256 header s) : ∃ tail,
    s.file = header ++ framesOf sha256 header s.recovered ++ tail ∧
      headerSize + (framesOf sha256 header s.recovered).length + tail.length ≤ journalLimit ∧
      (tail = [] ∨ ∃ e m, Fits (cursorOf sha256 header s.recovered) ⟨e.1, s.recovered.length + 1, e.2⟩ ∧ 0 < m ∧
        m < entrySize e ∧ tail = (frameBytes sha256 (cursorOf sha256 header s.recovered) e.1 e.2).take m) := by
  have hfile := h.file
  cases hi : s.interrupted with
  | none =>
      refine ⟨[], ?_, ?_, .inl rfl⟩
      · simpa only [tailOf, hi, Site.recovered] using hfile
      · simpa [Site.recovered, hi] using h.small
  | some p =>
      obtain ⟨e, n⟩ := p
      obtain ⟨hwithin, hsmall⟩ := h.interrupted e n hi
      simp only [tailOf, hi] at hfile
      simp only [Site.recovered, hi]
      split
      next hall =>
        refine ⟨[], ?_, ?_, .inl rfl⟩
        · have hlen := @length_frame sha256 e (cursorOf sha256 header s.completed)
          rw [List.take_of_length_le (by rw [hlen]; exact hall)] at hfile
          rw [framesOf_append, hfile]
          simp
        · rw [framesOf_append, List.length_append, length_frame, List.length_nil]
          omega
      next hpart =>
        have hlt : n < entrySize e := Nat.not_le.mp hpart
        refine ⟨_, hfile, ?_, ?_⟩
        · rw [List.length_take]
          omega
        · rcases Nat.eq_zero_or_pos n with rfl | hpos
          · exact .inl (List.take_zero)
          · refine .inr ⟨e, n, fits_of_within hwithin ?_, hpos, hlt, rfl⟩
            rw [framesOf_append, List.length_append, length_frame]
            omega

theorem Inv.scan (hheader : header.length = headerSize) (h : Inv sha256 header s) :
    ∃ ending, Journal.scan sha256 header s.file =
      .ok ⟨numbered s.recovered, cursorOf sha256 header s.recovered,
        (framesOf sha256 header s.recovered).length, ending⟩ := by
  obtain ⟨tail, hfile, hsmall, htail⟩ := h.file_recovered
  refine ⟨bif tail.isEmpty then .clean else .torn, ?_⟩
  rw [hfile]
  apply scan_entries hheader h.recovered.1 tail _ htail
  rw [List.length_append, List.length_append, hheader]
  exact hsmall

def opened (sha256 : Bytes → Digest) (header : Bytes) (entries : List Entry) : Handle where
  header := header
  sequence := (cursorOf sha256 header entries).sequence
  endOffset := headerSize + (framesOf sha256 header entries).length
  digest := (cursorOf sha256 header entries).digest
  poisoned := false

theorem Inv.journalOpen (hheader : header.length = headerSize) (h : Inv sha256 header s) (create : Bool) :
    Journal.journalOpen sha256 header create s.file =
      .ok (opened sha256 header s.recovered, header ++ framesOf sha256 header s.recovered) := by
  obtain ⟨tail, hfile, _, _⟩ := h.file_recovered
  obtain ⟨ending, hscan⟩ := h.scan hheader
  have hpos : headerSize = 24 := rfl
  have hlength : headerSize ≤ s.file.length := by
    rw [hfile, List.length_append, List.length_append, hheader]
    omega
  have hnonempty : ¬ (s.file = [] ∧ create = true) := by
    rintro ⟨hnil, _⟩
    rw [hnil] at hlength
    exact absurd hlength (by decide)
  have hfront : s.file.take headerSize = header := by
    rw [hfile, List.append_assoc]
    exact List.take_left' hheader
  have hwhole : s.file.take (headerSize + (framesOf sha256 header s.recovered).length) =
      header ++ framesOf sha256 header s.recovered := by
    rw [hfile]
    exact List.take_left' (by rw [List.length_append, hheader])
  have hvalid : ¬ (s.file.length < headerSize ∨ s.file.take headerSize ≠ header) := by
    simpa [hfront] using hlength
  simp only [Journal.journalOpen, if_neg hnonempty, if_neg hvalid, hscan, hwhole]
  rfl

theorem fresh_inv : Inv sha256 header (fresh header) where
  file := by simp [fresh, framesOf, numbered, frames, tailOf]
  within := by simp [fresh]
  small := by
    change headerSize + 0 ≤ journalLimit
    decide
  interrupted e n h := by cases h
  live j h := by cases h

theorem journalAppend_cases (sha256 : Bytes → Digest) (j : Handle) (file : Bytes) (kind : UInt32) (bytes : Bytes)
    (fault : Option Nat) :
    (∃ e, e ≠ .writeFault ∧ journalAppend sha256 j file kind bytes fault = (.error e, j, file)) ∨
    (j.poisoned = false ∧ Within (kind, bytes) ∧ j.endOffset + entrySize (kind, bytes) ≤ journalLimit ∧
      ((∃ n, fault = some n ∧ journalAppend sha256 j file kind bytes fault =
        (.error .writeFault, { j with poisoned := true },
          overwrite file j.endOffset ((frameBytes sha256 ⟨j.sequence, j.digest⟩ kind bytes).take n))) ∨
      (fault = none ∧ journalAppend sha256 j file kind bytes fault =
        (.ok ((j.sequence + 1) % 2 ^ 64),
          { j with
            sequence := (j.sequence + 1) % 2 ^ 64
            endOffset := j.endOffset + frameSize + bytes.length + 4
            digest := frameDigest sha256 ⟨j.sequence, j.digest⟩ kind bytes },
          overwrite file j.endOffset (frameBytes sha256 ⟨j.sequence, j.digest⟩ kind bytes))))) := by
  unfold journalAppend
  split
  next => exact .inl ⟨.invalidParameter, by decide, rfl⟩
  next hparameters =>
    simp only [not_or, Nat.not_lt, Bool.not_eq_true] at hparameters
    split
    next => exact .inl ⟨.diskFull, by decide, rfl⟩
    next hroom =>
      refine .inr ⟨hparameters.1, hparameters.2, by simp only [entrySize]; omega, ?_⟩
      cases fault with
      | none => exact .inr ⟨rfl, rfl⟩
      | some n => exact .inl ⟨n, rfl, rfl⟩

theorem overwrite_end (file bytes : Bytes) : overwrite file file.length bytes = file ++ bytes := by
  simp [overwrite]

theorem Live.cursor {j : Handle} (h : Live sha256 header s j) :
    (⟨j.sequence, j.digest⟩ : Cursor) = cursorOf sha256 header s.completed := by
  rw [h.sequence, h.digest]

theorem Inv.length_file (hheader : header.length = headerSize) (h : Inv sha256 header s)
    (hi : s.interrupted = none) : s.file.length = headerSize + (framesOf sha256 header s.completed).length := by
  have hfile := h.file
  simp only [tailOf, hi, List.append_nil] at hfile
  rw [hfile, List.length_append, hheader]

theorem append_inv (hheader : header.length = headerSize) (h : Inv sha256 header s) (kind : UInt32)
    (bytes : Bytes) (fault : Option Nat) : Inv sha256 header (step sha256 header s (.append kind bytes fault)) := by
  cases hj : s.handle with
  | none => simpa [step, hj] using h
  | some j =>
      rcases journalAppend_cases sha256 j s.file kind bytes fault with
        ⟨e, he, hrefused⟩ | ⟨hlive, hwithin, hroom, ⟨n, rfl, hfault⟩ | ⟨rfl, hdone⟩⟩
      · have hself : s = ⟨s.file, some j, s.completed, s.interrupted⟩ := by rw [← hj]
        cases e with
        | writeFault => exact absurd rfl he
        | _ => simpa only [step, hj, hrefused, ← hself] using h
      · obtain ⟨hsame, hi, hsequence, hdigest, hend⟩ := h.live j hj hlive
        have hcursor := (h.live j hj hlive).cursor
        have hlength := h.length_file hheader hi
        have hfile := h.file
        simp only [tailOf, hi, List.append_nil] at hfile
        simp only [step, hj, hfault, hend, overwrite_end, hcursor]
        refine ⟨?_, h.within, h.small, ?_, ?_⟩
        · exact congrArg (· ++ _) hfile
        · intro e m hm
          cases hm
          rw [hend, hlength] at hroom
          exact ⟨hwithin, hroom⟩
        · intro j' hj' hpoisoned
          cases hj'
          cases hpoisoned
      · obtain ⟨hsame, hi, hsequence, hdigest, hend⟩ := h.live j hj hlive
        have hcursor := (h.live j hj hlive).cursor
        have hlength := h.length_file hheader hi
        have hfile := h.file
        simp only [tailOf, hi, List.append_nil] at hfile
        have hnext := @cursorOf_append sha256 header s.completed (kind, bytes)
        have hframes := @framesOf_append sha256 header s.completed (kind, bytes)
        have hsize := @length_frame sha256 (kind, bytes) (cursorOf sha256 header s.completed)
        simp only [step, hj, hdone, hcursor]
        refine ⟨?_, ?_, ?_, ?_, ?_⟩
        · simp only [tailOf, hi, hend, overwrite_end, hframes, List.append_nil]
          rw [hfile, List.append_assoc]
        · intro e he
          rcases List.mem_append.mp he with he | he
          · exact h.within e he
          · exact List.mem_singleton.mp he ▸ hwithin
        · rw [hframes, List.length_append, hsize]
          omega
        · intro e m hm
          rw [hi] at hm
          cases hm
        · intro j' hj' hpoisoned
          cases hj'
          refine ⟨hsame, hi, ?_, ?_, ?_⟩
          · simp only [hnext, cursorNext, hsequence]
          · simp only [hnext, cursorNext]
          · simp only [hend, overwrite_end, List.length_append, hsize, entrySize]
            omega

theorem step_inv (hheader : header.length = headerSize) (h : Inv sha256 header s) (e : Event) :
    Inv sha256 header (step sha256 header s e) := by
  cases e with
  | append kind bytes fault => exact append_inv hheader h kind bytes fault
  | exit => exact ⟨h.file, h.within, h.small, h.interrupted, fun j hj => by cases hj⟩
  | reopen create =>
      cases hj : s.handle with
      | some j => simpa [step, hj] using h
      | none =>
          simp only [step, hj, h.journalOpen hheader create]
          refine ⟨?_, h.recovered.1, h.recovered.2, ?_, ?_⟩
          · simp [tailOf]
          · intro e n hn
            cases hn
          · intro j' hj' _
            cases hj'
            exact ⟨rfl, rfl, rfl, rfl, by simp [opened, hheader]⟩

theorem run_inv (hheader : header.length = headerSize) (events : List Event) (s : Site) (h : Inv sha256 header s) :
    Inv sha256 header (run (step sha256 header) s events) :=
  run_kept (p := Inv sha256 header) (fun _ e hs => step_inv hheader hs e) events s h

theorem failed_append (sha256 : Bytes → Digest) {j j' : Handle} {file file' : Bytes} {kind : UInt32} {bytes : Bytes}
    {fault : Option Nat} {e : Win32Error}
    (h : journalAppend sha256 j file kind bytes fault = (.error e, j', file')) :
    (j'.endOffset = j.endOffset ∧ j'.sequence = j.sequence ∧ j'.digest = j.digest) ∧
      (e ≠ .writeFault → j' = j ∧ file' = file) ∧
      (e = .writeFault → (∀ f k b n, journalAppend sha256 j' f k b n = (.error .invalidParameter, j', f)) ∧
        ∀ (τ : Type) f (visit : τ → Record → Except Win32Error τ) context,
          journalReplay sha256 j' f visit context = .error .invalidParameter) := by
  rcases journalAppend_cases sha256 j file kind bytes fault with
    ⟨e', he', hrefused⟩ | ⟨_, _, _, ⟨n, rfl, hfault⟩ | ⟨rfl, hdone⟩⟩
  · rw [hrefused] at h
    cases h
    exact ⟨⟨rfl, rfl, rfl⟩, fun _ => ⟨rfl, rfl⟩, fun he => absurd he he'⟩
  · rw [hfault] at h
    cases h
    refine ⟨⟨rfl, rfl, rfl⟩, fun he => absurd rfl he, fun _ => ⟨?_, ?_⟩⟩
    · intro f k b n
      simp [journalAppend]
    · intro τ f visit context
      simp [journalReplay]
  · rw [hdone] at h
    cases h

theorem length_journalHeader (id : Guid) : (journalHeader id).length = headerSize := by
  simp [journalHeader, id.size, headerSize]

theorem Inv.replay (hheader : header.length = headerSize) (h : Inv sha256 header s) {j : Handle}
    (hj : s.handle = some j) (hlive : j.poisoned = false) {τ : Type} (visit : τ → Record → Except Win32Error τ)
    (context : τ) : journalReplay sha256 j s.file visit context = (numbered s.completed).foldlM visit context := by
  have hl := h.live j hj hlive
  obtain ⟨ending, hscan⟩ := h.scan hheader
  have hrecovered : s.recovered = s.completed := by simp [Site.recovered, hl.interrupted]
  rw [hrecovered] at hscan
  have hmeasured := measured_scan hscan
  simp only [journalReplay, hlive, hl.sameHeader, hscan, hmeasured]
  rfl

theorem Inv.length_le (hheader : header.length = headerSize) (h : Inv sha256 header s) :
    s.file.length ≤ journalLimit := by
  obtain ⟨tail, hfile, hsmall, _⟩ := h.file_recovered
  rw [hfile, List.length_append, List.length_append, hheader]
  exact hsmall

theorem journal_crash_safe (sha256 : Bytes → Digest) (id : Guid) (events : List Event) :
    let s := run (step sha256 (journalHeader id)) (fresh (journalHeader id)) events
    (∀ create, ∃ j file, journalOpen sha256 (journalHeader id) create s.file = .ok (j, file) ∧
        j.poisoned = false ∧ j.sequence = s.recovered.length ∧
        ∀ (τ : Type) (visit : τ → Record → Except Win32Error τ) context,
          journalReplay sha256 j file visit context = (numbered s.recovered).foldlM visit context) ∧
      (∀ j, s.handle = some j → j.poisoned = false →
        j.sequence = s.completed.length ∧
        (∀ (τ : Type) (visit : τ → Record → Except Win32Error τ) context,
          journalReplay sha256 j s.file visit context = (numbered s.completed).foldlM visit context) ∧
        ∀ kind bytes fault n j' file', journalAppend sha256 j s.file kind bytes fault = (.ok n, j', file') →
          n = s.completed.length + 1) ∧
      (∀ j kind bytes fault e j' file', s.handle = some j →
        journalAppend sha256 j s.file kind bytes fault = (.error e, j', file') →
        (j'.endOffset = j.endOffset ∧ j'.sequence = j.sequence ∧ j'.digest = j.digest) ∧
          (e ≠ .writeFault → j' = j ∧ file' = s.file) ∧
          (e = .writeFault → (∀ f k b n, journalAppend sha256 j' f k b n = (.error .invalidParameter, j', f)) ∧
            ∀ (τ : Type) f (visit : τ → Record → Except Win32Error τ) context,
              journalReplay sha256 j' f visit context = .error .invalidParameter)) ∧
      s.file.length ≤ journalLimit := by
  intro s
  have hheader := length_journalHeader id
  have h : Inv sha256 (journalHeader id) s := run_inv hheader events _ fresh_inv
  have hsmall : ∀ {entries}, headerSize + (framesOf sha256 (journalHeader id) entries).length ≤ journalLimit →
      (cursorOf sha256 (journalHeader id) entries).sequence = entries.length := by
    intro entries hentries
    exact cursorOf_sequence (by omega)
  refine ⟨?_, ?_, ?_, h.length_le hheader⟩
  · intro create
    have hreopened : Inv sha256 (journalHeader id)
        (step sha256 (journalHeader id) { s with handle := none } (.reopen create)) :=
      step_inv hheader (step_inv hheader h .exit) (.reopen create)
    have hopen := h.journalOpen hheader create
    refine ⟨_, _, hopen, rfl, hsmall h.recovered.2, ?_⟩
    intro τ visit context
    have hsame : step sha256 (journalHeader id) { s with handle := none } (.reopen create) =
        ⟨journalHeader id ++ framesOf sha256 (journalHeader id) s.recovered,
          some (opened sha256 (journalHeader id) s.recovered), s.recovered, none⟩ := by
      simp only [step, hopen]
      rfl
    rw [hsame] at hreopened
    exact hreopened.replay hheader rfl rfl visit context
  · intro j hj hlive
    have hl := h.live j hj hlive
    have hcount := hl.sequence.trans (hsmall h.small)
    refine ⟨hcount, fun τ visit context => h.replay hheader hj hlive visit context, ?_⟩
    intro kind bytes fault n j' file' happend
    rcases journalAppend_cases sha256 j s.file kind bytes fault with
      ⟨e', _, hrefused⟩ | ⟨_, hwithin, hroom, ⟨_, rfl, hfault⟩ | ⟨rfl, hdone⟩⟩
    · rw [hrefused] at happend
      cases happend
    · rw [hfault] at happend
      cases happend
    · rw [hdone] at happend
      cases happend
      rw [hcount]
      apply Nat.mod_eq_of_lt
      have hbound := @count_le sha256 (journalHeader id) s.completed
      have hfits := h.small
      simp only [journalLimit] at hfits
      omega
  · intro j kind bytes fault e j' file' _ happend
    exact failed_append sha256 happend

def largest : Bytes := List.replicate maxRecord 0

def noDigest (_ : Bytes) : Digest := ⟨List.replicate 32 0, by simp⟩

def someGuid : Guid := ⟨List.replicate 16 1, by simp⟩

def filling (n : Nat) : List Event := .reopen true :: List.replicate n (.append 1 largest none)

theorem filling_live (n : Nat) (hn : n ≤ 31) : ∃ j,
    (run (step noDigest (journalHeader someGuid)) (fresh (journalHeader someGuid)) (filling n)).handle = some j ∧
      j.poisoned = false ∧ j.sequence = n ∧ j.endOffset = 24 + n * 262196 := by
  induction n with
  | zero =>
      have hopen := (@fresh_inv noDigest _).journalOpen (length_journalHeader someGuid) true
      refine ⟨opened noDigest (journalHeader someGuid) [], ?_, rfl, rfl, rfl⟩
      simp only [filling, run, List.replicate, List.foldl, step, hopen]
      rfl
  | succ n ih =>
      obtain ⟨j, hj, hlive, hsequence, hend⟩ := ih (by omega)
      have hsplit : filling (n + 1) = filling n ++ [.append 1 largest none] := by
        simp [filling, List.replicate_succ']
      rw [hsplit, run_append]
      generalize run (step noDigest (journalHeader someGuid)) (fresh (journalHeader someGuid)) (filling n) = s at hj ⊢
      have hlength : largest.length = maxRecord := List.length_replicate
      have hsmall : frameSize = 48 ∧ maxRecord = 262144 ∧ headerSize = 24 ∧ journalLimit = 8388608 := by decide
      have hroom : ¬ journalLimit < j.endOffset + frameSize + maxRecord + 4 := by omega
      refine ⟨{ j with
        sequence := (j.sequence + 1) % 2 ^ 64
        endOffset := j.endOffset + frameSize + maxRecord + 4
        digest := frameDigest noDigest ⟨j.sequence, j.digest⟩ 1 largest }, ?_, hlive, ?_, ?_⟩
      · simp [run, step, hj, journalAppend, hlive, hlength, hroom]
      · simp only [hsequence]
        omega
      · simp only [hend]
        omega

/-- The journal has no room for a record of the largest size, and the append that fails
for that does not stop the handle from taking a smaller one. -/
theorem full_journal_usable : ∃ j,
    (run (step noDigest (journalHeader someGuid)) (fresh (journalHeader someGuid)) (filling 31)).handle = some j ∧
      ∀ file, journalAppend noDigest j file 1 largest none = (.error .diskFull, j, file) ∧
        (journalAppend noDigest j file 1 [] none).1 = .ok 32 := by
  obtain ⟨j, hj, hlive, hsequence, hend⟩ := filling_live 31 (Nat.le_refl _)
  have hlength : largest.length = maxRecord := List.length_replicate
  have hsmall : frameSize = 48 ∧ maxRecord = 262144 ∧ headerSize = 24 ∧ journalLimit = 8388608 := by decide
  have hfull : journalLimit < j.endOffset + frameSize + maxRecord + 4 := by omega
  have hroom : ¬ journalLimit < j.endOffset + frameSize + 4 := by omega
  refine ⟨j, hj, fun file => ⟨?_, ?_⟩⟩
  · simp [journalAppend, hlive, hlength, hfull]
  · simp [journalAppend, hlive, hroom, hsequence]

end EtranProcessing.Deployment.JournalRecovery
