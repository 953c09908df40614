import EtranProcessing.Deployment.Records

namespace EtranProcessing.Deployment.JournalReader

open Library.FrameLog Library.Runs Journal JournalFrames JournalRecovery

/-- A validated copy of a journal, taken without its lock. -/
structure Reader where
  snapshot : Bytes
  sequence : Nat
  endOffset : Nat
  digest : Digest
  live : Bool

section Hash

variable (sha256 : Bytes → Digest)

def unfinished (live : Bool) : Win32Error := if live then .ioPending else .invalidData

/-- One round of the loop of validate, on the bytes from its position on. -/
def readerFrame (live : Bool) (c : Cursor) (f : Bytes) : Piece Cursor Win32Error Record :=
  let remain := f.length
  if remain < frameSize + 4 then .invalid (unfinished live)
  else
    let kind := get32 f
    let size := get32 (f.drop 4)
    let number := get64 (f.drop 8)
    if kind = 0 ∨ maxRecord < size ∨ number ≠ (c.sequence + 1) % 2 ^ 64 then .invalid .invalidData
    else if dwordSub (dwordSub remain frameSize) 4 < size then .invalid (unfinished live)
    else
      let bytes := (f.drop frameSize).take size
      let actual := storeHash sha256 (f.take 16 ++ c.digest.bytes) bytes
      if get32 (f.drop (frameSize + size)) ≠ endMarker ∨ actual.bytes ≠ (f.drop 16).take 32 then .invalid .crc
      else .item ⟨.ofNat kind, number, bytes⟩ ⟨number, actual⟩ (frameSize + size + 4)

/-- A live file that has grown while it was read is looked at again later. -/
def readerOpen (header : Bytes) (live grown : Bool) (file : Bytes) : Except Win32Error Reader :=
  if file.length < headerSize ∨ journalLimit < file.length then .error .invalidData
  else if live = true ∧ grown = true then .error .ioPending
  else if file.take headerSize ≠ header then .error .invalidData
  else
    (walk (readerFrame sha256 live) file.length (initial sha256 header) (file.drop headerSize)).result.map
      fun w => ⟨file, w.state.sequence, headerSize + w.used, w.state.digest, live⟩

end Hash

def readerReplay {τ : Type} (r : Reader) (visit : τ → Record → Except Win32Error τ) (context : τ) :
    Except Win32Error τ :=
  (measured r.snapshot.length (r.snapshot.drop headerSize)).foldlM visit context

variable {sha256 : Bytes → Digest}

theorem dwordSub_of_le {a b : Nat} (h : b ≤ a) (ha : a < 2 ^ 32) : dwordSub a b = a - b := by
  unfold dwordSub
  omega

theorem readerFrame_item {live : Bool} {c : Cursor} {bs : Bytes} (hbs : bs.length < 2 ^ 32) {r : Record}
    {next : Cursor} {size : Nat} :
    readerFrame sha256 live c bs = .item r next size ↔ scanFrame sha256 c bs = .item r next size := by
  rw [scanFrame_item]
  have hframe : frameSize = 48 := rfl
  unfold readerFrame
  constructor
  · intro h
    simp only at h
    split at h
    next => cases h
    next hhead =>
      split at h
      next => cases h
      next hfields =>
        simp only [not_or, ne_eq, Decidable.not_not, Nat.not_lt] at hfields
        obtain ⟨hkind, hlength, hnumber⟩ := hfields
        rw [dwordSub_of_le (b := frameSize) (by omega) hbs, dwordSub_of_le (by omega) (by omega)] at h
        split at h
        next => cases h
        next henough =>
          split at h
          next => cases h
          next hwhole =>
            simp only [not_or, ne_eq, Decidable.not_not] at hwhole
            cases h
            exact ⟨⟨hkind, hlength, hnumber, by omega, hwhole.1, hwhole.2⟩, rfl, rfl, rfl⟩
  · rintro ⟨h, rfl, rfl, rfl⟩
    have henough := h.enough
    have hhead : ¬ bs.length < frameSize + 4 := by omega
    have hfields := frame_fields h.kind h.length h.number
    have hroom : ¬ dwordSub (dwordSub bs.length frameSize) 4 < get32 (bs.drop 4) := by
      rw [dwordSub_of_le (b := frameSize) (by omega) hbs, dwordSub_of_le (by omega) (by omega)]
      omega
    have hwhole : ¬ (get32 (bs.drop (frameSize + get32 (bs.drop 4))) ≠ endMarker ∨
        (storeHash sha256 (bs.take 16 ++ c.digest.bytes) ((bs.drop frameSize).take (get32 (bs.drop 4)))).bytes ≠
          (bs.drop 16).take 32) := by
      simp only [ne_eq, h.marker, h.digest, not_true_eq_false, or_self, not_false_eq_true]
    simp only [if_neg hhead, if_neg hfields, if_neg hroom, if_neg hwhole]
    rfl

theorem readerFrame_not_short (live : Bool) (c : Cursor) (bs : Bytes) : readerFrame sha256 live c bs ≠ .short := by
  unfold readerFrame
  simp only
  split
  next => simp
  next =>
    split
    next => simp
    next =>
      split
      next => simp
      next =>
        split
        next => simp
        next => simp

structure Headed (header file : Bytes) : Prop where
  atLeast : headerSize ≤ file.length
  atMost : file.length ≤ journalLimit
  front : file.take headerSize = header

variable {header file : Bytes}

def ownerWalk (sha256 : Bytes → Digest) (header file : Bytes) : Walk Cursor Win32Error Record :=
  walk (scanFrame sha256) file.length (initial sha256 header) (file.drop headerSize)

def readerWalk (sha256 : Bytes → Digest) (live : Bool) (header file : Bytes) : Walk Cursor Win32Error Record :=
  walk (readerFrame sha256 live) file.length (initial sha256 header) (file.drop headerSize)

theorem Headed.size (h : Headed header file) : ¬ (file.length < headerSize ∨ journalLimit < file.length) := by
  have hmin := h.atLeast
  have hmax := h.atMost
  omega

theorem Headed.scan (h : Headed header file) : Journal.scan sha256 header file = (ownerWalk sha256 header file).result := by
  simp only [Journal.scan, if_neg h.size, h.front, ne_eq, not_true_eq_false, if_false, ownerWalk]

theorem Headed.readerOpen (h : Headed header file) (live : Bool) :
    JournalReader.readerOpen sha256 header live false file = (readerWalk sha256 live header file).result.map
      fun w => ⟨file, w.state.sequence, headerSize + w.used, w.state.digest, live⟩ := by
  simp only [JournalReader.readerOpen, if_neg h.size, h.front, ne_eq, not_true_eq_false, if_false, reduceCtorEq,
    and_false, readerWalk]

theorem limit_lt : journalLimit < 2 ^ 32 := by decide

theorem Headed.rest_le (h : Headed header file) : (file.drop headerSize).length ≤ journalLimit := by
  have hmax := h.atMost
  rw [List.length_drop]
  omega

theorem reader_clean_iff (h : Headed header file) (live : Bool) :
    (readerWalk sha256 live header file).ending = .clean ↔
      (ownerWalk sha256 header file).ending = .clean := by
  have hlimit := limit_lt
  have hrest := h.rest_le
  constructor
  · intro hclean
    refine (walk_agree journalLimit ?_ _ _ _ hrest hclean).1
    intro c bs hbs r next size hitem
    exact (readerFrame_item (by omega)).mp hitem
  · intro hclean
    refine (walk_agree journalLimit ?_ _ _ _ hrest hclean).1
    intro c bs hbs r next size hitem
    exact (readerFrame_item (by omega)).mpr hitem

theorem reader_not_torn (h : Headed header file) (live : Bool) :
    (readerWalk sha256 live header file).ending ≠ .torn := by
  have hlimit := limit_lt
  apply walk_settled journalLimit (readerFrame_not_short live)
  · intro c bs hbs r next size hitem
    exact (scanFrame_local.pos ((readerFrame_item (by omega)).mp hitem)).1
  · exact h.rest_le
  · rw [List.length_drop]
    omega

theorem readerOpen_iff (h : Headed header file) (live : Bool) :
    (∃ r, readerOpen sha256 header live false file = .ok r) ↔
      (ownerWalk sha256 header file).ending = .clean := by
  rw [← reader_clean_iff h live, h.readerOpen live]
  cases hending : (readerWalk sha256 live header file).ending with
  | clean | failed e => simp [Walk.result, hending, Except.map]
  | torn => exact absurd hending (reader_not_torn h live)

theorem readerOpen_file {live grown : Bool} {r : Reader} (hopen : readerOpen sha256 header live grown file = .ok r) :
    r.snapshot = file := by
  unfold readerOpen at hopen
  split at hopen
  next => cases hopen
  split at hopen
  next => cases hopen
  split at hopen
  next => cases hopen
  next =>
    cases hresult : (walk (readerFrame sha256 live) file.length (initial sha256 header) (file.drop headerSize)).result with
    | error e =>
        rw [hresult] at hopen
        cases hopen
    | ok w =>
        rw [hresult] at hopen
        cases hopen
        rfl

theorem scan_whole_iff (h : Headed header file) :
    (∃ w, scan sha256 header file = .ok w ∧ headerSize + w.used = file.length) ↔
      (ownerWalk sha256 header file).ending = .clean := by
  have hmin := h.atLeast
  rw [h.scan]
  constructor
  · rintro ⟨w, hok, hall⟩
    obtain ⟨rfl, hvalid⟩ := Walk.result_eq_ok.mp hok
    cases hending : (ownerWalk sha256 header file).ending with
    | clean => rfl
    | torn =>
        have hused := walk_torn scanFrame_local _ _ _ hending
        rw [List.length_drop] at hused
        simp only [ownerWalk] at hall
        omega
    | failed e => exact absurd hending (hvalid e)
  · intro hclean
    have hused := walk_clean scanFrame_local _ _ _ hclean
    rw [List.length_drop] at hused
    refine ⟨_, Walk.result_eq_ok.mpr ⟨rfl, by simp [hclean]⟩, ?_⟩
    simp only [ownerWalk]
    omega

theorem replay_agree {live : Bool} {r : Reader} (h : Headed header file)
    (hopen : readerOpen sha256 header live false file = .ok r) {j : Handle} (hj : j.header = header)
    (hlive : j.poisoned = false) {τ : Type} (visit : τ → Record → Except Win32Error τ) (context : τ) :
    readerReplay r visit context = journalReplay sha256 j file visit context := by
  have hclean := (readerOpen_iff h live).mp ⟨r, hopen⟩
  have hused : (ownerWalk sha256 header file).used = (file.drop headerSize).length :=
    walk_clean scanFrame_local _ _ _ hclean
  have hscan : Journal.scan sha256 header file = .ok (ownerWalk sha256 header file) := by
    rw [h.scan]
    exact Walk.result_eq_ok.mpr ⟨rfl, by simp [hclean]⟩
  simp only [readerReplay, readerOpen_file hopen, journalReplay, hlive, hj, hscan, hused, List.take_length]
  rfl

theorem repaired_headed (h : Headed header file) (n : Nat) : Headed header (file.take (headerSize + n)) where
  atLeast := by
    have hmin := h.atLeast
    rw [List.length_take]
    omega
  atMost := by
    have hmax := h.atMost
    rw [List.length_take]
    omega
  front := by
    rw [take_take_of_le _ (Nat.le_add_right _ _)]
    exact h.front

theorem reader_after_repair (h : Headed header file) {w : Walk Cursor Win32Error Record}
    (hscan : scan sha256 header file = .ok w) :
    ∃ r, readerOpen sha256 header false false (file.take (headerSize + w.used)) = .ok r ∧
      ∀ (τ : Type) (visit : τ → Record → Except Win32Error τ) context,
        readerReplay r visit context = w.items.foldlM visit context := by
  have h' := repaired_headed h w.used
  have hrest : (file.take (headerSize + w.used)).drop headerSize = (file.drop headerSize).take w.used := by
    rw [List.drop_take, Nat.add_sub_cancel_left]
  rw [h.scan] at hscan
  obtain ⟨hw, hending⟩ := Walk.result_eq_ok.mp hscan
  have hrepaired : walk (scanFrame sha256) file.length (initial sha256 header) ((file.drop headerSize).take w.used) =
      { w with ending := .clean } := by
    rw [← hw]
    exact walk_repaired scanFrame_local _ _ _ hending
  have hsame : ownerWalk sha256 header (file.take (headerSize + w.used)) = { w with ending := .clean } := by
    rw [← hrepaired, ownerWalk, hrest]
    apply walk_fuel scanFrame_local
    · rw [← hrest, List.length_drop]
      omega
    · rw [List.length_take, List.length_drop]
      omega
  have hclean := congrArg Walk.ending hsame
  obtain ⟨r, hr⟩ := (readerOpen_iff h' false).mpr hclean
  refine ⟨r, hr, ?_⟩
  intro τ visit context
  have hmeasured := (measured_clean _ _ _ hclean).trans (congrArg Walk.items hsame)
  rw [readerReplay, readerOpen_file hr, hmeasured]

theorem readerFrame_cut (live : Bool) {c : Cursor} {r : Record} (hr : Fits c r) {m : Nat}
    (hlt : m < frameSize + r.bytes.length + 4) :
    readerFrame sha256 live c ((recordFrame sha256 c r).take m) = .invalid (unfinished live) := by
  have htotal := @length_frameBytes sha256 c r.kind r.bytes
  have hcut : ((recordFrame sha256 c r).take m).length = m := by
    rw [List.length_take, recordFrame, htotal]
    omega
  unfold readerFrame
  simp only [hcut]
  split
  next => rfl
  next hlong =>
    have hframe : frameSize = 48 := rfl
    have hmax : maxRecord = 262144 := rfl
    have hrecord := hr.length
    obtain ⟨hlength, hfields⟩ := @cut_fields sha256 c r hr m (by omega)
    have hroom : dwordSub (dwordSub m frameSize) 4 < get32 (((recordFrame sha256 c r).take m).drop 4) := by
      rw [hlength, dwordSub_of_le (b := frameSize) (by omega) (by omega),
        dwordSub_of_le (by omega) (by omega)]
      omega
    rw [if_neg hfields, if_pos hroom]

theorem cut_pending (hheader : header.length = headerSize) {entries : List Entry} (hwithin : ∀ e ∈ entries, Within e)
    {e : Entry} {m : Nat} (hfits : Fits (cursorOf sha256 header entries) ⟨e.1, entries.length + 1, e.2⟩) (hpos : 0 < m)
    (hlt : m < entrySize e) (hmax : headerSize + (framesOf sha256 header entries).length + m ≤ journalLimit)
    (grown : Bool) : readerOpen sha256 header true grown (header ++ framesOf sha256 header entries ++
      (frameBytes sha256 (cursorOf sha256 header entries) e.1 e.2).take m) = .error .ioPending := by
  have hsize := @length_frame sha256 e (cursorOf sha256 header entries)
  generalize htail : (frameBytes sha256 (cursorOf sha256 header entries) e.1 e.2).take m = tail
  have htaillen : tail.length = m := by
    rw [← htail, List.length_take, hsize]
    omega
  have hnonempty : tail.isEmpty = false := by
    cases tail with
    | nil => exact absurd htaillen (Nat.ne_of_lt hpos)
    | cons => rfl
  have hlength : (header ++ framesOf sha256 header entries ++ tail).length =
      headerSize + (framesOf sha256 header entries).length + m := by
    rw [List.length_append, List.length_append, hheader, htaillen]
  have hback : (header ++ framesOf sha256 header entries ++ tail).drop headerSize =
      framesOf sha256 header entries ++ tail := by
    rw [List.append_assoc]
    exact List.drop_left' hheader
  have hheaded : Headed header (header ++ framesOf sha256 header entries ++ tail) := by
    refine ⟨by omega, by omega, ?_⟩
    rw [List.append_assoc]
    exact List.take_left' hheader
  have hscan := scan_entries hheader hwithin tail hheaded.atMost (.inr ⟨e, m, hfits, hpos, hlt, htail.symm⟩)
  rw [hheaded.scan, hnonempty] at hscan
  have howner := (Walk.result_eq_ok.mp hscan).1
  have hreader : (readerWalk sha256 true header (header ++ framesOf sha256 header entries ++ tail)).ending =
      .failed .ioPending := by
    have hlimit := limit_lt
    have hcount := @count_le sha256 header entries
    unfold ownerWalk at howner
    refine walk_agree_torn (scanFrame sha256) journalLimit ?_ _ _ _ ?_ ?_ ?_ ?_
    · intro c bs hbs r next size hitem
      exact (readerFrame_item (by omega)).mpr hitem
    · exact hheaded.rest_le
    · rw [howner]
      rfl
    · rw [howner, hback, List.drop_left, ← htail]
      exact readerFrame_cut true hfits hlt
    · rw [howner]
      simp only [numbered, List.length_mapIdx]
      omega
  cases grown with
  | true =>
      rw [readerOpen, if_neg hheaded.size]
      rfl
  | false =>
      rw [hheaded.readerOpen true, Walk.result, hreader]
      rfl

theorem live_pending (hheader : header.length = headerSize) {entries : List Entry} (hwithin : ∀ e ∈ entries, Within e)
    {e : Entry} (he : Within e) {m : Nat} (hpos : 0 < m) (hlt : m < entrySize e)
    (hsmall : headerSize + (framesOf sha256 header (entries ++ [e])).length ≤ journalLimit) (grown : Bool) :
    readerOpen sha256 header true grown (header ++ framesOf sha256 header entries ++
      (frameBytes sha256 (cursorOf sha256 header entries) e.1 e.2).take m) = .error .ioPending := by
  have hfits := @fits_of_within sha256 header entries e he (by omega)
  rw [framesOf_append, List.length_append, length_frame] at hsmall
  exact cut_pending hheader hwithin hfits hpos hlt (by omega) grown

theorem headed_file (hheader : header.length = headerSize) {s : Site} (h : Inv sha256 header s) : Headed header s.file := by
  obtain ⟨tail, hfile, -⟩ := h.file_recovered
  rw [List.append_assoc] at hfile
  exact ⟨by rw [hfile, List.length_append]; omega, h.length_le hheader, by rw [hfile]; exact List.take_left' hheader⟩

theorem reading (hheader : header.length = headerSize) {s : Site} (h : Inv sha256 header s) {r : Reader}
    (hr : readerOpen sha256 header true false s.file = .ok r) (τ : Type) (visit : τ → Record → Except Win32Error τ)
    (context : τ) : readerReplay r visit context = (numbered s.recovered).foldlM visit context := by
  obtain ⟨_, hscan⟩ := h.scan hheader
  have hmeasured := measured_scan hscan
  rw [replay_agree (j := opened sha256 header []) (headed_file hheader h) hr rfl rfl]
  simp only [journalReplay, opened, hscan, hmeasured]
  rfl

/-- The two parsers of a journal agree: on what they accept, on what they deliver, also
after a repair, and a live reader waits for a frame that is not all there. -/
theorem parsers_agree (sha256 : Bytes → Digest) (id : Guid) :
    (∀ file, file.length ≤ journalLimit → file.take headerSize = journalHeader id →
      ((∃ r, readerOpen sha256 (journalHeader id) false false file = .ok r) ↔
        ∃ w, scan sha256 (journalHeader id) file = .ok w ∧ headerSize + w.used = file.length) ∧
      (∀ r j, readerOpen sha256 (journalHeader id) false false file = .ok r → j.header = journalHeader id →
        j.poisoned = false → ∀ (τ : Type) (visit : τ → Record → Except Win32Error τ) context,
          readerReplay r visit context = journalReplay sha256 j file visit context) ∧
      (∀ w, scan sha256 (journalHeader id) file = .ok w →
        ∃ r, readerOpen sha256 (journalHeader id) false false (file.take (headerSize + w.used)) = .ok r ∧
          ∀ (τ : Type) (visit : τ → Record → Except Win32Error τ) context,
            readerReplay r visit context = w.items.foldlM visit context)) ∧
    (∀ entries e m grown, (∀ e' ∈ entries, Within e') → Within e → 0 < m → m < entrySize e →
      headerSize + (framesOf sha256 (journalHeader id) (entries ++ [e])).length ≤ journalLimit →
      readerOpen sha256 (journalHeader id) true grown
        (journalHeader id ++ framesOf sha256 (journalHeader id) entries ++
          (frameBytes sha256 (cursorOf sha256 (journalHeader id) entries) e.1 e.2).take m) =
        .error .ioPending) := by
  have hheader := length_journalHeader id
  refine ⟨?_, ?_⟩
  · intro file hmax hfront
    have hmin : headerSize ≤ file.length := by
      have hlength := congrArg List.length hfront
      rw [List.length_take, hheader] at hlength
      omega
    have h : Headed (journalHeader id) file := ⟨hmin, hmax, hfront⟩
    refine ⟨(readerOpen_iff h false).trans (scan_whole_iff h).symm, ?_, ?_⟩
    · intro r j hopen hj hlive τ visit context
      exact replay_agree h hopen hj hlive visit context
    · intro w hscan
      exact reader_after_repair h hscan
  · intro entries e m grown hwithin he hpos hlt hsmall
    exact live_pending hheader hwithin he hpos hlt hsmall grown

/-- A visitor of a later reading does first what it did in an earlier one, whatever happened between the two. -/
theorem readings_grow (sha256 : Bytes → Digest) (id : Guid) (before after : List Event) :
    let s := run (step sha256 (journalHeader id)) (fresh (journalHeader id)) before
    let t := run (step sha256 (journalHeader id)) s after
    ∃ more : List Record, ∀ r r', readerOpen sha256 (journalHeader id) true false s.file = .ok r →
      readerOpen sha256 (journalHeader id) true false t.file = .ok r' →
      ∀ (τ : Type) (visit : τ → Record → Except Win32Error τ) context,
        readerReplay r' visit context = readerReplay r visit context >>= fun seen => more.foldlM visit seen := by
  intro s t
  have hheader := length_journalHeader id
  have hs : Inv sha256 (journalHeader id) s := run_inv hheader before _ fresh_inv
  have ht : Inv sha256 (journalHeader id) t := run_inv hheader after s hs
  obtain ⟨rest, hrest⟩ := Records.turns_grow (Records.run_turns hheader after s hs)
  change s.recovered ++ rest = t.recovered at hrest
  refine ⟨rest.mapIdx fun i e => ⟨e.1, i + s.recovered.length + 1, e.2⟩, fun r r' hr hr' τ visit context => ?_⟩
  rw [reading hheader ht hr', reading hheader hs hr, ← List.foldlM_append, ← hrest, numbered, numbered,
    List.mapIdx_append]

set_option maxRecDepth 8000 in
theorem readings_grow_sample :
    let read := fun events => readerOpen noDigest (journalHeader someGuid) true false
      (run (step noDigest (journalHeader someGuid)) (fresh (journalHeader someGuid)) events).file
    ∃ r r' more, read [.reopen true] = .ok r ∧ read [.reopen true, .append 1 [7] none] = .ok r' ∧
      ∀ visit, readerReplay r' visit () = readerReplay r visit () >>= fun seen => List.foldlM visit seen more :=
  have ⟨more, h⟩ := readings_grow noDigest someGuid [.reopen true] [.append 1 [7] none]
  ⟨_, _, more, rfl, rfl, fun visit => h _ _ rfl rfl Unit visit ()⟩

end EtranProcessing.Deployment.JournalReader
