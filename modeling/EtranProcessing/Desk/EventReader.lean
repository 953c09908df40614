import EtranProcessing.Capture.IpcFraming

namespace EtranProcessing.Desk.EventReader

open Library.Buffers Capture.IpcProtocol Capture.IpcFraming

structure Event where
  type : UInt16
  payload : Bytes
  seq : UInt64
  deriving DecidableEq

def Event.frame (e : Event) : Bytes := header e.type e.payload.length e.seq ++ e.payload

def Event.WellFormed (e : Event) : Prop := e.payload.length ≤ ipcMaxPayload

instance (e : Event) : Decidable e.WellFormed := inferInstanceAs (Decidable (e.payload.length ≤ ipcMaxPayload))

def wire (events : List Event) : Bytes := events.flatMap Event.frame

/-- The ways in which a read ends: all but the last return false. -/
inductive Outcome where
  | nothing
  | full
  | short
  | oversized
  | wrongVersion
  | event (e : Event)
  deriving DecidableEq

def Outcome.event? : Outcome → Option Event
  | .event e => some e
  | _ => none

def Outcome.discards : Outcome → Bool
  | .full | .oversized | .wrongVersion => true
  | _ => false

structure Reader where
  readBuf : Bytes
  readBufUsed : Nat

structure Link where
  reader : Reader
  pipe : Bytes

def Reader.reset (r : Reader) : Reader := { r with readBufUsed := 0 }

def Reader.takeFrame (r : Reader) : Outcome × Reader :=
  if r.readBufUsed < ipcHeaderSize then (.short, r)
  else
    let payloadLen := (readU32 r.readBuf 4).toNat
    if ipcMaxPayload < payloadLen then (.oversized, r.reset)
    else
      let frameSize := ipcHeaderSize + payloadLen
      if r.readBufUsed < frameSize then (.short, r)
      else if readU16 r.readBuf 0 ≠ ipcVersion then (.wrongVersion, r.reset)
      else
        let remaining := r.readBufUsed - frameSize
        (.event ⟨readU16 r.readBuf 2, slice r.readBuf ipcHeaderSize payloadLen, readU64 r.readBuf 8⟩,
          ⟨overwrite r.readBuf 0 (slice r.readBuf frameSize remaining), remaining⟩)

/-- One call. A frame is looked for only behind a read that brought bytes. -/
def ipcTryRead (l : Link) : Outcome × Link :=
  let avail := l.pipe.length
  if avail = 0 then (.nothing, l)
  else
    let space := ipcMaxFrame - l.reader.readBufUsed
    if space = 0 then (.full, { l with reader := l.reader.reset })
    else
      let toRead := if avail < space then avail else space
      let reader : Reader :=
        ⟨overwrite l.reader.readBuf l.reader.readBufUsed (l.pipe.take toRead), l.reader.readBufUsed + toRead⟩
      (reader.takeFrame.1, ⟨reader.takeFrame.2, l.pipe.drop toRead⟩)

def launched : Link := ⟨⟨List.replicate ipcMaxFrame 0, 0⟩, []⟩

/-- Bytes become available, or the reader is called. -/
inductive Step where
  | arrive (bytes : Bytes)
  | call

def run : Link → List Step → List Outcome × Link
  | l, [] => ([], l)
  | l, .arrive bytes :: steps => run { l with pipe := l.pipe ++ bytes } steps
  | l, .call :: steps =>
      let after := run (ipcTryRead l).2 steps
      ((ipcTryRead l).1 :: after.1, after.2)

def written : List Step → Bytes
  | [] => []
  | .arrive bytes :: steps => bytes ++ written steps
  | .call :: steps => written steps

def drain : Nat → Link → Option (List Event × Link)
  | 0, _ => none
  | fuel + 1, l =>
      match (ipcTryRead l).1.event? with
      | none => some ([], (ipcTryRead l).2)
      | some e => (drain fuel (ipcTryRead l).2).map fun rest => (e :: rest.1, rest.2)

/-- What is asked of the reader in a run over the frames of some events. -/
structure Delivers (events : List Event) (steps : List Step) : Prop where
  ordered : (run launched steps).1.filterMap Outcome.event? <+: events
  kept : ∀ o ∈ (run launched steps).1, o.discards = false
  complete : written steps = wire events → ∃ fuel rest left, drain fuel (run launched steps).2 = some (rest, left) ∧
    (run launched steps).1.filterMap Outcome.event? ++ rest = events

/-- Whether some bytes of the last frame are still in the pipe once the frames
before it have been returned: every call but the last fills the buffer. -/
def Timely (pipe : Bytes) : List Event → Prop
  | [] => True
  | [_] => pipe ≠ []
  | [e, f] => ipcMaxFrame < e.frame.length + f.frame.length
  | _ :: e :: f :: events => Timely pipe (e :: f :: events)

def Reader.held (r : Reader) : Bytes := slice r.readBuf 0 r.readBufUsed

def Link.Timely (l : Link) : Prop :=
  ∃ left : List Event, (∀ e ∈ left, e.WellFormed) ∧ l.reader.held ++ l.pipe = wire left ∧ EventReader.Timely l.pipe left

section Frames

variable {e f : Event} {events : List Event} {more rest : Bytes}

@[simp] theorem wire_nil : wire [] = [] := rfl

@[simp] theorem wire_cons (e : Event) (events : List Event) : wire (e :: events) = e.frame ++ wire events := rfl

theorem length_frame (e : Event) : e.frame.length = ipcHeaderSize + e.payload.length := by
  rw [Event.frame, List.length_append, length_header]

theorem frame_bounds (h : e.WellFormed) :
    0 < e.frame.length ∧ ipcHeaderSize ≤ e.frame.length ∧ e.frame.length ≤ ipcMaxFrame := by
  have hlength := length_frame e
  unfold Event.WellFormed ipcMaxPayload at h
  unfold ipcHeaderSize ipcMaxFrame ipcHeaderSize ipcMaxPayload at *
  omega

theorem frame_read (h : e.WellFormed) (more : Bytes) :
    readU16 (e.frame ++ more) 0 = ipcVersion ∧ readU16 (e.frame ++ more) 2 = e.type ∧
      (readU32 (e.frame ++ more) 4).toNat = e.payload.length ∧ readU64 (e.frame ++ more) 8 = e.seq := by
  have hlt : e.payload.length < 2 ^ 32 := Nat.lt_of_le_of_lt h (by decide)
  rw [Event.frame, List.append_assoc]
  exact header_read e.type e.seq hlt (e.payload ++ more)

theorem slice_frame (e : Event) (more : Bytes) : slice (e.frame ++ more) ipcHeaderSize e.payload.length = e.payload := by
  rw [Event.frame, List.append_assoc, slice, List.drop_left' (length_header _ _ _), List.take_left]

theorem frame_inj (he : e.WellFormed) (hf : f.WellFormed) (h : e.frame ++ more = f.frame ++ rest) : e = f ∧ more = rest := by
  obtain ⟨-, htype, hlength, hseq⟩ := frame_read he more
  obtain ⟨-, htype', hlength', hseq'⟩ := frame_read hf rest
  have hpayload := slice_frame e more
  have hpayload' := slice_frame f rest
  rw [h] at htype hlength hseq hpayload
  have hlengths : e.payload.length = f.payload.length := hlength.symm.trans hlength'
  rw [hlengths, hpayload'] at hpayload
  have heq : e = f := by
    obtain ⟨type, payload, seq⟩ := e
    obtain ⟨type', payload', seq'⟩ := f
    exact Event.mk.injEq .. |>.mpr ⟨htype.symm.trans htype', hpayload.symm, hseq.symm.trans hseq'⟩
  exact ⟨heq, List.append_cancel_left (heq ▸ h)⟩

theorem frame_ne_nil (he : e.WellFormed) : e.frame ≠ [] :=
  List.length_pos_iff.mp (frame_bounds he).1

theorem wire_inj {left : List Event} (h : ∀ e ∈ events, e.WellFormed) (hleft : ∀ e ∈ left, e.WellFormed)
    (heq : wire events = wire left) : events = left := by
  induction events generalizing left with
  | nil =>
      cases left with
      | nil => rfl
      | cons f left =>
          have hnil := (List.append_eq_nil_iff.mp heq.symm).1
          exact absurd hnil (frame_ne_nil (hleft f List.mem_cons_self))
  | cons e events ih =>
      cases left with
      | nil => exact absurd (List.append_eq_nil_iff.mp heq).1 (frame_ne_nil (h e List.mem_cons_self))
      | cons f left =>
          obtain ⟨rfl, hrest⟩ := frame_inj (h e List.mem_cons_self) (hleft f List.mem_cons_self) heq
          rw [ih (fun e he => h e (List.mem_cons_of_mem _ he)) (fun e he => hleft e (List.mem_cons_of_mem _ he)) hrest]

end Frames

section Reads

variable {r : Reader} {l : Link} {e : Event} {events : List Event} {more rest : Bytes}

theorem length_held (hsize : r.readBuf.length = ipcMaxFrame) (hused : r.readBufUsed ≤ ipcMaxFrame) :
    r.held.length = r.readBufUsed :=
  length_slice (by omega)

theorem held_read (he : e.WellFormed) (hsize : r.readBuf.length = ipcMaxFrame) (hused : r.readBufUsed ≤ ipcMaxFrame)
    (hlong : ipcHeaderSize ≤ r.readBufUsed) (hstream : r.held ++ rest = e.frame ++ more) :
    readU16 r.readBuf 0 = ipcVersion ∧ readU16 r.readBuf 2 = e.type ∧
      (readU32 r.readBuf 4).toNat = e.payload.length ∧ readU64 r.readBuf 8 = e.seq := by
  have hlength := length_held hsize hused
  unfold ipcHeaderSize at hlong
  have hslice : ∀ offset size, offset + size ≤ 16 → slice r.readBuf offset size = slice (e.frame ++ more) offset size := by
    intro offset size hin
    rw [← hstream, slice_append (by omega), Reader.held, slice_front (by omega)]
  have hread := frame_read he more
  simp only [readU16, readU32, readU64] at hread ⊢
  rw [hslice 0 2 (by omega), hslice 2 2 (by omega), hslice 4 4 (by omega), hslice 8 8 (by omega)]
  exact hread

theorem takeFrame_whole (he : e.WellFormed) (hsize : r.readBuf.length = ipcMaxFrame) (hused : r.readBufUsed ≤ ipcMaxFrame)
    (hlong : e.frame.length ≤ r.readBufUsed) (hstream : r.held ++ rest = e.frame ++ more) :
    r.takeFrame.1 = .event e ∧ r.takeFrame.2.readBuf.length = ipcMaxFrame ∧
      r.takeFrame.2.readBufUsed = r.readBufUsed - e.frame.length ∧ r.takeFrame.2.held ++ rest = more := by
  have hlength := length_held hsize hused
  have hframe := length_frame e
  have hheader : ipcHeaderSize ≤ r.readBufUsed := by omega
  obtain ⟨hversion, htype, hpayload, hseq⟩ := held_read he hsize hused hheader hstream
  have hfits : ¬ipcMaxPayload < e.payload.length := Nat.not_lt.mpr he
  have hbytes : slice r.readBuf ipcHeaderSize e.payload.length = e.payload := by
    have hfront : slice r.readBuf ipcHeaderSize e.payload.length = slice (r.held ++ rest) ipcHeaderSize e.payload.length := by
      rw [slice_append (by omega), Reader.held, slice_front (by omega)]
    rw [hfront, hstream, slice_frame]
  have hrest : slice r.readBuf e.frame.length (r.readBufUsed - e.frame.length) = r.held.drop e.frame.length := by
    rw [Reader.held, slice_zero, List.drop_take, slice]
  have htake : r.takeFrame =
      (.event e, ⟨overwrite r.readBuf 0 (r.held.drop e.frame.length), r.readBufUsed - e.frame.length⟩) := by
    simp only [Reader.takeFrame, hpayload, hversion, htype, hseq, hbytes, ← hframe, hrest, ne_eq, not_true_eq_false, if_false,
      if_neg hfits, if_neg (Nat.not_lt.mpr hheader), if_neg (Nat.not_lt.mpr hlong)]
  have hdrop : (r.held.drop e.frame.length).length = r.readBufUsed - e.frame.length := by
    rw [List.length_drop, hlength]
  rw [htake]
  refine ⟨rfl, ?_, rfl, ?_⟩
  · change (overwrite r.readBuf 0 _).length = _
    rw [length_overwrite (by omega), hsize]
  · change slice (overwrite r.readBuf 0 _) 0 _ ++ rest = more
    rw [← hdrop, slice_overwrite_self (Nat.zero_le _), ← List.drop_append_of_le_length (by omega), hstream, List.drop_left]

theorem takeFrame_short (he : e.WellFormed) (hsize : r.readBuf.length = ipcMaxFrame) (hused : r.readBufUsed ≤ ipcMaxFrame)
    (hshort : r.readBufUsed < e.frame.length) (hstream : r.held ++ rest = e.frame ++ more) : r.takeFrame = (.short, r) := by
  by_cases hheader : r.readBufUsed < ipcHeaderSize
  · rw [Reader.takeFrame, if_pos hheader]
  · obtain ⟨-, -, hpayload, -⟩ := held_read he hsize hused (Nat.not_lt.mp hheader) hstream
    have hfits : ¬ipcMaxPayload < e.payload.length := Nat.not_lt.mpr he
    rw [length_frame] at hshort
    simp only [Reader.takeFrame, hpayload, if_neg hheader, if_neg hfits, if_pos hshort]

/-- What the reader holds, the pipe and what is still to be written are the
frames of some events, and there is room for a byte. -/
structure Owes (l : Link) (events : List Event) (more : Bytes) : Prop where
  size : l.reader.readBuf.length = ipcMaxFrame
  room : l.reader.readBufUsed < ipcMaxFrame
  stream : l.reader.held ++ (l.pipe ++ more) = wire events
  valid : ∀ e ∈ events, e.WellFormed

theorem owes_launched (hvalid : ∀ e ∈ events, e.WellFormed) : Owes launched events (wire events) where
  size := List.length_replicate
  room := by decide
  stream := rfl
  valid := hvalid

theorem Owes.arrive {bytes : Bytes} (h : Owes l events (bytes ++ more)) :
    Owes { l with pipe := l.pipe ++ bytes } events more where
  size := h.size
  room := h.room
  stream := by rw [List.append_assoc]; exact h.stream
  valid := h.valid

def Link.toRead (l : Link) : Nat :=
  if l.pipe.length < ipcMaxFrame - l.reader.readBufUsed then l.pipe.length else ipcMaxFrame - l.reader.readBufUsed

def Link.filled (l : Link) : Reader :=
  ⟨overwrite l.reader.readBuf l.reader.readBufUsed (l.pipe.take l.toRead), l.reader.readBufUsed + l.toRead⟩

theorem ipcTryRead_empty (h : l.pipe = []) : ipcTryRead l = (.nothing, l) := by
  rw [ipcTryRead, h]
  rfl

theorem ipcTryRead_filled (hroom : l.reader.readBufUsed < ipcMaxFrame) (h : l.pipe ≠ []) :
    ipcTryRead l = (l.filled.takeFrame.1, ⟨l.filled.takeFrame.2, l.pipe.drop l.toRead⟩) := by
  have hsome : ¬l.pipe.length = 0 := fun hnil => h (List.length_eq_zero_iff.mp hnil)
  have hspace : ¬ipcMaxFrame - l.reader.readBufUsed = 0 := by omega
  rw [ipcTryRead]
  simp only [if_neg hsome, if_neg hspace, Link.filled, Link.toRead]

theorem Owes.filled (h : Owes l events more) : l.filled.readBuf.length = ipcMaxFrame ∧ l.filled.readBufUsed ≤ ipcMaxFrame ∧
    l.filled.held ++ (l.pipe.drop l.toRead ++ more) = wire events := by
  have hroom := h.room
  have hread : l.toRead ≤ l.pipe.length ∧ l.reader.readBufUsed + l.toRead ≤ ipcMaxFrame := by
    unfold Link.toRead
    split <;> omega
  have htake : (l.pipe.take l.toRead).length = l.toRead := by rw [List.length_take]; omega
  have hsize := h.size
  refine ⟨?_, hread.2, ?_⟩
  · change (overwrite _ _ _).length = _
    rw [length_overwrite (by omega), hsize]
  · have hheld : l.filled.held = l.reader.held ++ l.pipe.take l.toRead := by
      have hfront := @slice_overwrite_front _ l.reader.readBuf (l.pipe.take l.toRead) l.reader.readBufUsed (by omega)
      rw [htake] at hfront
      exact hfront
    rw [hheld, List.append_assoc, ← List.append_assoc (l.pipe.take _), List.take_append_drop, h.stream]

theorem Owes.read (h : Owes l events more) (hpipe : l.pipe ≠ []) :
    ∃ e rest, events = e :: rest ∧
      (((ipcTryRead l).1 = .event e ∧ Owes (ipcTryRead l).2 rest more ∧ (ipcTryRead l).2.pipe = l.pipe.drop l.toRead ∧
          e.frame.length ≤ l.reader.readBufUsed + l.toRead) ∨
        ((ipcTryRead l).1 = .short ∧ Owes (ipcTryRead l).2 events more ∧ (ipcTryRead l).2.pipe = [] ∧
          l.reader.readBufUsed + l.pipe.length < e.frame.length)) := by
  obtain ⟨hsize, hused, hstream⟩ := h.filled
  have hread := ipcTryRead_filled h.room hpipe
  have hroom := h.room
  cases events with
  | nil =>
      have hnil := h.stream
      rw [wire_nil, List.append_eq_nil_iff, List.append_eq_nil_iff] at hnil
      exact absurd hnil.2.1 hpipe
  | cons e rest =>
      have he := h.valid e List.mem_cons_self
      have hbounds := frame_bounds he
      refine ⟨e, rest, rfl, ?_⟩
      by_cases hwhole : e.frame.length ≤ l.filled.readBufUsed
      · obtain ⟨hevent, hsize', hused', hstream'⟩ := takeFrame_whole he hsize hused hwhole hstream
        rw [hread]
        refine .inl ⟨hevent, ⟨hsize', ?_, hstream', fun f hf => h.valid f (List.mem_cons_of_mem _ hf)⟩, rfl, hwhole⟩
        change l.filled.takeFrame.2.readBufUsed < ipcMaxFrame
        omega
      · have hshort := takeFrame_short he hsize hused (Nat.not_le.mp hwhole) hstream
        -- the buffer was not filled, so the pipe was emptied
        have hall : l.toRead = l.pipe.length := by
          change ¬e.frame.length ≤ l.reader.readBufUsed + l.toRead at hwhole
          unfold Link.toRead at hwhole ⊢
          split at hwhole <;> split <;> omega
        have hlt : l.reader.readBufUsed + l.pipe.length < e.frame.length := by
          rw [← hall]
          exact Nat.not_le.mp hwhole
        rw [hread, hshort]
        refine .inr ⟨rfl, ⟨hsize, ?_, hstream, h.valid⟩, ?_, hlt⟩
        · exact Nat.lt_of_lt_of_le (Nat.not_le.mp hwhole) hbounds.2.2
        · exact List.drop_eq_nil_of_le (Nat.le_of_eq hall.symm)

end Reads

section Runs

variable {l : Link} {events : List Event} {more : Bytes} {steps : List Step}

theorem Owes.run (h : Owes l events (written steps ++ more)) : ∃ rest,
    events = (run l steps).1.filterMap Outcome.event? ++ rest ∧ Owes (run l steps).2 rest more ∧
      ∀ o ∈ (run l steps).1, o.discards = false := by
  induction steps generalizing l events with
  | nil => exact ⟨events, rfl, h, fun o ho => absurd ho List.not_mem_nil⟩
  | cons step steps ih =>
      cases step with
      | arrive bytes =>
          rw [written, List.append_assoc] at h
          exact ih h.arrive
      | call =>
          rw [written] at h
          simp only [EventReader.run]
          by_cases hpipe : l.pipe = []
          · rw [ipcTryRead_empty hpipe]
            obtain ⟨rest, hevents, howes, hkept⟩ := ih h
            exact ⟨rest, hevents, howes, List.forall_mem_cons.mpr ⟨rfl, hkept⟩⟩
          · obtain ⟨e, later, rfl, ⟨hevent, hafter, -, -⟩ | ⟨hshort, hafter, -, -⟩⟩ := h.read hpipe
            · obtain ⟨rest, hevents, howes, hkept⟩ := ih hafter
              rw [hevent, hevents]
              refine ⟨rest, rfl, howes, List.forall_mem_cons.mpr ⟨rfl, hkept⟩⟩
            · obtain ⟨rest, hevents, howes, hkept⟩ := ih hafter
              rw [hshort]
              exact ⟨rest, hevents, howes, List.forall_mem_cons.mpr ⟨rfl, hkept⟩⟩

theorem Owes.lengths (h : Owes l events []) : l.reader.readBufUsed + l.pipe.length = (wire events).length := by
  rw [← h.stream, List.append_nil, List.length_append, length_held h.size (Nat.le_of_lt h.room)]

theorem pipe_left {e f : Event} (h : Owes l [e, f] []) :
    l.pipe.drop l.toRead ≠ [] ↔ ipcMaxFrame < e.frame.length + f.frame.length := by
  have hlengths := h.lengths
  have hroom := h.room
  have hwire : (wire [e, f]).length = e.frame.length + f.frame.length := by simp
  rw [hwire] at hlengths
  rw [← List.length_pos_iff, List.length_drop, Link.toRead, ← hlengths]
  split <;> omega

theorem timely_two (e f : Event) (events : List Event) (pipe pipe' : Bytes) :
    Timely pipe (e :: f :: events) ↔ Timely pipe' (e :: f :: events) := by
  induction events generalizing e f with
  | nil => exact Iff.rfl
  | cons g events ih => exact ih f g

theorem timely_long {e : Event} (h : Timely [] (e :: events)) : ipcMaxFrame < (wire (e :: events)).length := by
  induction events generalizing e with
  | nil => exact absurd rfl h
  | cons f events ih =>
      cases events with
      | nil =>
          have hsizes : ipcMaxFrame < e.frame.length + f.frame.length := h
          simpa using hsizes
      | cons g events =>
          have hrest := ih h
          rw [wire_cons, List.length_append]
          omega

theorem Owes.untimely {e : Event} (h : Owes l (e :: events) []) (hpipe : l.pipe = []) : ¬Timely l.pipe (e :: events) := by
  intro htimely
  have hlengths := h.lengths
  have hroom := h.room
  rw [hpipe] at htimely hlengths
  have hlong := timely_long htimely
  rw [List.length_nil] at hlengths
  omega

theorem Owes.drain (h : Owes l events []) : ∃ fuel rest left, drain fuel l = some (rest, left) ∧ rest <+: events ∧
    (rest = events ↔ Timely l.pipe events) := by
  induction events generalizing l with
  | nil =>
      have hpipe : l.pipe = [] := by
        have hnil := h.stream
        rw [wire_nil, List.append_eq_nil_iff, List.append_eq_nil_iff] at hnil
        exact hnil.2.1
      refine ⟨1, [], l, ?_, List.nil_prefix, iff_of_true rfl trivial⟩
      rw [EventReader.drain, ipcTryRead_empty hpipe]
      rfl
  | cons e events ih =>
      by_cases hpipe : l.pipe = []
      · refine ⟨1, [], l, ?_, List.nil_prefix, iff_of_false (List.cons_ne_nil _ _).symm (h.untimely hpipe)⟩
        rw [EventReader.drain, ipcTryRead_empty hpipe]
        rfl
      · obtain ⟨e', later, heq, ⟨hevent, hafter, hdrop, -⟩ | ⟨-, -, -, hlong⟩⟩ := h.read hpipe
        · obtain ⟨rfl, rfl⟩ := List.cons.inj heq
          obtain ⟨fuel, rest, left, hdrain, hleading, hall⟩ := ih hafter
          refine ⟨fuel + 1, e :: rest, left, ?_, (List.prefix_cons_inj e).mpr hleading, ?_⟩
          · simp only [EventReader.drain, hevent, Outcome.event?, hdrain, Option.map_some]
          · rw [List.cons.injEq, and_iff_right rfl, hall, hdrop]
            match events, h with
            | [], h => exact iff_of_true trivial hpipe
            | [f], h => exact pipe_left h
            | f :: g :: events, _ => exact timely_two f g events _ _
        · obtain ⟨rfl, rfl⟩ := List.cons.inj heq
          have hlengths := h.lengths
          rw [wire_cons, List.length_append] at hlengths
          omega

theorem drain_eq {n m : Nat} {first second : List Event × Link} (hn : EventReader.drain n l = some first)
    (hm : EventReader.drain m l = some second) : first = second := by
  induction n generalizing m l first second with
  | zero => exact absurd hn (by simp [EventReader.drain])
  | succ n ih =>
      cases m with
      | zero => exact absurd hm (by simp [EventReader.drain])
      | succ m =>
          simp only [EventReader.drain] at hn hm
          cases hevent : (ipcTryRead l).1.event? with
          | none =>
              rw [hevent] at hn hm
              exact Option.some.inj (hn.symm.trans hm)
          | some e =>
              simp only [hevent, Option.map_eq_some_iff] at hn hm
              obtain ⟨rest, hrest, rfl⟩ := hn
              obtain ⟨rest', hrest', rfl⟩ := hm
              rw [ih hrest hrest']

theorem Owes.timely_iff (h : Owes l events []) : l.Timely ↔ Timely l.pipe events := by
  have hstream := h.stream
  rw [List.append_nil] at hstream
  constructor
  · rintro ⟨left, hvalid, hwire, htimely⟩
    rwa [wire_inj h.valid hvalid (hstream.symm.trans hwire)]
  · exact fun htimely => ⟨events, h.valid, hstream, htimely⟩

theorem Delivers.timely (h : Delivers events steps) (hvalid : ∀ e ∈ events, e.WellFormed)
    (hall : written steps = wire events) : (EventReader.run launched steps).2.Timely := by
  have hstart := owes_launched hvalid
  rw [← hall, ← List.append_nil (written steps)] at hstart
  obtain ⟨rest, hevents, howes, -⟩ := hstart.run
  obtain ⟨fuel, returned, left, hdrain, hreturned⟩ := h.complete hall
  obtain ⟨fuel', returned', left', hdrain', -, htimely⟩ := howes.drain
  obtain ⟨rfl, -⟩ := Prod.mk.inj (drain_eq hdrain hdrain')
  rw [howes.timely_iff, ← htimely]
  exact List.append_cancel_left (hreturned.trans hevents)

/-- A run returns its events in their order and drops nothing, and it returns
all of them when all bytes are written exactly if the last frame is in time. -/
theorem events_delivered (hvalid : ∀ e ∈ events, e.WellFormed) (hwritten : written steps <+: wire events) :
    Delivers events steps ↔ (written steps = wire events → (EventReader.run launched steps).2.Timely) := by
  refine ⟨fun h => h.timely hvalid, fun h => ?_⟩
  obtain ⟨more, hmore⟩ := hwritten
  have hstart := owes_launched hvalid
  rw [← hmore] at hstart
  obtain ⟨rest, hevents, howes, hkept⟩ := hstart.run
  refine ⟨⟨rest, hevents.symm⟩, hkept, fun hall => ?_⟩
  obtain rfl : more = [] := List.append_cancel_left (hmore.trans (hall.symm.trans (List.append_nil _).symm))
  obtain ⟨fuel, returned, left, hdrain, -, htimely⟩ := howes.drain
  refine ⟨fuel, returned, left, hdrain, ?_⟩
  rw [htimely.mpr (howes.timely_iff.mp (h hall)), ← hevents]

end Runs

section Handshake

def ready : Event := ⟨eventReady, List.replicate 30 0, 1⟩

def metrics : Event := ⟨eventMetrics, List.replicate 30 0, 2⟩

theorem handshake_wellFormed : ∀ e ∈ [ready, metrics], e.WellFormed :=
  List.forall_mem_cons.mpr ⟨by decide, List.forall_mem_singleton.mpr (by decide)⟩

theorem event_delivered_alone : Delivers [ready] [.arrive ready.frame] := by
  have hvalid : ∀ e ∈ [ready], e.WellFormed := List.forall_mem_singleton.mpr (by decide)
  refine (events_delivered hvalid ⟨[], by simp [written]⟩).mpr fun _ => ⟨[ready], hvalid, rfl, ?_⟩
  exact frame_ne_nil (handshake_wellFormed ready List.mem_cons_self)

/-- Two events that arrive together: the second waits for a third. -/
theorem event_held_back : ¬Delivers [ready, metrics] [.arrive (wire [ready, metrics])] := by
  intro h
  have hall : written [.arrive (wire [ready, metrics])] = wire [ready, metrics] := List.append_nil _
  have hstart := owes_launched handshake_wellFormed
  rw [← List.append_nil (wire [ready, metrics])] at hstart
  have hshort : ipcMaxFrame < ready.frame.length + metrics.frame.length :=
    hstart.arrive.timely_iff.mp (h.timely handshake_wellFormed hall)
  exact absurd hshort (by decide)

end Handshake

end EtranProcessing.Desk.EventReader
