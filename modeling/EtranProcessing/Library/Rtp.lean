import Mathlib

namespace EtranProcessing.Library.Rtp

section Headers

structure Header where
  marker : Bool
  payloadType : UInt8
  sequence : UInt16
  timestamp : UInt32
  ssrc : UInt32
  deriving DecidableEq, Repr

def Header.bytes (h : Header) : List UInt8 :=
  [0x80, (if h.marker then 0x80 else 0x00) ||| (h.payloadType &&& 0x7F),
    (h.sequence >>> 8).toUInt8, h.sequence.toUInt8,
    (h.timestamp >>> 24).toUInt8, (h.timestamp >>> 16).toUInt8, (h.timestamp >>> 8).toUInt8, h.timestamp.toUInt8,
    (h.ssrc >>> 24).toUInt8, (h.ssrc >>> 16).toUInt8, (h.ssrc >>> 8).toUInt8, h.ssrc.toUInt8]

def ofBytes16 (a b : UInt8) : UInt16 := UInt16.ofNat (a.toNat * 256 + b.toNat)

def ofBytes32 (a b c d : UInt8) : UInt32 :=
  UInt32.ofNat (((a.toNat * 256 + b.toNat) * 256 + c.toNat) * 256 + d.toNat)

def parse : List UInt8 → Option (Header × List UInt8)
  | b0 :: b1 :: b2 :: b3 :: b4 :: b5 :: b6 :: b7 :: b8 :: b9 :: b10 :: b11 :: payload =>
      if b0 = 0x80 then
        some (⟨decide (b1 &&& 0x80 ≠ 0), b1 &&& 0x7F, ofBytes16 b2 b3, ofBytes32 b4 b5 b6 b7, ofBytes32 b8 b9 b10 b11⟩, payload)
      else none
  | _ => none

theorem ofBytes16_bytes (s : UInt16) : ofBytes16 (s >>> 8).toUInt8 s.toUInt8 = s := by
  apply UInt16.toNat_inj.mp
  have := s.toNat_lt
  simp [ofBytes16, Nat.shiftRight_eq_div_pow]
  omega

theorem ofBytes32_bytes (s : UInt32) :
    ofBytes32 (s >>> 24).toUInt8 (s >>> 16).toUInt8 (s >>> 8).toUInt8 s.toUInt8 = s := by
  apply UInt32.toNat_inj.mp
  have := s.toNat_lt
  simp [ofBytes32, Nat.shiftRight_eq_div_pow]
  omega

theorem markerBits (marker : Bool) (pt : UInt8) :
    decide (((if marker then 0x80 else 0x00) ||| (pt &&& 0x7F)) &&& 0x80 ≠ 0) = marker ∧
    ((if marker then 0x80 else 0x00) ||| (pt &&& 0x7F)) &&& 0x7F = pt &&& 0x7F := by
  obtain ⟨pt⟩ := pt
  revert pt marker
  decide +kernel

theorem markerBit (marker : Bool) (pt : UInt8) :
    decide (((if marker then 0x80 else 0x00) ||| (pt &&& 0x7F)) &&& 0x80 ≠ 0) = marker := (markerBits marker pt).1

theorem payloadTypeBits (marker : Bool) (pt : UInt8) :
    ((if marker then 0x80 else 0x00) ||| (pt &&& 0x7F)) &&& 0x7F = pt &&& 0x7F := (markerBits marker pt).2

theorem parse_bytes (h : Header) (payload : List UInt8) :
    parse (h.bytes ++ payload) = some ({ h with payloadType := h.payloadType &&& 0x7F }, payload) := by
  change (if (0x80 : UInt8) = 0x80 then some _ else none) = _
  rw [if_pos rfl, markerBit, payloadTypeBits, ofBytes16_bytes, ofBytes32_bytes, ofBytes32_bytes]
  rfl

def consecutive (first : UInt16) : Nat → List UInt16
  | 0 => []
  | n + 1 => first :: consecutive (first + 1) n

def MarkedLast : List Bool → Prop
  | [] => True
  | [marker] => marker = true
  | marker :: markers => marker = false ∧ MarkedLast markers

theorem markedLast_append {markers rest : List Bool} (hrest : rest ≠ []) (h : ∀ marker ∈ markers, marker = false) :
    MarkedLast (markers ++ rest) ↔ MarkedLast rest := by
  induction markers with
  | nil => rfl
  | cons marker markers ih =>
      have hcons : MarkedLast (marker :: (markers ++ rest)) ↔ marker = false ∧ MarkedLast (markers ++ rest) := by
        cases htail : markers ++ rest with
        | nil => exact absurd (List.append_eq_nil_iff.mp htail).2 hrest
        | cons => rfl
      rw [List.cons_append, hcons, ih fun m hm => h m (List.mem_cons_of_mem _ hm)]
      simp [h marker List.mem_cons_self]

theorem markedLast_unmarked {markers : List Bool} (h : ∀ marker ∈ markers, marker = false) :
    MarkedLast markers ↔ markers = [] := by
  induction markers with
  | nil => simp [MarkedLast]
  | cons marker markers ih =>
      cases markers with
      | nil => simp [MarkedLast, h marker List.mem_cons_self]
      | cons => simp [MarkedLast, ih fun m hm => h m (List.mem_cons_of_mem _ hm)]

end Headers

section Depacketization

abbrev Nal := List UInt8

def nalType (header : UInt8) : UInt8 := header &&& 0x1F

/-- The NAL units of an aggregation packet, each after its length in two bytes. -/
def units : List UInt8 → Option (List Nal)
  | [] => some []
  | [_] => none
  | high :: low :: rest =>
      if high.toNat * 256 + low.toNat = 0 ∨ rest.length < high.toNat * 256 + low.toNat then none
      else (units (rest.drop (high.toNat * 256 + low.toNat))).map (rest.take (high.toNat * 256 + low.toNat) :: ·)
  termination_by bytes => bytes.length
  decreasing_by simp only [List.length_drop, List.length_cons]; omega

/-- A fragment opens a NAL unit, goes on with the open one or closes it. -/
def receiveFragment (opened : Option Nal) (header : UInt8) : List UInt8 → Option (List Nal × Option Nal)
  | [] => none
  | fu :: data =>
      if fu &&& 0x80 ≠ 0 then
        if fu &&& 0x40 ≠ 0 ∨ opened ≠ none then none
        else some ([], some ((header &&& 0xE0 ||| nalType fu) :: data))
      else opened.map fun nal => if fu &&& 0x40 ≠ 0 then ([nal ++ data], none) else ([], some (nal ++ data))

/-- One payload, received with or without an open fragmented NAL unit. -/
def receive (opened : Option Nal) : List UInt8 → Option (List Nal × Option Nal)
  | [] => none
  | header :: body =>
      if 1 ≤ nalType header ∧ nalType header ≤ 23 then
        if opened = none then some ([header :: body], none) else none
      else if nalType header = 24 then
        if opened = none ∧ body ≠ [] then (units body).map fun nals => (nals, none) else none
      else if nalType header = 28 then receiveFragment opened header body
      else none

def deliver : Option Nal → List (List UInt8) → Option (List Nal)
  | opened, [] => if opened = none then some [] else none
  | opened, payload :: payloads =>
      (receive opened payload).bind fun (nals, opened) => (deliver opened payloads).map (nals ++ ·)

/-- What one packet carries. -/
inductive Content
  | single (nal : Nal)
  | aggregate (nals : List Nal)
  | fragment (first last : Bool) (header : UInt8) (data : List UInt8)
  deriving DecidableEq, Repr

def unit (nal : Nal) : List UInt8 := UInt8.ofNat (nal.length / 256) :: UInt8.ofNat nal.length :: nal

def fuIndicator (header : UInt8) : UInt8 := (header &&& 0xE0) ||| 28

def fuHeader (first last : Bool) (header : UInt8) : UInt8 :=
  (header &&& 0x1F) ||| (if first then 0x80 else 0) ||| (if last then 0x40 else 0)

def Content.bytes : Content → List UInt8
  | .single nal => nal
  | .aggregate nals => 0x78 :: nals.flatMap unit
  | .fragment first last header data => fuIndicator header :: fuHeader first last header :: data

theorem units_unit {nal : Nal} (hpos : nal ≠ []) (hsize : nal.length < 65536) (rest : List UInt8) :
    units (unit nal ++ rest) = (units rest).map (nal :: ·) := by
  have hlength : (UInt8.ofNat (nal.length / 256)).toNat * 256 + (UInt8.ofNat nal.length).toNat = nal.length := by
    simp
    omega
  have hne : nal.length ≠ 0 := by simpa using hpos
  unfold unit
  rw [List.cons_append, List.cons_append, units, hlength, if_neg (by rw [List.length_append]; omega), List.drop_left, List.take_left]

theorem units_flatMap {nals : List Nal} (h : ∀ nal ∈ nals, nal ≠ [] ∧ nal.length < 65536) :
    units (nals.flatMap unit) = some nals := by
  induction nals with
  | nil => rw [List.flatMap_nil, units]
  | cons nal nals ih =>
      have hnal := h nal List.mem_cons_self
      rw [List.flatMap_cons, units_unit hnal.1 hnal.2, ih fun n hn => h n (List.mem_cons_of_mem _ hn)]
      rfl

theorem deliver_single {nal : Nal} {header : UInt8} (hhead : nal.head? = some header)
    (htype : 1 ≤ nalType header ∧ nalType header ≤ 23) (payloads : List (List UInt8)) :
    deliver none (nal :: payloads) = (deliver none payloads).map (nal :: ·) := by
  cases nal with
  | nil => cases hhead
  | cons =>
      cases hhead
      rw [deliver, receive, if_pos htype, if_pos rfl]
      rfl

theorem deliver_aggregate {nals : List Nal} (hne : nals ≠ []) (h : ∀ nal ∈ nals, nal ≠ [] ∧ nal.length < 65536)
    (payloads : List (List UInt8)) :
    deliver none ((Content.aggregate nals).bytes :: payloads) = (deliver none payloads).map (nals ++ ·) := by
  have hbody : nals.flatMap unit ≠ [] := by
    cases nals with
    | nil => exact absurd rfl hne
    | cons => simp [unit]
  rw [Content.bytes, deliver, receive, if_neg (by decide), if_pos (by decide), if_pos ⟨rfl, hbody⟩, units_flatMap h]
  rfl

theorem fragmentBits (header : UInt8) : nalType (fuIndicator header) = 28 ∧ ∀ first last,
    (fuIndicator header &&& 0xE0) ||| nalType (fuHeader first last header) = header ∧
    (fuHeader first last header &&& 0x80 ≠ 0 ↔ first = true) ∧
    (fuHeader first last header &&& 0x40 ≠ 0 ↔ last = true) := by
  obtain ⟨header⟩ := header
  revert header
  decide +kernel

theorem fuIndicator_type (header : UInt8) : nalType (fuIndicator header) = 28 := (fragmentBits header).1

theorem fuHeader_restores (first last : Bool) (header : UInt8) :
    (fuIndicator header &&& 0xE0) ||| nalType (fuHeader first last header) = header :=
  ((fragmentBits header).2 first last).1

theorem fuHeader_first (first last : Bool) (header : UInt8) : fuHeader first last header &&& 0x80 ≠ 0 ↔ first = true :=
  ((fragmentBits header).2 first last).2.1

theorem fuHeader_last (first last : Bool) (header : UInt8) : fuHeader first last header &&& 0x40 ≠ 0 ↔ last = true :=
  ((fragmentBits header).2 first last).2.2

theorem receive_fragment (opened : Option Nal) (first last : Bool) (header : UInt8) (data : List UInt8) :
    receive opened (Content.fragment first last header data).bytes =
      if first then
        if last = true ∨ opened ≠ none then none else some ([], some (header :: data))
      else opened.map fun nal => if last then ([nal ++ data], none) else ([], some (nal ++ data)) := by
  rw [Content.bytes, receive, fuIndicator_type, if_neg (by decide), if_neg (by decide), if_pos rfl, receiveFragment]
  simp only [fuHeader_first, fuHeader_last, fuHeader_restores]

variable (size : Nat)

def pieces (header : UInt8) : Bool → Nat → List UInt8 → List Content
  | _, 0, _ => []
  | first, n + 1, data => .fragment first (n == 0) header (data.take size) :: pieces header false n (data.drop size)

theorem deliver_pieces_open (header : UInt8) (payloads : List (List UInt8)) (n : Nat) (data : List UInt8) (nal : Nal)
    (h : data.length ≤ (n + 1) * size) :
    deliver (some nal) ((pieces size header false (n + 1) data).map Content.bytes ++ payloads) =
      (deliver none payloads).map ((nal ++ data) :: ·) := by
  induction n generalizing data nal with
  | zero =>
      have htake : data.take size = data := List.take_of_length_le (by omega)
      rw [pieces, List.map_cons, List.cons_append, deliver, receive_fragment, htake]
      rfl
  | succ n ih =>
      have hrest : (data.drop size).length ≤ (n + 1) * size := by
        rw [List.length_drop]
        rw [Nat.succ_mul] at h
        omega
      rw [pieces, List.map_cons, List.cons_append, deliver, receive_fragment]
      change (deliver (some (nal ++ data.take size)) _).map ([] ++ ·) = _
      rw [ih _ _ hrest, List.append_assoc, List.take_append_drop, Option.map_map]
      rfl

theorem deliver_pieces (header : UInt8) (payloads : List (List UInt8)) (n : Nat) (data : List UInt8)
    (h : data.length ≤ (n + 2) * size) :
    deliver none ((pieces size header true (n + 2) data).map Content.bytes ++ payloads) =
      (deliver none payloads).map ((header :: data) :: ·) := by
  have hrest : (data.drop size).length ≤ (n + 1) * size := by
    rw [List.length_drop]
    rw [Nat.succ_mul] at h
    omega
  rw [pieces, List.map_cons, List.cons_append, deliver, receive_fragment]
  change (deliver (some (header :: data.take size)) _).map ([] ++ ·) = _
  rw [deliver_pieces_open size header payloads n _ _ hrest, List.cons_append, List.take_append_drop, Option.map_map]
  rfl

theorem length_pieces (header : UInt8) (first : Bool) (n : Nat) (data : List UInt8) :
    (pieces size header first n data).length = n := by
  induction n generalizing first data with
  | zero => rfl
  | succ n ih => rw [pieces, List.length_cons, ih]

end Depacketization

section Weights

def weight (nals : List Nal) : Nat := (nals.map List.length).sum

@[simp] theorem weight_nil : weight [] = 0 := rfl

@[simp] theorem weight_cons (nal : Nal) (nals : List Nal) : weight (nal :: nals) = nal.length + weight nals := by
  simp [weight]

@[simp] theorem weight_append (nals nals' : List Nal) : weight (nals ++ nals') = weight nals + weight nals' := by
  simp [weight]

theorem units_weight (bytes : List UInt8) {nals : List Nal} (h : units bytes = some nals) :
    weight nals ≤ bytes.length := by
  induction bytes using units.induct generalizing nals with
  | case1 =>
      rw [units] at h
      cases h
      exact Nat.le_refl 0
  | case2 => rw [units] at h; cases h
  | case3 high low rest hbad =>
      rw [units, if_pos hbad] at h
      cases h
  | case4 high low rest hgood ih =>
      rw [units, if_neg hgood] at h
      obtain ⟨tail, htail, rfl⟩ := Option.map_eq_some_iff.mp h
      have := ih htail
      rw [List.length_drop] at this
      simp only [weight_cons, List.length_cons, List.length_take]
      omega

theorem deliver_alone (nal : Nal) :
    deliver none [nal] = some [nal] ↔ ∃ header, nal.head? = some header ∧ 1 ≤ nalType header ∧ nalType header ≤ 23 := by
  constructor
  · intro h
    cases nal with
    | nil => rw [deliver, receive] at h; cases h
    | cons header body =>
        refine ⟨header, rfl, ?_⟩
        by_contra htype
        rw [deliver, receive, if_neg htype] at h
        split at h
        · split at h
          · cases hunits : units body with
            | none => rw [hunits] at h; cases h
            | some nals =>
                rw [hunits] at h
                have hweight := units_weight body hunits
                have hnals : nals = [header :: body] := by simpa [deliver] using h
                rw [hnals, weight_cons, List.length_cons] at hweight
                omega
          · cases h
        · split at h
          · cases body with
            | nil => cases h
            | cons =>
                rw [receiveFragment] at h
                split at h
                · split at h
                  · cases h
                  · cases h
                · cases h
          · cases h
  · rintro ⟨header, hhead, htype⟩
    rw [deliver_single hhead htype]
    rfl

theorem receive_weight {opened opened' : Option Nal} {payload : List UInt8} {nals : List Nal}
    (h : receive opened payload = some (nals, opened')) :
    weight nals + weight opened'.toList ≤ weight opened.toList + payload.length := by
  cases payload with
  | nil => cases h
  | cons header body =>
      rw [receive] at h
      split at h
      · split at h
        · cases h
          simp
        · cases h
      · split at h
        · split at h
          · obtain ⟨units', hunits, heq⟩ := Option.map_eq_some_iff.mp h
            cases heq
            have := units_weight body hunits
            simp only [Option.toList_none, weight_nil, List.length_cons]
            omega
          · cases h
        · split at h
          · cases body with
            | nil => cases h
            | cons fu data =>
                rw [receiveFragment] at h
                split at h
                · split at h
                  · cases h
                  · cases h
                    simp
                    omega
                · cases opened with
                  | none => cases h
                  | some nal =>
                      have hnext := Option.some.inj h
                      dsimp only at hnext
                      split at hnext
                      · cases hnext
                        simp
                        omega
                      · cases hnext
                        simp
                        omega
          · cases h

theorem deliver_weight (payloads : List (List UInt8)) (opened : Option Nal) {nals : List Nal}
    (h : deliver opened payloads = some nals) : weight nals ≤ weight opened.toList + weight payloads := by
  induction payloads generalizing opened nals with
  | nil =>
      rw [deliver] at h
      split at h
      · cases h
        simp
      · cases h
  | cons payload payloads ih =>
      rw [deliver] at h
      obtain ⟨⟨now, opened'⟩, hreceive, hrest⟩ := Option.bind_eq_some_iff.mp h
      obtain ⟨later, hlater, rfl⟩ := Option.map_eq_some_iff.mp hrest
      have hfirst := receive_weight hreceive
      have := ih opened' hlater
      rw [weight_append, weight_cons]
      omega

end Weights

end EtranProcessing.Library.Rtp
