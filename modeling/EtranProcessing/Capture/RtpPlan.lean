import EtranProcessing.Capture.RtpPacketizer

namespace EtranProcessing.Capture.RtpPlan

open Library.Rtp RtpPacketizer

def carried (nal : NalDesc) : Option Nal :=
  match nal.data with
  | none => none
  | some [] => none
  | some (hdr :: payload) => some (hdr :: payload)

def carriedAll (nals : List NalDesc) : List Nal := nals.filterMap carried

def fill (pending : List Nal) : Nat := (pending.flatMap unit).length

def flushed (pending : List Nal) (marker : Bool) : List (Content × Bool) :=
  if pending = [] then [] else [(.aggregate pending, marker)]

def closing : Content → Bool
  | .fragment _ last _ _ => last
  | _ => true

def cut (nal : Nal) (lastNal : Bool) : List (Content × Bool) :=
  match nal with
  | [] => []
  | hdr :: payload =>
      (pieces maxFuPayloadSize hdr true (fragCount nal.length) payload).map fun c => (c, closing c && lastNal)

/-- The packets that one NAL unit causes, and the units that wait after it. -/
def emitNal (pending : List Nal) (nal : Nal) (lastNal : Bool) : List (Content × Bool) × List Nal :=
  if nal.length ≤ maxPayloadSize then
    if fill pending + (2 + nal.length) ≤ maxPayloadSize then
      if lastNal then ([(.aggregate (pending ++ [nal]), true)], []) else ([], pending ++ [nal])
    else if lastNal then (flushed pending false ++ [(.single nal, true)], [])
    else (flushed pending false, [nal])
  else (flushed pending false ++ cut nal lastNal, [])

def emit : List Nal → List NalDesc → List (Content × Bool)
  | pending, [] => flushed pending true
  | pending, nal :: rest =>
      match carried nal with
      | none => emit pending rest
      | some d => (emitNal pending d rest.isEmpty).1 ++ emit (emitNal pending d rest.isEmpty).2 rest

/-- No aggregate reaches 1200 bytes, counting two for the length of each unit: the STAP-A header still fits. -/
def Clear : Nat → List NalDesc → Prop
  | _, [] => True
  | waiting, nal :: rest =>
      match carried nal with
      | none => Clear waiting rest
      | some d =>
          if d.length ≤ maxPayloadSize then
            if waiting + (2 + d.length) ≤ maxPayloadSize then
              waiting + (2 + d.length) < maxPayloadSize ∧ Clear (waiting + (2 + d.length)) rest
            else rest = [] ∨ 2 + d.length < maxPayloadSize ∧ Clear (2 + d.length) rest
          else Clear 0 rest

/-- Every large unit is short enough for the fragment count, and a unit sent alone has a type of a NAL unit. -/
def Lossless : Nat → List NalDesc → Prop
  | _, [] => True
  | waiting, nal :: rest =>
      match carried nal with
      | none => Lossless waiting rest
      | some d =>
          if d.length ≤ maxPayloadSize then
            if waiting + (2 + d.length) ≤ maxPayloadSize then Lossless (waiting + (2 + d.length)) rest
            else if rest = [] then ∃ header, d.head? = some header ∧ 1 ≤ nalType header ∧ nalType header ≤ 23
            else Lossless (2 + d.length) rest
          else d.length + 1196 < 2 ^ 32 ∧ Lossless 0 rest

def Ended : List NalDesc → Prop
  | [] => True
  | nal :: rest =>
      ((∃ d, carried nal = some d ∧ maxPayloadSize < d.length) → rest = [] ∨ carriedAll rest ≠ []) ∧ Ended rest

@[simp] theorem fill_nil : fill [] = 0 := rfl

@[simp] theorem flushed_nil (marker : Bool) : flushed [] marker = [] := rfl

theorem fill_append (pending : List Nal) (nal : Nal) : fill (pending ++ [nal]) = fill pending + (2 + nal.length) := by
  simp [fill, unit]
  omega

theorem fill_single (nal : Nal) : fill [nal] = 2 + nal.length := by
  have := fill_append [] nal
  simpa using this

variable {pending : List Nal}

theorem fill_pos : 0 < fill pending ↔ pending ≠ [] := by
  cases pending with
  | nil => simp
  | cons => simp [fill, unit]

theorem carried_length {nal : NalDesc} {d : Nal} (h : carried nal = some d) :
    nal.data = some d ∧ nal.length = d.length ∧ d ≠ [] := by
  unfold carried at h
  split at h
  · cases h
  · cases h
  next hdr payload hdata =>
    cases h
    exact ⟨hdata, (nal.backed _ hdata).symm, by simp⟩

theorem carried_none {nal : NalDesc} (h : carried nal = none) : nal.data = none ∨ nal.length = 0 := by
  unfold carried at h
  split at h
  next hdata => exact .inl hdata
  next hdata => exact .inr (nal.backed _ hdata).symm
  · cases h

structure Waiting (pending : List Nal) : Prop where
  nonempty : ∀ nal ∈ pending, nal ≠ []
  below : fill pending ≤ maxPayloadSize

theorem waiting_nil : Waiting [] := ⟨nofun, Nat.zero_le _⟩

theorem Waiting.small (h : Waiting pending) : ∀ nal ∈ pending, nal ≠ [] ∧ nal.length < 65536 := by
  intro nal hnal
  refine ⟨h.nonempty nal hnal, ?_⟩
  have hsub : nal.length ≤ fill pending := by
    obtain ⟨before, after, rfl⟩ := List.append_of_mem hnal
    simp [fill, unit]
    omega
  have hbelow := h.below
  unfold maxPayloadSize at hbelow
  omega

theorem Waiting.append (h : Waiting pending) {nal : Nal} (hne : nal ≠ [])
    (hfits : fill pending + (2 + nal.length) ≤ maxPayloadSize) : Waiting (pending ++ [nal]) where
  nonempty n hn := by
    rcases List.mem_append.mp hn with hn | hn
    · exact h.nonempty n hn
    · rw [List.mem_singleton.mp hn]
      exact hne
  below := by rw [fill_append]; exact hfits

section Equations

variable {pending : List Nal} {nal : NalDesc} {d : Nal} {rest : List NalDesc}

theorem emit_skip (h : carried nal = none) : emit pending (nal :: rest) = emit pending rest := by
  rw [emit, h]

theorem emit_carried (h : carried nal = some d) :
    emit pending (nal :: rest) = (emitNal pending d rest.isEmpty).1 ++ emit (emitNal pending d rest.isEmpty).2 rest := by
  rw [emit, h]

theorem emit_fits (h : carried nal = some d) (hsmall : d.length ≤ maxPayloadSize)
    (hfits : fill pending + (2 + d.length) ≤ maxPayloadSize) :
    emit pending (nal :: rest) = emit (pending ++ [d]) rest := by
  rw [emit_carried h, emitNal, if_pos hsmall, if_pos hfits]
  cases rest with
  | nil => simp [emit, flushed]
  | cons => rfl

theorem emit_alone (h : carried nal = some d) (hsmall : d.length ≤ maxPayloadSize)
    (hfull : ¬ fill pending + (2 + d.length) ≤ maxPayloadSize) :
    emit pending [nal] = flushed pending false ++ [(.single d, true)] := by
  rw [emit_carried h, emitNal, if_pos hsmall, if_neg hfull]
  simp [emit, flushed]

theorem emit_renewed (h : carried nal = some d) (hsmall : d.length ≤ maxPayloadSize)
    (hfull : ¬ fill pending + (2 + d.length) ≤ maxPayloadSize) (hrest : rest ≠ []) :
    emit pending (nal :: rest) = flushed pending false ++ emit [d] rest := by
  rw [emit_carried h, emitNal, if_pos hsmall, if_neg hfull, if_neg (by simpa using hrest)]

theorem emit_large (h : carried nal = some d) (hlarge : ¬ d.length ≤ maxPayloadSize) :
    emit pending (nal :: rest) = flushed pending false ++ cut d rest.isEmpty ++ emit [] rest := by
  rw [emit_carried h, emitNal, if_neg hlarge]

end Equations

section Delivery

def delivered (pending : List Nal) (nals : List NalDesc) : Option (List Nal) :=
  deliver none ((emit pending nals).map fun packet => packet.1.bytes)

variable {pending : List Nal} {nal : NalDesc} {d : Nal} {rest : List NalDesc}

theorem deliver_flushed (h : Waiting pending) (marker : Bool) (payloads : List (List UInt8)) :
    deliver none ((flushed pending marker).map (fun packet => packet.1.bytes) ++ payloads) =
      (deliver none payloads).map (pending ++ ·) := by
  unfold flushed
  split
  next hnil =>
    rw [hnil]
    simp
  next hne => exact deliver_aggregate hne h.small payloads

theorem fragCount_large (hlarge : maxPayloadSize < d.length) (hwrap : d.length + 1196 < 2 ^ 32) :
    ∃ n, fragCount d.length = n + 2 ∧ d.length - 1 ≤ (n + 2) * maxFuPayloadSize := by
  unfold maxPayloadSize at hlarge
  refine ⟨fragCount d.length - 2, ?_⟩
  unfold fragCount maxFuPayloadSize
  rw [Nat.mod_eq_of_lt (by omega)]
  omega

theorem fragCount_wrapped (hlength : d.length < 2 ^ 32) (hwrap : ¬ d.length + 1196 < 2 ^ 32) : fragCount d.length = 0 := by
  unfold fragCount maxFuPayloadSize
  omega

theorem deliver_cut (hlarge : maxPayloadSize < d.length) (hwrap : d.length + 1196 < 2 ^ 32) (lastNal : Bool)
    (payloads : List (List UInt8)) :
    deliver none ((cut d lastNal).map (fun packet => packet.1.bytes) ++ payloads) = (deliver none payloads).map (d :: ·) := by
  obtain ⟨n, hcount, hsize⟩ := fragCount_large hlarge hwrap
  cases d with
  | nil => unfold maxPayloadSize at hlarge; cases hlarge
  | cons hdr payload =>
      unfold cut
      dsimp only
      rw [hcount, List.map_map]
      exact deliver_pieces maxFuPayloadSize hdr payloads n payload hsize

theorem cut_wrapped (hlength : d.length < 2 ^ 32) (hwrap : ¬ d.length + 1196 < 2 ^ 32) (lastNal : Bool) :
    cut d lastNal = [] := by
  cases d with
  | nil => rfl
  | cons =>
      unfold cut
      dsimp only
      rw [fragCount_wrapped hlength hwrap]
      rfl

theorem delivered_nil (hw : Waiting pending) : delivered pending [] = some pending := by
  have := deliver_flushed hw true []
  rw [List.append_nil] at this
  rw [delivered, emit, this]
  simp [deliver]

theorem delivered_fits (h : carried nal = some d) (hsmall : d.length ≤ maxPayloadSize)
    (hfits : fill pending + (2 + d.length) ≤ maxPayloadSize) :
    delivered pending (nal :: rest) = delivered (pending ++ [d]) rest := by
  rw [delivered, emit_fits h hsmall hfits]
  rfl

theorem delivered_alone (h : carried nal = some d) (hw : Waiting pending) (hsmall : d.length ≤ maxPayloadSize)
    (hfull : ¬ fill pending + (2 + d.length) ≤ maxPayloadSize) :
    delivered pending [nal] = (deliver none [d]).map (pending ++ ·) := by
  rw [delivered, emit_alone h hsmall hfull, List.map_append, deliver_flushed hw]
  rfl

theorem delivered_renewed (h : carried nal = some d) (hw : Waiting pending) (hsmall : d.length ≤ maxPayloadSize)
    (hfull : ¬ fill pending + (2 + d.length) ≤ maxPayloadSize) (hrest : rest ≠ []) :
    delivered pending (nal :: rest) = (delivered [d] rest).map (pending ++ ·) := by
  rw [delivered, emit_renewed h hsmall hfull hrest, List.map_append, deliver_flushed hw]
  rfl

theorem delivered_large (h : carried nal = some d) (hw : Waiting pending) (hlarge : ¬ d.length ≤ maxPayloadSize) :
    delivered pending (nal :: rest) =
      if d.length + 1196 < 2 ^ 32 then ((delivered [] rest).map (d :: ·)).map (pending ++ ·)
      else (delivered [] rest).map (pending ++ ·) := by
  have hlength : d.length < 2 ^ 32 := (carried_length h).2.1 ▸ nal.fits
  rw [delivered, emit_large h hlarge, List.map_append, List.map_append, List.append_assoc, deliver_flushed hw]
  split
  next hwrap => rw [deliver_cut (Nat.lt_of_not_le hlarge) hwrap]; rfl
  next hwrap => rw [cut_wrapped hlength hwrap]; rfl

theorem waiting_single (h : carried nal = some d) (hfits : 2 + d.length < maxPayloadSize) : Waiting [d] := by
  have := waiting_nil.append (carried_length h).2.2 (by rw [fill_nil]; omega)
  simpa using this

theorem clear_cons (h : carried nal = some d) (waiting : Nat) :
    Clear waiting (nal :: rest) ↔
      if d.length ≤ maxPayloadSize then
        if waiting + (2 + d.length) ≤ maxPayloadSize then
          waiting + (2 + d.length) < maxPayloadSize ∧ Clear (waiting + (2 + d.length)) rest
        else rest = [] ∨ 2 + d.length < maxPayloadSize ∧ Clear (2 + d.length) rest
      else Clear 0 rest := by
  rw [Clear, h]

theorem carriedAll_skip (h : carried nal = none) : carriedAll (nal :: rest) = carriedAll rest := by
  rw [carriedAll, List.filterMap_cons, h]
  rfl

theorem carriedAll_carried (h : carried nal = some d) : carriedAll (nal :: rest) = d :: carriedAll rest := by
  rw [carriedAll, List.filterMap_cons, h]
  rfl

theorem delivered_weight (nals : List NalDesc) {pending out : List Nal} (hw : Waiting pending)
    (hclear : Clear (fill pending) nals) (h : delivered pending nals = some out) :
    weight out ≤ weight pending + weight (carriedAll nals) := by
  induction nals generalizing pending out with
  | nil =>
      rw [delivered_nil hw] at h
      cases h
      exact Nat.le_add_right _ _
  | cons nal rest ih =>
      cases hcarried : carried nal with
      | none =>
          rw [Clear, hcarried] at hclear
          rw [delivered, emit_skip hcarried] at h
          rw [carriedAll_skip hcarried]
          exact ih hw hclear h
      | some d =>
          rw [clear_cons hcarried] at hclear
          rw [carriedAll_carried hcarried, weight_cons]
          by_cases hsmall : d.length ≤ maxPayloadSize
          · rw [if_pos hsmall] at hclear
            by_cases hfits : fill pending + (2 + d.length) ≤ maxPayloadSize
            · rw [if_pos hfits, ← fill_append] at hclear
              rw [delivered_fits hcarried hsmall hfits] at h
              have := ih (hw.append (carried_length hcarried).2.2 hfits) hclear.2 h
              simp only [weight_append, weight_cons, weight_nil] at this
              omega
            · rw [if_neg hfits] at hclear
              by_cases hrest : rest = []
              · rw [hrest, delivered_alone hcarried hw hsmall hfits] at h
                obtain ⟨last, hlast, rfl⟩ := Option.map_eq_some_iff.mp h
                have := deliver_weight [d] none hlast
                simp only [Option.toList_none, weight_nil, weight_cons] at this
                rw [weight_append]
                omega
              · have hclear := hclear.resolve_left hrest
                rw [delivered_renewed hcarried hw hsmall hfits hrest] at h
                obtain ⟨tail, htail, rfl⟩ := Option.map_eq_some_iff.mp h
                have := ih (waiting_single hcarried hclear.1) (by rw [fill_single]; exact hclear.2) htail
                simp only [weight_cons, weight_nil] at this
                rw [weight_append]
                omega
          · rw [if_neg hsmall] at hclear
            rw [delivered_large hcarried hw hsmall] at h
            split at h
            · obtain ⟨_, hcons, rfl⟩ := Option.map_eq_some_iff.mp h
              obtain ⟨tail, htail, rfl⟩ := Option.map_eq_some_iff.mp hcons
              have := ih waiting_nil hclear htail
              simp only [weight_nil] at this
              rw [weight_append, weight_cons]
              omega
            · obtain ⟨tail, htail, rfl⟩ := Option.map_eq_some_iff.mp h
              have := ih waiting_nil hclear htail
              simp only [weight_nil] at this
              rw [weight_append]
              omega

theorem map_append_eq (first : List Nal) {second : List Nal} {o : Option (List Nal)} :
    o.map (first ++ ·) = some (first ++ second) ↔ o = some second := by
  cases o with
  | none => simp
  | some nals => simp

theorem delivered_iff (nals : List NalDesc) {pending : List Nal} (hw : Waiting pending)
    (hclear : Clear (fill pending) nals) :
    delivered pending nals = some (pending ++ carriedAll nals) ↔ Lossless (fill pending) nals := by
  induction nals generalizing pending with
  | nil => simp [delivered_nil hw, carriedAll, Lossless]
  | cons nal rest ih =>
      cases hcarried : carried nal with
      | none =>
          rw [Clear, hcarried] at hclear
          rw [Lossless, hcarried, carriedAll_skip hcarried, delivered, emit_skip hcarried]
          exact ih hw hclear
      | some d =>
          rw [clear_cons hcarried] at hclear
          rw [Lossless, hcarried, carriedAll_carried hcarried]
          dsimp only
          by_cases hsmall : d.length ≤ maxPayloadSize
          · rw [if_pos hsmall] at hclear ⊢
            by_cases hfits : fill pending + (2 + d.length) ≤ maxPayloadSize
            · rw [if_pos hfits] at hclear ⊢
              rw [delivered_fits hcarried hsmall hfits, ← fill_append]
              have := ih (hw.append (carried_length hcarried).2.2 hfits) (by rw [fill_append]; exact hclear.2)
              rwa [List.append_assoc] at this
            · rw [if_neg hfits] at hclear ⊢
              by_cases hrest : rest = []
              · rw [if_pos hrest, hrest, delivered_alone hcarried hw hsmall hfits, map_append_eq]
                exact deliver_alone d
              · have hclear := hclear.resolve_left hrest
                rw [if_neg hrest, delivered_renewed hcarried hw hsmall hfits hrest, map_append_eq, ← fill_single]
                exact ih (waiting_single hcarried hclear.1) (by rw [fill_single]; exact hclear.2)
          · rw [if_neg hsmall] at hclear ⊢
            rw [delivered_large hcarried hw hsmall]
            split
            next hwrap =>
              rw [map_append_eq]
              change (delivered [] rest).map ([d] ++ ·) = some ([d] ++ carriedAll rest) ↔ _
              rw [map_append_eq]
              simp only [hwrap, true_and]
              exact ih waiting_nil hclear
            next hwrap =>
              rw [map_append_eq]
              refine ⟨fun h => ?_, fun h => absurd h.1 hwrap⟩
              have := delivered_weight rest waiting_nil hclear h
              unfold maxPayloadSize at hsmall
              simp only [weight_cons, weight_nil] at this
              omega

end Delivery

section Markers

def markers (packets : List (Content × Bool)) : List Bool := packets.map Prod.snd

@[simp] theorem markers_nil : markers [] = [] := rfl

@[simp] theorem markers_append (first second : List (Content × Bool)) :
    markers (first ++ second) = markers first ++ markers second := List.map_append

theorem markers_flushed (pending : List Nal) : ∀ marker ∈ markers (flushed pending false), marker = false := by
  unfold flushed
  split
  · exact nofun
  · exact fun marker h => List.mem_singleton.mp h

theorem markers_cut_open (d : Nal) : ∀ marker ∈ markers (cut d false), marker = false := by
  unfold cut
  split
  · exact nofun
  · intro marker h
    simp only [markers, List.map_map, List.mem_map, Function.comp_apply, Bool.and_false] at h
    obtain ⟨_, _, rfl⟩ := h
    rfl

theorem pieces_marked (size n : Nat) (hdr : UInt8) (first : Bool) (data : List UInt8) :
    MarkedLast ((pieces size hdr first (n + 1) data).map closing) := by
  induction n generalizing first data with
  | zero => rfl
  | succ n ih =>
      rw [pieces, List.map_cons]
      cases htail : (pieces size hdr false (n + 1) (data.drop size)).map closing with
      | nil => rw [pieces] at htail; cases htail
      | cons => exact ⟨rfl, htail ▸ ih false (data.drop size)⟩

variable {d : Nal} (hlarge : maxPayloadSize < d.length) (hwrap : d.length + 1196 < 2 ^ 32)
include hlarge hwrap

theorem markers_cut_last : MarkedLast (markers (cut d true)) := by
  obtain ⟨n, hcount, _⟩ := fragCount_large hlarge hwrap
  cases d with
  | nil => trivial
  | cons hdr payload =>
      have := pieces_marked maxFuPayloadSize (n + 1) hdr true payload
      rw [cut, hcount, markers, List.map_map]
      simpa [Function.comp_def] using this

theorem cut_ne_nil (lastNal : Bool) : cut d lastNal ≠ [] := by
  obtain ⟨n, hcount, _⟩ := fragCount_large hlarge hwrap
  unfold cut
  split
  · unfold maxPayloadSize at hlarge
    cases hlarge
  · rw [hcount, pieces]
    exact List.cons_ne_nil _ _

end Markers

section Endings

variable {pending : List Nal}

theorem emit_empty {nals : List NalDesc} (h : carriedAll nals = []) :
    emit pending nals = flushed pending true := by
  induction nals with
  | nil => rfl
  | cons nal rest ih =>
      cases hcarried : carried nal with
      | none =>
          rw [carriedAll_skip hcarried] at h
          rw [emit_skip hcarried, ih h]
      | some d =>
          rw [carriedAll_carried hcarried] at h
          cases h

theorem flushed_ne_nil (hne : pending ≠ []) (marker : Bool) : flushed pending marker ≠ [] := by
  rw [flushed, if_neg hne]
  exact List.cons_ne_nil _ _

theorem emit_pending_ne_nil (hne : pending ≠ []) (nals : List NalDesc) : emit pending nals ≠ [] := by
  have hleft := List.append_ne_nil_of_left_ne_nil (flushed_ne_nil hne false)
  induction nals generalizing pending with
  | nil => exact flushed_ne_nil hne true
  | cons nal rest ih =>
      cases hcarried : carried nal with
      | none => rw [emit_skip hcarried]; exact ih hne hleft
      | some d =>
          by_cases hsmall : d.length ≤ maxPayloadSize
          · by_cases hfits : fill pending + (2 + d.length) ≤ maxPayloadSize
            · have hne' : pending ++ [d] ≠ [] := by simp
              rw [emit_fits hcarried hsmall hfits]
              exact ih hne' (List.append_ne_nil_of_left_ne_nil (flushed_ne_nil hne' false))
            · by_cases hrest : rest = []
              · rw [hrest, emit_alone hcarried hsmall hfits]
                exact hleft _
              · rw [emit_renewed hcarried hsmall hfits hrest]
                exact hleft _
          · rw [emit_large hcarried hsmall, List.append_assoc]
            exact hleft _

theorem lossless_cons {nal : NalDesc} {rest : List NalDesc} {d : Nal} (h : carried nal = some d) (waiting : Nat) :
    Lossless waiting (nal :: rest) ↔
      if d.length ≤ maxPayloadSize then
        if waiting + (2 + d.length) ≤ maxPayloadSize then Lossless (waiting + (2 + d.length)) rest
        else if rest = [] then ∃ header, d.head? = some header ∧ 1 ≤ nalType header ∧ nalType header ≤ 23
        else Lossless (2 + d.length) rest
      else d.length + 1196 < 2 ^ 32 ∧ Lossless 0 rest := by
  rw [Lossless, h]

theorem emit_ne_nil {nals : List NalDesc} (hlossless : Lossless (fill pending) nals)
    (hne : carriedAll nals ≠ []) : emit pending nals ≠ [] := by
  induction nals generalizing pending with
  | nil => exact absurd rfl hne
  | cons nal rest ih =>
      cases hcarried : carried nal with
      | none =>
          rw [Lossless, hcarried] at hlossless
          rw [carriedAll_skip hcarried] at hne
          rw [emit_skip hcarried]
          exact ih hlossless hne
      | some d =>
          by_cases hsmall : d.length ≤ maxPayloadSize
          · by_cases hfits : fill pending + (2 + d.length) ≤ maxPayloadSize
            · rw [emit_fits hcarried hsmall hfits]
              exact emit_pending_ne_nil (by simp) rest
            · by_cases hrest : rest = []
              · rw [hrest, emit_alone hcarried hsmall hfits]
                exact List.append_ne_nil_of_right_ne_nil _ (List.cons_ne_nil _ _)
              · rw [emit_renewed hcarried hsmall hfits hrest]
                exact List.append_ne_nil_of_right_ne_nil _ (emit_pending_ne_nil (List.cons_ne_nil d []) rest)
          · rw [lossless_cons hcarried, if_neg hsmall] at hlossless
            rw [emit_large hcarried hsmall]
            have hcut := cut_ne_nil (Nat.lt_of_not_le hsmall) hlossless.1 rest.isEmpty
            exact List.append_ne_nil_of_left_ne_nil (List.append_ne_nil_of_right_ne_nil _ hcut) _

theorem markers_ne_nil {packets : List (Content × Bool)} (h : packets ≠ []) : markers packets ≠ [] := by
  simpa [markers] using h

theorem ended_cons {nal : NalDesc} {rest : List NalDesc} {d : Nal} (h : carried nal = some d) :
    Ended (nal :: rest) ↔ (maxPayloadSize < d.length → rest = [] ∨ carriedAll rest ≠ []) ∧ Ended rest := by
  rw [Ended, h]
  simp

theorem marked_iff (nals : List NalDesc) (hlossless : Lossless (fill pending) nals) :
    MarkedLast (markers (emit pending nals)) ↔ Ended nals := by
  induction nals generalizing pending with
  | nil =>
      rw [emit, flushed]
      split
      · exact Iff.rfl
      · exact ⟨fun _ => trivial, fun _ => rfl⟩
  | cons nal rest ih =>
      cases hcarried : carried nal with
      | none =>
          rw [Lossless, hcarried] at hlossless
          rw [emit_skip hcarried, ih hlossless, Ended, hcarried]
          simp
      | some d =>
          rw [lossless_cons hcarried] at hlossless
          rw [ended_cons hcarried]
          by_cases hsmall : d.length ≤ maxPayloadSize
          · rw [if_pos hsmall] at hlossless
            have hquiet : ¬ maxPayloadSize < d.length := Nat.not_lt_of_le hsmall
            simp only [hquiet, false_imp_iff, true_and]
            by_cases hfits : fill pending + (2 + d.length) ≤ maxPayloadSize
            · rw [if_pos hfits, ← fill_append] at hlossless
              rw [emit_fits hcarried hsmall hfits]
              exact ih hlossless
            · rw [if_neg hfits] at hlossless
              by_cases hrest : rest = []
              · rw [hrest, emit_alone hcarried hsmall hfits, markers_append,
                  markedLast_append (by simp [markers]) (markers_flushed pending)]
                exact ⟨fun _ => trivial, fun _ => rfl⟩
              · rw [if_neg hrest, ← fill_single] at hlossless
                have hne := emit_pending_ne_nil (List.cons_ne_nil d []) rest
                rw [emit_renewed hcarried hsmall hfits hrest, markers_append,
                  markedLast_append (markers_ne_nil hne) (markers_flushed pending)]
                exact ih hlossless
          · rw [if_neg hsmall] at hlossless
            have hlarge := Nat.lt_of_not_le hsmall
            have hcut := cut_ne_nil hlarge hlossless.1
            simp only [hlarge, true_imp_iff]
            rw [emit_large hcarried hsmall]
            by_cases hrest : rest = []
            · have hlast : MarkedLast (markers (flushed pending false ++ cut d true)) := by
                rw [markers_append, markedLast_append (markers_ne_nil (hcut true)) (markers_flushed pending)]
                exact markers_cut_last hlarge hlossless.1
              rw [hrest, emit, flushed_nil, List.append_nil]
              exact ⟨fun _ => ⟨.inl rfl, trivial⟩, fun _ => hlast⟩
            · have hisEmpty : rest.isEmpty = false := by simpa using hrest
              have hopen : ∀ marker ∈ markers (flushed pending false ++ cut d false), marker = false := by
                intro marker hmarker
                rw [markers_append] at hmarker
                rcases List.mem_append.mp hmarker with h | h
                · exact markers_flushed pending marker h
                · exact markers_cut_open d marker h
              rw [hisEmpty, markers_append]
              by_cases hempty : carriedAll rest = []
              · rw [emit_empty hempty, flushed_nil, markers_nil, List.append_nil, markedLast_unmarked hopen]
                refine ⟨fun h => ?_, fun h => ?_⟩
                · exact absurd h (markers_ne_nil (List.append_ne_nil_of_right_ne_nil _ (hcut false)))
                · exact absurd hempty (h.1.resolve_left hrest)
              · have hnone : Lossless (fill []) rest := hlossless.2
                rw [markedLast_append (markers_ne_nil (emit_ne_nil hnone hempty)) hopen, ih hnone]
                exact ⟨fun h => ⟨.inr hempty, h⟩, fun h => h.2⟩

theorem pieces_size (size n : Nat) (hdr : UInt8) (first : Bool) (data : List UInt8) :
    ∀ c ∈ pieces size hdr first n data, c.bytes.length ≤ 2 + size := by
  induction n generalizing first data with
  | zero => exact nofun
  | succ n ih =>
      intro c hc
      rw [pieces] at hc
      rcases List.mem_cons.mp hc with rfl | hc
      · simp [Content.bytes]
        omega
      · exact ih false (data.drop size) c hc

theorem flushed_size (h : fill pending < maxPayloadSize) (marker : Bool) :
    ∀ packet ∈ flushed pending marker, packet.1.bytes.length ≤ maxPayloadSize := by
  unfold flushed
  split
  · exact nofun
  · intro packet hpacket
    rw [List.mem_singleton.mp hpacket, Content.bytes, List.length_cons]
    exact h

theorem cut_size (d : Nal) (lastNal : Bool) : ∀ packet ∈ cut d lastNal, packet.1.bytes.length ≤ maxPayloadSize := by
  unfold cut
  split
  · exact nofun
  · intro packet hpacket
    obtain ⟨c, hc, rfl⟩ := List.mem_map.mp hpacket
    exact pieces_size maxFuPayloadSize _ _ _ _ c hc

theorem emit_size (nals : List NalDesc) (hpending : fill pending < maxPayloadSize)
    (hclear : Clear (fill pending) nals) : ∀ packet ∈ emit pending nals, packet.1.bytes.length ≤ maxPayloadSize := by
  have hflush := flushed_size hpending false
  induction nals generalizing pending with
  | nil => exact flushed_size hpending true
  | cons nal rest ih =>
      cases hcarried : carried nal with
      | none =>
          rw [Clear, hcarried] at hclear
          rw [emit_skip hcarried]
          exact ih hpending hclear hflush
      | some d =>
          rw [clear_cons hcarried] at hclear
          by_cases hsmall : d.length ≤ maxPayloadSize
          · rw [if_pos hsmall] at hclear
            by_cases hfits : fill pending + (2 + d.length) ≤ maxPayloadSize
            · rw [if_pos hfits, ← fill_append] at hclear
              rw [emit_fits hcarried hsmall hfits]
              exact ih hclear.1 hclear.2 (flushed_size hclear.1 false)
            · rw [if_neg hfits] at hclear
              by_cases hrest : rest = []
              · rw [hrest, emit_alone hcarried hsmall hfits]
                intro packet hpacket
                rcases List.mem_append.mp hpacket with h | h
                · exact hflush packet h
                · rw [List.mem_singleton.mp h]
                  exact hsmall
              · have hclear := hclear.resolve_left hrest
                rw [← fill_single] at hclear
                rw [emit_renewed hcarried hsmall hfits hrest]
                intro packet hpacket
                rcases List.mem_append.mp hpacket with h | h
                · exact hflush packet h
                · exact ih hclear.1 hclear.2 (flushed_size hclear.1 false) packet h
          · rw [if_neg hsmall] at hclear
            have hzero : fill [] < maxPayloadSize := by decide
            rw [emit_large hcarried hsmall]
            intro packet hpacket
            rcases List.mem_append.mp hpacket with h | h
            · rcases List.mem_append.mp h with h | h
              · exact hflush packet h
              · exact cut_size d _ packet h
            · exact ih hzero hclear (flushed_size hzero false) packet h

end Endings

end EtranProcessing.Capture.RtpPlan
