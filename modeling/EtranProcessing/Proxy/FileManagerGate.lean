import EtranProcessing.Proxy.PolicyLoop

namespace EtranProcessing.Proxy.FileManagerGate

open PolicyLoop

abbrev Bytes := List UInt8

def bytesOf (s : String) : Bytes := s.toList.map fun c => UInt8.ofNat c.toNat

def slash : UInt8 := 0x2f
def percent : UInt8 := 0x25
def question : UInt8 := 0x3f
def hash : UInt8 := 0x23
def dot : Bytes := [0x2e]
def dotDot : Bytes := [0x2e, 0x2e]

def bufferSize : Nat := 1024

def fileManager : Bytes := bytesOf "/api/file-manager"

def Below (form : Bytes) : Prop := form = fileManager ∨ fileManager ++ [slash] <+: form

instance (form : Bytes) : Decidable (Below form) := inferInstanceAs (Decidable (_ ∨ _))

/-! ### The gate -/

def hexValue (b : UInt8) : Option UInt8 :=
  if 0x30 ≤ b ∧ b ≤ 0x39 then some (b - 0x30)
  else if 0x41 ≤ b ∧ b ≤ 0x46 then some (b - 0x37)
  else if 0x61 ≤ b ∧ b ≤ 0x66 then some (b - 0x57)
  else none

def escaped (high low : UInt8) : Option UInt8 := do return 16 * (← hexValue high) + (← hexValue low)

def forbidden (value : UInt8) : Bool :=
  value < 32 || value == 127 || value == 0x5c || value == question || value == hash

/-- One pass over the buffer. It is decoded in place: no write is ahead of what has been read. -/
def decodePass : Bytes → Option Bytes
  | [] => some []
  | b :: rest =>
    if b = percent then
      match rest with
      | high :: low :: rest =>
        match escaped high low with
        | some value => if forbidden value then none else (decodePass rest).map (value :: ·)
        | none => none
      | _ => none
    else if forbidden b then none
    else (decodePass rest).map (b :: ·)

def decodePasses : Nat → Bytes → Option Bytes
  | 0, s => some s
  | passes + 1, s => if percent ∈ s then (decodePass s).bind (decodePasses passes) else some s

def popPart (normalized : Bytes) : Bytes := ((normalized.reverse.dropWhile (· ≠ slash)).drop 1).reverse

/-- The loop over the segments. It has no result where it writes behind the buffer or does not end. -/
def segmentLoop : Nat → Bytes → Bytes → Option Bytes
  | 0, _, _ => none
  | fuel + 1, cursor, normalized =>
    let cursor := cursor.dropWhile (· = slash)
    if cursor = [] then some normalized
    else
      let part := cursor.takeWhile (· ≠ slash)
      let normalized :=
        if part = dotDot then popPart normalized
        else if part = dot then normalized
        else normalized ++ slash :: part
      if bufferSize ≤ normalized.length then none else segmentLoop fuel (cursor.drop part.length) normalized

inductive Reading
  | refused
  | stuck
  | form (normalized : Bytes)

def pathPart (path : Bytes) : Bytes := path.takeWhile (· ≠ question)

def gateReading (path : Bytes) : Reading :=
  let cut := pathPart path
  if cut = [] ∨ bufferSize ≤ cut.length then .refused
  else
    match decodePasses 4 cut with
    | none => .refused
    | some decoded =>
      if percent ∈ decoded ∨ decoded.head? ≠ some slash then .refused
      else
        match segmentLoop bufferSize decoded [] with
        | some normalized => .form normalized
        | none => .stuck

structure Grants (Cert : Type) where
  loop : Loop Cert
  fmAuthority : Bytes
  fmAuthorityDeadline : UInt64

section Admission

variable {Cert : Type}

/-- `policy_fm_authority_allowed` for any authority. -/
def fmAuthorityAllowed (g : Grants Cert) (m : Moment Cert) : Bool :=
  let s := expire g.loop m
  s.mediaAllowed && s.httpsAllowed && !s.stopping && decide (g.fmAuthority ≠ []) && decide (m.tick < g.fmAuthorityDeadline)

def dropTrailingSlash (s : Bytes) : Bytes := if s.getLast? = some slash then s.dropLast else s

def otherAllowed (g : Grants Cert) (path : Bytes) : Bool :=
  g.loop.httpsAllowed || pathPart path == bytesOf "/api/leo4proxy/policy" ||
    (["/api/certificates", "/api/licensebilling", "/licensebilling"].map bytesOf).contains (dropTrailingSlash (pathPart path))

def policyHttpsPathAllowed (g : Grants Cert) (m : Moment Cert) (path : Bytes) : Option Bool :=
  match gateReading path with
  | .refused => some false
  | .stuck => none
  | .form normalized => some (if Below normalized then fmAuthorityAllowed g m else otherAllowed g path)

end Admission

/-! ### The server -/

/-- The percent escapes, once; an escape that is none is a bad request. -/
def percentDecoded : Bytes → Option Bytes
  | [] => some []
  | b :: rest =>
    if b = percent then
      match rest with
      | high :: low :: rest => (escaped high low).bind fun value => (percentDecoded rest).map (value :: ·)
      | _ => none
    else (percentDecoded rest).map (b :: ·)

def resolve (above : List Bytes) (segment : Bytes) : List Bytes :=
  if segment = [] ∨ segment = dot then above else if segment = dotDot then above.dropLast else above ++ [segment]

def render (segments : List Bytes) : Bytes := segments.flatMap (slash :: ·)

def normalForm (s : Bytes) : Bytes := render ((s.splitOn slash).foldl resolve [])

def serverForm (path : Bytes) : Option Bytes :=
  (percentDecoded (path.takeWhile fun b => b ≠ question ∧ b ≠ hash)).map normalForm

def Reaches (path : Bytes) : Prop := ∃ form, serverForm path = some form ∧ Below form

/-! ### The loop computes the normal form -/

theorem popPart_append (normalized part : Bytes) (h : slash ∉ part) : popPart (normalized ++ slash :: part) = normalized := by
  have hskip : (part.reverse ++ (slash :: normalized.reverse)).dropWhile (· ≠ slash) = slash :: normalized.reverse := by
    rw [List.dropWhile_append_of_pos (fun b hb => by simpa using fun heq : b = slash => h (heq ▸ List.mem_reverse.mp hb))]
    simp
  unfold popPart
  rw [List.reverse_append, List.reverse_cons, List.append_assoc, List.singleton_append, hskip]
  simp

theorem render_concat (segments : List Bytes) (part : Bytes) : render (segments ++ [part]) = render segments ++ slash :: part := by
  simp [render]

theorem popPart_render (segments : List Bytes) (h : ∀ part ∈ segments, slash ∉ part) :
    popPart (render segments) = render segments.dropLast := by
  induction segments using List.reverseRecOn with
  | nil => rfl
  | append_singleton segments part _ =>
      rw [render_concat, popPart_append _ _ (h part (by simp)), List.dropLast_concat]

theorem splitOn_slash (s : Bytes) : (slash :: s).splitOn slash = [] :: s.splitOn slash := by
  simp [List.splitOn, List.splitOnP_cons_eq_if_modifyHead]

theorem foldl_slashes (above : List Bytes) (s : Bytes) :
    ((s.dropWhile (· = slash)).splitOn slash).foldl resolve above = (s.splitOn slash).foldl resolve above := by
  induction s with
  | nil => rfl
  | cons b s ih =>
      by_cases hb : b = slash
      · subst hb
        rw [splitOn_slash, List.dropWhile_cons_of_pos (by simp), ih]
        simp [resolve]
      · rw [List.dropWhile_cons_of_neg (by simpa using hb)]

theorem foldl_part (above : List Bytes) (part rest : Bytes) (hpart : slash ∉ part) (hrest : rest = [] ∨ rest.head? = some slash) :
    ((part ++ rest).splitOn slash).foldl resolve above = (rest.splitOn slash).foldl resolve (resolve above part) := by
  have hsingle : part.splitOn slash = [part] :=
    List.splitOnP_eq_singleton fun b hb => by simpa using fun heq : b = slash => hpart (heq ▸ hb)
  cases rest with
  | nil => simp [hsingle, resolve]
  | cons b rest =>
      obtain rfl : b = slash := by simpa using hrest
      have hsplit : (part ++ slash :: rest).splitOn slash = part.splitOn slash ++ rest.splitOn slash :=
        List.splitOnP_append_cons part rest (by simp)
      rw [hsplit, hsingle, splitOn_slash]
      simp [resolve]

theorem resolve_clean {above : List Bytes} {part : Bytes} (habove : ∀ p ∈ above, slash ∉ p) (hpart : slash ∉ part) :
    ∀ p ∈ resolve above part, slash ∉ p := by
  unfold resolve
  split
  · exact habove
  split
  · exact fun p hp => habove p (List.dropLast_subset above hp)
  · intro p hp
    obtain hp | hp := List.mem_append.mp hp
    · exact habove p hp
    · obtain rfl := List.mem_singleton.mp hp
      exact hpart

theorem round_eq {above : List Bytes} {part : Bytes} (habove : ∀ p ∈ above, slash ∉ p) (hne : part ≠ []) :
    (if part = dotDot then popPart (render above) else if part = dot then render above else render above ++ slash :: part) =
      render (resolve above part) := by
  unfold resolve
  by_cases hdots : part = dotDot
  · subst hdots
    rw [if_pos rfl, popPart_render above habove, if_neg (by decide), if_pos rfl]
  · by_cases hdot : part = dot
    · rw [if_neg hdots, if_pos hdot, if_pos (.inr hdot)]
    · rw [if_neg hdots, if_neg hdot, if_neg (by simp [hne, hdot]), if_neg hdots, render_concat]

theorem render_resolve_length (above : List Bytes) (part : Bytes) :
    (render (resolve above part)).length ≤ (render above).length + 1 + part.length := by
  unfold resolve
  split
  · omega
  split
  · induction above using List.reverseRecOn with
    | nil => simp [render]
    | append_singleton above last _ =>
        rw [List.dropLast_concat, render_concat, List.length_append]
        omega
  · rw [render_concat, List.length_append, List.length_cons]
    omega

theorem segmentLoop_eq (fuel : Nat) (cursor : Bytes) (above : List Bytes) (hfuel : cursor.length < fuel)
    (hroom : (render above).length + cursor.length < bufferSize) (hstart : cursor = [] ∨ cursor.head? = some slash)
    (habove : ∀ p ∈ above, slash ∉ p) :
    segmentLoop fuel cursor (render above) = some (render ((cursor.splitOn slash).foldl resolve above)) := by
  induction fuel generalizing cursor above with
  | zero => omega
  | succ fuel ih =>
      rw [← foldl_slashes]
      unfold segmentLoop
      dsimp only
      set skipped := cursor.dropWhile (· = slash) with hskipped
      split
      next hend => rw [hend]; simp [resolve]
      next hmore =>
        set part := skipped.takeWhile (· ≠ slash) with hpartEq
        set rest := skipped.dropWhile (· ≠ slash) with hrestEq
        have hsplit : part ++ rest = skipped := List.takeWhile_append_dropWhile
        have hlengths : part.length + rest.length = skipped.length := by rw [← hsplit, List.length_append]
        have hshorter : skipped.length < cursor.length := by
          obtain rfl | hhead := hstart
          · simp at hskipped; exact absurd hskipped hmore
          · cases cursor with
            | nil => simp at hhead
            | cons b cursor =>
                obtain rfl : b = slash := by simpa using hhead
                rw [hskipped, List.dropWhile_cons_of_pos (by simp), List.length_cons]
                exact Nat.lt_succ_of_le (List.dropWhile_sublist _).length_le
        have hclean : slash ∉ part := fun h => by simpa using List.mem_takeWhile_imp h
        have hhead : ∀ b, skipped.head? = some b → b ≠ slash := by
          intro b hb
          have := List.head?_dropWhile_not (fun b : UInt8 => decide (b = slash)) cursor
          rw [← hskipped, hb] at this
          simpa using this
        have hne : part ≠ [] := by
          obtain ⟨b, tail, hcons⟩ := List.exists_cons_of_ne_nil hmore
          rw [hpartEq, hcons, List.takeWhile_cons_of_pos (by simpa using hhead b (by rw [hcons]; rfl))]
          exact List.cons_ne_nil _ _
        have hrest : rest = [] ∨ rest.head? = some slash := by
          cases hcons : rest with
          | nil => exact .inl rfl
          | cons b tail =>
              have := List.head?_dropWhile_not (fun b : UInt8 => decide (b ≠ slash)) skipped
              rw [← hrestEq, hcons] at this
              exact .inr (by simpa using this)
        have hdrop : skipped.drop part.length = rest := by rw [← hsplit, List.drop_left]
        have hlength := render_resolve_length above part
        rw [round_eq habove hne, hdrop, if_neg (by omega),
          ih rest (resolve above part) (by omega) (by omega) hrest (resolve_clean habove hclean), ← hsplit,
          foldl_part above part rest hclean hrest]

/-! ### What the passes read -/

theorem not_hash {value : UInt8} (h : ¬ forbidden value = true) : value ≠ hash := by
  rintro rfl
  exact h (by decide)

theorem decodePass_spec {s t : Bytes} (h : decodePass s = some t) :
    t.length ≤ s.length ∧ hash ∉ s ∧ percentDecoded s = some t := by
  induction s using decodePass.induct generalizing t with
  | case1 =>
      obtain rfl : [] = t := by simpa [decodePass] using h
      simp [percentDecoded]
  | case2 high low rest value hvalue hforbidden => simp [decodePass, hvalue, hforbidden] at h
  | case3 high low rest value hvalue hallowed ih =>
      obtain ⟨u, hu, rfl⟩ : ∃ u, decodePass rest = some u ∧ value :: u = t := by
        simpa [decodePass, hvalue, hallowed] using h
      obtain ⟨hlength, hhash, hserver⟩ := ih hu
      refine ⟨by simp only [List.length_cons]; omega, ?_, by simp [percentDecoded, hvalue, hserver]⟩
      have hdigits : ∀ high low : UInt8, (escaped high low).isSome → high ≠ hash ∧ low ≠ hash := by
        intro high low hsome
        constructor
        · rintro rfl
          simp [escaped, hash, hexValue] at hsome
        · rintro rfl
          simp [escaped, hash, hexValue] at hsome
      obtain ⟨hhigh, hlow⟩ := hdigits high low (by simp [hvalue])
      simp [hhash, hhigh.symm, hlow.symm]
      decide
  | case4 high low rest hnone => simp [decodePass, hnone] at h
  | case5 rest hshort =>
      rcases rest with _ | ⟨high, _ | ⟨low, rest⟩⟩
      · simp [decodePass] at h
      · simp [decodePass] at h
      · exact (hshort high low rest rfl).elim
  | case6 b rest hb hforbidden =>
      unfold decodePass at h
      simp [hb, hforbidden] at h
  | case7 b rest hb hallowed ih =>
      unfold decodePass at h
      rw [if_neg hb, if_neg hallowed] at h
      obtain ⟨u, hu, rfl⟩ := Option.map_eq_some_iff.mp h
      obtain ⟨hlength, hhash, hserver⟩ := ih hu
      refine ⟨by simp only [List.length_cons]; omega, ?_, by unfold percentDecoded; rw [if_neg hb, hserver]; rfl⟩
      simp [hhash, (not_hash hallowed).symm]

theorem percentDecoded_plain {s : Bytes} (h : percent ∉ s) : percentDecoded s = some s := by
  induction s with
  | nil => rfl
  | cons b s ih =>
      obtain ⟨hb, hs⟩ : percent ≠ b ∧ percent ∉ s := by simpa using h
      unfold percentDecoded
      rw [if_neg hb.symm, ih hs]
      rfl

theorem decodePasses_length {passes : Nat} {s t : Bytes} (h : decodePasses passes s = some t) : t.length ≤ s.length := by
  induction passes generalizing s with
  | zero =>
      obtain rfl : s = t := by simpa [decodePasses] using h
      exact le_rfl
  | succ passes ih =>
      unfold decodePasses at h
      split at h
      · obtain ⟨u, hu, hrest⟩ := Option.bind_eq_some_iff.mp h
        exact (ih hrest).trans (decodePass_spec hu).1
      · obtain rfl : s = t := by simpa using h
        exact le_rfl

theorem server_cut (path : Bytes) :
    (path.takeWhile fun b => b ≠ question ∧ b ≠ hash) = (pathPart path).takeWhile (· ≠ hash) := by
  unfold pathPart
  rw [List.takeWhile_takeWhile]
  congr 1
  funext b
  simp [and_comm]

/-! ### Where the two differ -/

def HashKept (path : Bytes) : Prop := percent ∉ pathPart path ∧ hash ∈ pathPart path

def DecodedAgain (path : Bytes) : Prop :=
  percent ∈ pathPart path ∧ ∃ once, decodePass (pathPart path) = some once ∧ percent ∈ once

theorem gateReading_cases (path : Bytes) :
    gateReading path = .refused ∨ ∃ decoded, decodePasses 4 (pathPart path) = some decoded ∧ percent ∉ decoded ∧
      gateReading path = .form (normalForm decoded) := by
  unfold gateReading
  dsimp only
  split
  · exact .inl rfl
  next hcut =>
    split
    · exact .inl rfl
    next decoded hdecoded =>
      split
      · exact .inl rfl
      next hplain =>
        obtain ⟨hpercent, hhead⟩ : percent ∉ decoded ∧ decoded.head? = some slash := by
          simpa only [not_or, not_not] using hplain
        have hlength := decodePasses_length hdecoded
        have hloop := segmentLoop_eq bufferSize decoded [] (by omega) (by simp [render]; omega) (.inr hhead) (by simp)
        rw [show render [] = [] from rfl] at hloop
        rw [hloop]
        exact .inr ⟨decoded, hdecoded, hpercent, rfl⟩

theorem gate_agrees {path normalized : Bytes} (hform : gateReading path = .form normalized)
    (hkept : ¬ HashKept path) (hagain : ¬ DecodedAgain path) : serverForm path = some normalized := by
  obtain hrefused | ⟨decoded, hdecoded, hplain, heq⟩ := gateReading_cases path
  · rw [hrefused] at hform
    exact absurd hform (by simp)
  rw [heq] at hform
  obtain rfl : normalForm decoded = normalized := by simpa using hform
  obtain ⟨hhash, hserver⟩ : hash ∉ pathPart path ∧ percentDecoded (pathPart path) = some decoded := by
    by_cases hpercent : percent ∈ pathPart path
    · rw [decodePasses, if_pos hpercent] at hdecoded
      obtain ⟨once, honce, hrest⟩ := Option.bind_eq_some_iff.mp hdecoded
      have hnone : percent ∉ once := fun h => hagain ⟨hpercent, once, honce, h⟩
      rw [decodePasses, if_neg hnone] at hrest
      obtain rfl : once = decoded := by simpa using hrest
      exact (decodePass_spec honce).2
    · rw [decodePasses, if_neg hpercent] at hdecoded
      obtain rfl : pathPart path = decoded := by simpa using hdecoded
      exact ⟨fun h => hkept ⟨hpercent, h⟩, percentDecoded_plain hpercent⟩
  have hcut : (pathPart path).takeWhile (· ≠ hash) = pathPart path :=
    List.takeWhile_eq_self_iff.mpr fun b hb => by simpa using fun heq : b = hash => hhash (heq ▸ hb)
  rw [serverForm, server_cut, hcut, hserver]
  rfl

section Admission

variable {Cert : Type}

def openGrants (Cert : Type) : Grants Cert := ⟨Loop.start false ⟨none, none, none⟩, [], 0⟩

end Admission

end EtranProcessing.Proxy.FileManagerGate
