import EtranProcessing.Ingress.Framing
import EtranProcessing.Library.Incremental

namespace EtranProcessing.Ingress.Tokens

open Library.Incremental
open State Feedback Framing

inductive Token
  | hello (sn : List UInt8)
  | frame (type : UInt8) (payload : List UInt8)

/-- The byte stream of a connection as a parser. The preamble is refused unless
its serial number is admitted. -/
def nextToken (welcome : List UInt8 → Bool) : ClientState → List UInt8 → Parsed ClientState Token UInt8
  | .preamble, buf =>
      match parsePreamble buf with
      | .incomplete => .wait
      | .invalid => .reject
      | .complete sn rest => if welcome sn then .token (.hello sn) .framing rest else .reject
  | .framing, buf =>
      match nextFrame buf with
      | .incomplete => .wait
      | .oversized => .reject
      | .frame type payload rest => .token (.frame type payload) .framing rest

theorem getD_append_lt (buf more : List UInt8) {i : Nat} (hi : i < buf.length) :
    (buf ++ more).getD i 0 = buf.getD i 0 := by
  simp [List.getElem?_append_left hi]

theorem nextFrame_append (buf more : List UInt8) :
    nextFrame (buf ++ more) = match nextFrame buf with
      | .incomplete => nextFrame (buf ++ more)
      | .oversized => .oversized
      | .frame type payload rest => .frame type payload (rest ++ more) := by
  by_cases h4 : buf.length < 4
  · simp [nextFrame, h4]
  · have h4' : ¬ (buf ++ more).length < 4 := by
      rw [List.length_append]
      omega
    simp only [nextFrame, if_neg h4, if_neg h4', getD_append_lt buf more (i := 0) (by omega),
      getD_append_lt buf more (i := 2) (by omega), getD_append_lt buf more (i := 3) (by omega)]
    generalize be16 (buf.getD 2 0) (buf.getD 3 0) = n
    by_cases hmax : maxRtpPayloadSize < n
    · simp [hmax]
    · by_cases hlen : buf.length < 4 + n
      · simp [hmax, hlen]
      · have hlen' : ¬ (buf ++ more).length < 4 + n := by
          rw [List.length_append]
          omega
        simp only [if_neg hmax, if_neg hlen, if_neg hlen']
        rw [List.drop_append_of_le_length (by omega), List.drop_append_of_le_length (by omega),
          List.take_append_of_le_length (by rw [List.length_drop]; omega)]

theorem parsePreamble_append (buf more : List UInt8) :
    parsePreamble (buf ++ more) = match parsePreamble buf with
      | .incomplete => parsePreamble (buf ++ more)
      | .invalid => .invalid
      | .complete sn rest => .complete sn (rest ++ more) := by
  by_cases h8 : buf.length < 8
  · simp [parsePreamble, h8]
  · have h8' : ¬ (buf ++ more).length < 8 := by
      rw [List.length_append]
      omega
    simp only [parsePreamble, if_neg h8, if_neg h8', getD_append_lt buf more (i := 4) (by omega),
      getD_append_lt buf more (i := 6) (by omega), getD_append_lt buf more (i := 7) (by omega),
      List.take_append_of_le_length (show 4 ≤ buf.length by omega)]
    generalize be16 (buf.getD 6 0) (buf.getD 7 0) = n
    by_cases hmagic : buf.take 4 ≠ preambleMagic ∨ buf.getD 4 0 ≠ preambleVersion
    · simp only [if_pos hmagic]
    · by_cases hn : n = 0 ∨ 127 < n
      · simp only [if_neg hmagic, if_pos hn]
      · by_cases hlen : buf.length < 8 + n
        · simp only [if_neg hmagic, if_neg hn, if_pos hlen]
        · have hlen' : ¬ (buf ++ more).length < 8 + n := by
            rw [List.length_append]
            omega
          simp only [if_neg hmagic, if_neg hn, if_neg hlen, if_neg hlen']
          rw [List.drop_append_of_le_length (by omega), List.drop_append_of_le_length (by omega),
            List.take_append_of_le_length (by rw [List.length_drop]; omega)]

theorem nextFrame_rest {buf payload rest : List UInt8} {type : UInt8} (h : nextFrame buf = .frame type payload rest) :
    rest.length < buf.length := by
  simp only [nextFrame] at h
  split at h
  · cases h
  · split at h
    · cases h
    · split at h
      · cases h
      · cases h
        rw [List.length_drop]
        omega

theorem parsePreamble_rest {buf sn rest : List UInt8} (h : parsePreamble buf = .complete sn rest) :
    rest.length < buf.length := by
  simp only [parsePreamble] at h
  split at h
  · cases h
  · split at h
    · cases h
    · split at h
      · cases h
      · split at h
        · cases h
        · cases h
          rw [List.length_drop]
          omega

theorem nextToken_prefixed (welcome : List UInt8 → Bool) : Prefixed (nextToken welcome) where
  empty s := by
    cases s <;> rfl
  shrinks {s buf a s' rest} h := by
    cases s with
    | preamble =>
        simp only [nextToken] at h
        split at h
        · cases h
        · cases h
        next sn rest' hp =>
          split at h
          · cases h
            exact parsePreamble_rest hp
          · cases h
    | framing =>
        simp only [nextToken] at h
        split at h
        · cases h
        · cases h
        next hf =>
          cases h
          exact nextFrame_rest hf
  token {s buf a s' rest} more h := by
    cases s with
    | preamble =>
        simp only [nextToken] at h ⊢
        rw [parsePreamble_append]
        cases hp : parsePreamble buf with
        | incomplete => simp [hp] at h
        | invalid => simp [hp] at h
        | complete =>
            simp only [hp] at h ⊢
            split at h
            next hwelcome =>
              cases h
              rw [if_pos hwelcome]
            · cases h
    | framing =>
        simp only [nextToken] at h ⊢
        rw [nextFrame_append]
        cases hf : nextFrame buf with
        | incomplete => simp [hf] at h
        | oversized => simp [hf] at h
        | frame =>
            simp only [hf] at h ⊢
            cases h
            rfl
  reject {s buf} more h := by
    cases s with
    | preamble =>
        simp only [nextToken] at h ⊢
        rw [parsePreamble_append]
        cases hp : parsePreamble buf with
        | incomplete => simp [hp] at h
        | invalid => rfl
        | complete =>
            simp only [hp] at h ⊢
            split at h
            · cases h
            next hwelcome => rw [if_neg hwelcome]
    | framing =>
        simp only [nextToken] at h ⊢
        rw [nextFrame_append]
        cases hf : nextFrame buf with
        | incomplete => simp [hf] at h
        | oversized => rfl
        | frame => simp [hf] at h

theorem nextToken_wait {g : List UInt8 → Bool} {s : ClientState} {buf : List UInt8}
    (h : nextToken g s buf = .wait) : buf.length < rxBufferSize := by
  cases s with
  | preamble =>
      simp only [nextToken, parsePreamble] at h
      simp only [rxBufferSize]
      split at h
      next hp =>
        split at hp
        · omega
        · split at hp
          · cases hp
          · split at hp
            · cases hp
            · split at hp
              · omega
              · cases hp
      · cases h
      · split at h <;> cases h
  | framing =>
      simp only [nextToken, nextFrame] at h
      simp only [rxBufferSize]
      split at h
      next hf =>
        split at hf
        · omega
        · split at hf
          · cases hf
          next hmax =>
            simp only [maxRtpPayloadSize] at hmax
            split at hf
            · omega
            · cases hf
      · cases h
      · cases h

end EtranProcessing.Ingress.Tokens
