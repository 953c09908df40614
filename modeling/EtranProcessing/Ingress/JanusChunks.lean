import EtranProcessing.Ingress.JanusAnswer

namespace EtranProcessing.Ingress.JanusChunks

open State JsonText JanusAnswer Library.Buffers Library.RawMemory

theorem crlf_length : crlf.length = 2 := rfl

example (fuel : Nat) (decoded : CString) : mjDecode (fuel + 1) [] decoded = .done none := by rw [mjDecode, if_pos rfl]

theorem mjDecode_line {fuel : Nat} {chunk decoded line rest stop : CString} {count : Nat}
    (hchunk : chunk = line ++ (crlf ++ rest)) (hline : ¬ crlf <:+: line)
    (hnumber : strtoul16 chunk = some (count, stop)) :
    mjDecode (fuel + 1) chunk decoded =
      (if stop.length < (crlf ++ rest).length then .done none
      else if count = 0 then do
        let _ ← minus responseSize (decoded.length + 1)
        .done (some decoded)
      else do
        let room ← minus responseSize decoded.length
        if room ≤ count ∨ rest.length < count + 2 then .done none
        else do
          let stop ← readAt rest count 2
          if stop ≠ crlf then .done none
          else do
            let data ← readAt rest 0 count
            let _ ← minus responseSize (decoded.length + count)
            mjDecode fuel (rest.drop (count + 2)) (decoded ++ data)) := by
  have hne : chunk ≠ [] := by
    rw [hchunk]
    simp [crlf]
  have hfind : strstr crlf chunk = some (crlf ++ rest) := by
    rw [hchunk]
    exact strstr_line hline rest
  rw [mjDecode, if_neg hne, hnumber, hfind]
  rfl

theorem mjDecode_done (fuel : Nat) (chunk decoded : CString) (hfuel : chunk.length < fuel)
    (hdecoded : decoded.length < responseSize) : ∃ answer, mjDecode fuel chunk decoded = .done answer := by
  induction fuel generalizing chunk decoded with
  | zero => omega
  | succ fuel ih =>
      by_cases hnil : chunk = []
      · exact ⟨none, by rw [mjDecode, if_pos hnil]⟩
      cases hnumber : strtoul16 chunk with
      | none => exact ⟨none, by rw [mjDecode, if_neg hnil, hnumber]⟩
      | some number =>
          cases hfind : strstr crlf chunk with
          | none => exact ⟨none, by rw [mjDecode, if_neg hnil, hnumber, hfind]⟩
          | some found =>
              obtain ⟨count, stop⟩ := number
              obtain ⟨line, rest, hchunk, rfl, hline⟩ := strstr_first hfind
              rw [mjDecode_line hchunk hline hnumber]
              split
              · exact ⟨none, rfl⟩
              split
              · rw [minus, if_pos (Nat.succ_le_of_lt hdecoded)]
                exact ⟨some decoded, rfl⟩
              have hminus : minus responseSize decoded.length = .done (responseSize - decoded.length) :=
                minus_eq_done.mpr ⟨Nat.le_of_lt hdecoded, rfl⟩
              simp only [hminus, bind, Checked.bind]
              split
              · exact ⟨none, rfl⟩
              next hguard =>
                simp only [not_or, not_le, not_lt] at hguard
                obtain ⟨hroom, hlong⟩ := hguard
                have hstop : readAt rest count 2 = .done (slice rest count 2) := readAt_eq_done.mpr ⟨hlong, rfl⟩
                have hdata : readAt rest 0 count = .done (rest.take count) :=
                  readAt_eq_done.mpr ⟨by omega, rfl⟩
                have hcopy : minus responseSize (decoded.length + count) =
                    .done (responseSize - (decoded.length + count)) := minus_eq_done.mpr ⟨by omega, rfl⟩
                simp only [hstop]
                split
                · exact ⟨none, rfl⟩
                · simp only [hdata, hcopy]
                  apply ih
                  · have hlen := congrArg List.length hchunk
                    simp only [List.length_append, crlf_length] at hlen
                    rw [List.length_drop]
                    omega
                  · rw [List.length_append, List.length_take]
                    omega

theorem mjDecode_coded {coded body : CString} (h : Coded coded body) (fuel : Nat) (decoded : CString)
    (hfuel : coded.length < fuel) (hroom : decoded.length + coded.length < responseSize) :
    mjDecode fuel coded decoded = .done (some (decoded ++ body)) := by
  induction h generalizing fuel decoded with
  | @last line trailer size =>
      obtain ⟨fuel, rfl⟩ : ∃ n, fuel = n + 1 := ⟨fuel - 1, by omega⟩
      obtain ⟨extension, hnumber⟩ := @strtoul16_http _ trailer _ size (by omega)
      have hafter : ¬ (extension ++ (crlf ++ trailer)).length < (crlf ++ trailer).length := by
        rw [List.length_append]
        omega
      rw [mjDecode_line rfl size.oneLine hnumber, if_neg hafter, if_pos rfl, minus,
        if_pos (by rw [List.length_append] at hroom; omega)]
      simp [bind, Checked.bind]
  | @chunk line data rest body size some _ ih =>
      obtain ⟨fuel, rfl⟩ : ∃ n, fuel = n + 1 := ⟨fuel - 1, by omega⟩
      simp only [List.length_append, crlf_length] at hfuel hroom
      have hsize : data.length < 2 ^ 64 := by rw [responseSize] at hroom; omega
      obtain ⟨extension, hnumber⟩ := @strtoul16_http _ (data ++ (crlf ++ rest)) _ size hsize
      have hafter : ¬ (extension ++ (crlf ++ (data ++ (crlf ++ rest)))).length <
          (crlf ++ (data ++ (crlf ++ rest))).length := by
        rw [List.length_append]
        omega
      have hsome : data.length ≠ 0 := fun hnil => some (List.length_eq_zero_iff.mp hnil)
      have hminus : minus responseSize decoded.length = .done (responseSize - decoded.length) :=
        minus_eq_done.mpr ⟨by omega, rfl⟩
      have hguard : ¬ (responseSize - decoded.length ≤ data.length ∨
          (data ++ (crlf ++ rest)).length < data.length + 2) := by
        simp only [List.length_append, crlf_length]
        omega
      have hstop : readAt (data ++ (crlf ++ rest)) data.length 2 = .done crlf := by
        apply readAt_eq_done.mpr
        refine ⟨by simp only [List.length_append, crlf_length]; omega, ?_⟩
        rw [slice, List.drop_left]
        rfl
      have hdata : readAt (data ++ (crlf ++ rest)) 0 data.length = .done data := by
        apply readAt_eq_done.mpr
        refine ⟨by simp only [List.length_append, crlf_length]; omega, ?_⟩
        rw [slice_zero, List.take_left]
      have hcopy : minus responseSize (decoded.length + data.length) =
          .done (responseSize - (decoded.length + data.length)) := minus_eq_done.mpr ⟨by omega, rfl⟩
      have hdrop : (data ++ (crlf ++ rest)).drop (data.length + 2) = rest := by
        rw [← List.drop_drop, List.drop_left]
        rfl
      rw [mjDecode_line rfl size.oneLine hnumber, if_neg hafter, if_neg hsome]
      simp only [hminus, bind, Checked.bind, if_neg hguard, hstop, hdata, hcopy, hdrop]
      rw [if_neg (by simp), ih fuel (decoded ++ data) (by omega) (by rw [List.length_append]; omega),
        List.append_assoc]

theorem mjDecode_matched (fuel : Nat) (chunk decoded text : CString)
    (h : mjDecode fuel chunk decoded = .done (some text)) : ∃ body, Matched chunk body ∧ text = decoded ++ body := by
  induction fuel generalizing chunk decoded with
  | zero => cases h
  | succ fuel ih =>
      by_cases hnil : chunk = []
      · rw [mjDecode, if_pos hnil] at h
        cases h
      cases hnumber : strtoul16 chunk with
      | none => rw [mjDecode, if_neg hnil, hnumber] at h; cases h
      | some number =>
          cases hfind : strstr crlf chunk with
          | none => rw [mjDecode, if_neg hnil, hnumber, hfind] at h; cases h
          | some found =>
              obtain ⟨count, stop⟩ := number
              obtain ⟨line, rest, hchunk, rfl, hline⟩ := strstr_first hfind
              rw [mjDecode_line hchunk hline hnumber] at h
              split at h
              · cases h
              next hafter =>
                have size : SizeLine line count := by
                  apply sizeLine_of_strtoul hline (hchunk ▸ hnumber)
                  omega
                split at h
                next hzero =>
                  simp only [bind_eq_done, minus_eq_done, Checked.done.injEq, Option.some.injEq] at h
                  obtain ⟨-, -, rfl⟩ := h
                  subst hzero
                  exact ⟨[], hchunk ▸ .last rest size, (List.append_nil _).symm⟩
                next hpositive =>
                  obtain ⟨room, -, h⟩ := bind_eq_done.mp h
                  split at h
                  · cases h
                  obtain ⟨tail, htail, h⟩ := bind_eq_done.mp h
                  split at h
                  · cases h
                  next hcrlf =>
                    obtain ⟨data, hdata, h⟩ := bind_eq_done.mp h
                    obtain ⟨-, -, h⟩ := bind_eq_done.mp h
                    obtain ⟨body, hbody, rfl⟩ := ih _ _ h
                    obtain ⟨hlong, rfl⟩ := readAt_eq_done.mp htail
                    obtain ⟨-, rfl⟩ := readAt_eq_done.mp hdata
                    rw [not_not] at hcrlf
                    have hlen : (slice rest 0 count).length = count := length_slice (by omega)
                    have hrest : rest = slice rest 0 count ++ (crlf ++ rest.drop (count + 2)) := by
                      rw [← hcrlf, slice_zero, slice, ← List.drop_drop, List.take_append_drop, List.take_append_drop]
                    refine ⟨slice rest 0 count ++ body, ?_, by rw [List.append_assoc]⟩
                    rw [hchunk, hrest]
                    have hfirst : slice (slice rest 0 count ++ (crlf ++ rest.drop (count + 2))) 0 count =
                        slice rest 0 count := by rw [← hrest]
                    rw [hfirst]
                    apply Matched.chunk
                    · rwa [hlen]
                    · intro hnone
                      rw [hnone] at hlen
                      exact hpositive hlen.symm
                    · exact hbody

theorem mjText_announced {response coded : CString} (h : Announced response coded) :
    mjText response = mjDecode (coded.length + 1) coded [] := by
  have hdrop : (crlf ++ crlf ++ coded).drop 4 = coded := rfl
  rw [mjText, h.body]
  simp only [h.chunked, if_true, hdrop]

theorem mjText_done (response : CString) : ∃ answer, mjText response = .done answer := by
  rw [mjText]
  split
  · exact ⟨_, rfl⟩
  · split
    · exact mjDecode_done _ _ [] (Nat.lt_succ_self _) (by decide)
    · exact ⟨_, rfl⟩

theorem coded_digit {coded body : CString} (h : Coded coded body) :
    ∃ c, coded.head? = some c ∧ MediaV2.isHexDigit c = true := by
  have hline {line rest : CString} {size : Nat} (hsize : HttpSize line size) :
      ∃ c, (line ++ rest).head? = some c ∧ MediaV2.isHexDigit c = true := by
    obtain ⟨digits, extension, rfl, hne, hhex, -⟩ := hsize.parts
    cases digits with
    | nil => exact absurd rfl hne
    | cons c digits => exact ⟨c, rfl, hhex c List.mem_cons_self⟩
  cases h with
  | last trailer size => exact hline size
  | chunk size => exact hline size

def negativeChunk : CString := bytes "-FFFFFFFFFFFFFFFB\r\nhello\r\n0\r\n\r\n"

def negativeResponse : CString := bytes "HTTP/1.1 200 OK\r\nTransfer-Encoding: chunked\r\n\r\n" ++ negativeChunk

end EtranProcessing.Ingress.JanusChunks
