import Mathlib

namespace EtranProcessing.Library.Buffers

variable {α : Type}

def slice (buf : List α) (offset size : Nat) : List α := (buf.drop offset).take size

def overwrite (buf : List α) (offset : Nat) (data : List α) : List α :=
  buf.take offset ++ data ++ buf.drop (offset + data.length)

theorem length_slice {buf : List α} {offset size : Nat} (h : offset + size ≤ buf.length) :
    (slice buf offset size).length = size := by
  rw [slice, List.length_take, List.length_drop]
  omega

theorem slice_zero (buf : List α) (size : Nat) : slice buf 0 size = buf.take size := rfl

theorem slice_add (buf : List α) (offset n k : Nat) :
    slice buf offset (n + k) = slice buf offset n ++ slice buf (offset + n) k := by
  rw [slice, slice, slice, List.take_add, List.drop_drop]

variable {buf data : List α}

theorem length_overwrite {offset : Nat} (h : offset + data.length ≤ buf.length) :
    (overwrite buf offset data).length = buf.length := by
  simp only [overwrite, List.length_append, List.length_take, List.length_drop]
  omega

theorem slice_overwrite_self {offset : Nat} (h : offset ≤ buf.length) :
    slice (overwrite buf offset data) offset data.length = data := by
  have hleading : (buf.take offset).length = offset := by rw [List.length_take]; omega
  rw [slice, overwrite, List.append_assoc, List.drop_left' hleading, List.take_left]

theorem drop_overwrite {offset at' : Nat} (hfits : offset ≤ buf.length)
    (h : offset + data.length ≤ at') : (overwrite buf offset data).drop at' = buf.drop at' := by
  have hleading : (buf.take offset ++ data).length = offset + data.length := by
    rw [List.length_append, List.length_take]
    omega
  have hsplit : at' = offset + data.length + (at' - (offset + data.length)) := by omega
  rw [overwrite, hsplit, ← List.drop_drop, List.drop_left' hleading, List.drop_drop]

theorem slice_overwrite_after {offset at' size : Nat} (hfits : offset ≤ buf.length)
    (h : offset + data.length ≤ at') : slice (overwrite buf offset data) at' size = slice buf at' size := by
  rw [slice, slice, drop_overwrite hfits h]

theorem slice_overwrite_before {offset at' size : Nat} (hfits : offset ≤ buf.length)
    (h : at' + size ≤ offset) : slice (overwrite buf offset data) at' size = slice buf at' size := by
  have hsize : size = at' + size - at' := by omega
  have hshort : at' + size ≤ (buf.take offset).length := by rw [List.length_take]; omega
  rw [slice, slice, hsize, ← List.drop_take, ← List.drop_take, overwrite, List.append_assoc,
    List.take_append_of_le_length hshort, List.take_take, Nat.min_eq_left h]

theorem slice_append {buf more : List α} {offset size : Nat} (h : offset + size ≤ buf.length) :
    slice (buf ++ more) offset size = slice buf offset size := by
  rw [slice, slice, List.drop_append_of_le_length (by omega), List.take_append_of_le_length (by rw [List.length_drop]; omega)]

theorem slice_front {buf : List α} {n offset size : Nat} (h : offset + size ≤ n) :
    slice (slice buf 0 n) offset size = slice buf offset size := by
  have hsplit : size ≤ n - offset := by omega
  rw [slice_zero, slice, slice, List.drop_take, List.take_take, Nat.min_eq_left hsplit]

theorem slice_overwrite_front {buf data : List α} {offset : Nat} (h : offset ≤ buf.length) :
    slice (overwrite buf offset data) 0 (offset + data.length) = slice buf 0 offset ++ data := by
  rw [slice_add, Nat.zero_add, slice_overwrite_before h (by omega), slice_overwrite_self h]

def cut (buf : List α) : Nat → List Nat → List (List α)
  | _, [] => []
  | offset, size :: sizes => slice buf offset size :: cut buf (offset + size) sizes

theorem flatten_cut (buf : List α) (sizes : List Nat) (offset : Nat) :
    (cut buf offset sizes).flatten = slice buf offset sizes.sum := by
  induction sizes generalizing offset with
  | nil => simp [cut, slice]
  | cons size sizes ih => rw [cut, List.flatten_cons, ih, List.sum_cons, slice_add]

theorem flatten_cut_all {buf : List α} {sizes : List Nat} (h : sizes.sum = buf.length) : (cut buf 0 sizes).flatten = buf := by
  rw [flatten_cut, h, slice_zero, List.take_length]

theorem cut_flatten (parts : List (List α)) (rest : List α) :
    cut (parts.flatten ++ rest) 0 (parts.map List.length) = parts := by
  suffices h : ∀ before : List α, cut (before ++ parts.flatten ++ rest) before.length (parts.map List.length) = parts by
    simpa using h []
  induction parts with
  | nil => exact fun before => rfl
  | cons part parts ih =>
      intro before
      have hnext := ih (before ++ part)
      rw [List.append_assoc before, List.length_append] at hnext
      rw [List.map_cons, cut, List.flatten_cons, hnext]
      simp [slice]

theorem slice_all {buf : List α} {first second : Nat} (h : first + second = buf.length) :
    slice buf 0 first ++ slice buf first second = buf := by
  have hsplit := slice_add buf 0 first second
  rw [Nat.zero_add] at hsplit
  rw [← hsplit, h, slice_zero, List.take_length]

end EtranProcessing.Library.Buffers
