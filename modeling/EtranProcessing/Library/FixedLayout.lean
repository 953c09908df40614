import EtranProcessing.Library.Buffers
import EtranProcessing.Library.LittleEndian

namespace EtranProcessing.Library.FixedLayout

open Buffers LittleEndian

abbrev Bytes := List UInt8

section Words

def put16 (v : UInt16) : Bytes := toBytes 2 v.toNat
def put32 (v : UInt32) : Bytes := toBytes 4 v.toNat
def put64 (v : UInt64) : Bytes := toBytes 8 v.toNat

def get16 (b : Bytes) : UInt16 := UInt16.ofNat (ofBytes b)
def get32 (b : Bytes) : UInt32 := UInt32.ofNat (ofBytes b)
def get64 (b : Bytes) : UInt64 := UInt64.ofNat (ofBytes b)

@[simp] theorem length_put16 (v : UInt16) : (put16 v).length = 2 := length_toBytes 2 _

@[simp] theorem length_put32 (v : UInt32) : (put32 v).length = 4 := length_toBytes 4 _

@[simp] theorem length_put64 (v : UInt64) : (put64 v).length = 8 := length_toBytes 8 _

@[simp] theorem get16_put16 (v : UInt16) : get16 (put16 v) = v := by
  rw [get16, put16, ofBytes_toBytes_of_lt v.toNat_lt, UInt16.ofNat_toNat]

@[simp] theorem get32_put32 (v : UInt32) : get32 (put32 v) = v := by
  rw [get32, put32, ofBytes_toBytes_of_lt v.toNat_lt, UInt32.ofNat_toNat]

@[simp] theorem get64_put64 (v : UInt64) : get64 (put64 v) = v := by
  rw [get64, put64, ofBytes_toBytes_of_lt v.toNat_lt, UInt64.ofNat_toNat]

theorem put32_get32 {b : Bytes} (h : b.length = 4) : put32 (get32 b) = b := by
  have hlt := ofBytes_lt b
  rw [h] at hlt
  rw [put32, get32, UInt32.toNat_ofNat_of_lt' hlt, toBytes_of_length h]

theorem put64_get64 {b : Bytes} (h : b.length = 8) : put64 (get64 b) = b := by
  have hlt := ofBytes_lt b
  rw [h] at hlt
  rw [put64, get64, UInt64.toNat_ofNat_of_lt' hlt, toBytes_of_length h]

end Words

section Arrays

variable {α : Type} {n k : Nat}

def copied [Zero α] (n : Nat) (l : List α) : Vector α n := Vector.ofFn fun i => l.getD i 0

theorem copied_toList [Zero α] {l : List α} (h : l.length ≤ n) :
    (copied n l).toList = l ++ List.replicate (n - l.length) 0 := by
  refine List.ext_getElem (by simp [h]) fun i hi _ => ?_
  simp only [copied, Vector.getElem_toList, Vector.getElem_ofFn, List.getD_eq_getElem?_getD]
  by_cases hlt : i < l.length
  · simp [hlt]
  · simp [List.getElem_append, hlt]

theorem copied_full [Zero α] {l : List α} (h : l.length = n) : (copied n l).toList = l := by
  rw [copied_toList (Nat.le_of_eq h), h, Nat.sub_self, List.replicate_zero, List.append_nil]

@[simp] theorem copied_array [Zero α] (v : Vector α n) : copied n v.toList = v :=
  Vector.toList_inj.mp (copied_full v.length_toList)

def items (get : Bytes → α) (k n : Nat) (b : Bytes) : Vector α n := Vector.ofFn fun i => get (slice b (k * i) k)

def stored (put : α → Bytes) (v : Vector α n) : Bytes := v.toList.flatMap put

variable {put : α → Bytes} {get : Bytes → α}

theorem length_flatMap_put (hput : ∀ a, (put a).length = k) (l : List α) :
    (l.flatMap put).length = k * l.length := by
  simp [List.length_flatMap, hput, Nat.mul_comm]

@[simp] theorem length_stored (hput : ∀ a, (put a).length = k) (v : Vector α n) :
    (stored put v).length = k * n := by
  rw [stored, length_flatMap_put hput, v.length_toList]

theorem slice_flatMap (hput : ∀ a, (put a).length = k) (l : List α) (i : Nat) (hi : i < l.length) :
    slice (l.flatMap put) (k * i) k = put l[i] := by
  induction l generalizing i with
  | nil => exact absurd hi (Nat.not_lt_zero i)
  | cons a l ih =>
      cases i with
      | zero => rw [slice, List.flatMap_cons, Nat.mul_zero, List.drop_zero, List.take_left' (hput a), List.getElem_cons_zero]
      | succ i =>
          have hskip : k * (i + 1) = (put a).length + k * i := by rw [hput, Nat.mul_succ, Nat.add_comm]
          rw [List.flatMap_cons, slice, hskip, ← List.drop_drop, List.drop_left, List.getElem_cons_succ]
          exact ih i (Nat.lt_of_succ_lt_succ hi)

theorem items_stored {f : α → α} (hput : ∀ a, (put a).length = k)
    (hget : ∀ a, get (put a) = f a) (v : Vector α n) : items get k n (stored put v) = v.map f := by
  apply Vector.ext
  intro i hi
  rw [items, Vector.getElem_ofFn, stored, slice_flatMap hput v.toList i (by simpa using hi), hget]
  simp

theorem items_stored_exact (hput : ∀ a, (put a).length = k)
    (hget : ∀ a, get (put a) = a) (v : Vector α n) : items get k n (stored put v) = v :=
  (items_stored hput (f := id) hget v).trans (Vector.map_id v)

theorem slices_join (b : Bytes) (hb : b.length = k * n) : (List.range n).flatMap (fun i => slice b (k * i) k) = b := by
  induction n generalizing b with
  | zero => rw [List.range_zero, List.flatMap_nil, List.length_eq_zero_iff.mp (hb.trans (Nat.mul_zero k))]
  | succ n ih =>
      have hfront : (b.take (k * n)).length = k * n := by
        rw [List.length_take, hb, Nat.mul_succ]
        omega
      have hlast : slice b (k * n) k = b.drop (k * n) := by
        rw [slice, List.take_of_length_le]
        rw [List.length_drop, hb, Nat.mul_succ]
        omega
      have hrest := ih (b.take (k * n)) hfront
      have hsame : (List.range n).flatMap (fun i => slice b (k * i) k) = b.take (k * n) := by
        refine Eq.trans (List.flatMap_congr fun i hi => ?_) hrest
        have hle : k * i + k ≤ k * n := by
          rw [← Nat.mul_succ]
          exact Nat.mul_le_mul_left k (List.mem_range.mp hi)
        rw [← slice_zero, slice_front hle]
      rw [List.range_succ, List.flatMap_append, hsame, List.flatMap_singleton, hlast, List.take_append_drop]

theorem stored_items {b : Bytes}
    (hget : ∀ c : Bytes, c.length = k → put (get c) = c) (hb : b.length = k * n) : stored put (items get k n b) = b := by
  have hlist : (items get k n b).toList = (List.range n).map fun i => get (slice b (k * i) k) := by
    refine List.ext_getElem (by simp) fun i hi _ => ?_
    simp [items]
  rw [stored, hlist, List.flatMap_map]
  refine Eq.trans (List.flatMap_congr fun i hi => ?_) (slices_join b hb)
  have hle : k * i + k ≤ b.length := by
    rw [hb, ← Nat.mul_succ]
    exact Nat.mul_le_mul_left k (List.mem_range.mp hi)
  exact hget _ (length_slice hle)

end Arrays

section Strings

variable {α : Type} [Zero α] [DecidableEq α] {n : Nat}

def cString (l : List α) : List α := l.takeWhile (· ≠ 0)

def cleared (v : Vector α n) : Vector α n := copied n (cString v.toList)

theorem length_cString_le (v : Vector α n) : (cString v.toList).length ≤ n := by
  have hle := (List.takeWhile_prefix (p := (· ≠ (0 : α))) (l := v.toList)).length_le
  rwa [v.length_toList] at hle

theorem cleared_toList (v : Vector α n) :
    (cleared v).toList = cString v.toList ++ List.replicate (n - (cString v.toList).length) 0 :=
  copied_toList (length_cString_le v)

theorem ne_zero_of_mem_cString {l : List α} {a : α} (h : a ∈ cString l) : a ≠ 0 := by
  simpa using List.all_eq_true.mp List.all_takeWhile a h

theorem cString_padded {l : List α} (h : ∀ a ∈ l, a ≠ 0) (m : Nat) : cString (l ++ List.replicate m 0) = l := by
  rw [cString, List.takeWhile_append_of_pos fun a ha => by simpa using h a ha]
  cases m with
  | zero => simp
  | succ m => simp [List.replicate_succ]

@[simp] theorem cString_cleared (v : Vector α n) : cString (cleared v).toList = cString v.toList := by
  rw [cleared_toList]
  exact cString_padded (fun a ha => ne_zero_of_mem_cString ha) _

@[simp] theorem cleared_cleared (v : Vector α n) : cleared (cleared v) = cleared v := by
  rw [cleared, cString_cleared, cleared]

theorem zero_mem_iff (v : Vector α n) : 0 ∈ v.toList ↔ (cString v.toList).length < n := by
  constructor
  · intro h
    by_contra hfull
    have hall : cString v.toList = v.toList :=
      (List.takeWhile_prefix _).eq_of_length_le (by rw [v.length_toList]; exact Nat.not_lt.mp hfull)
    exact ne_zero_of_mem_cString (hall ▸ h) rfl
  · intro h
    by_contra hfree
    have hall : cString v.toList = v.toList := by
      simpa using cString_padded (l := v.toList) (fun a ha hzero => hfree (hzero ▸ ha)) 0
    rw [hall, v.length_toList] at h
    exact absurd h (Nat.lt_irrefl n)

end Strings

end EtranProcessing.Library.FixedLayout
