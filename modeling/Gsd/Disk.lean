import Gsd.Bytes

/-!
The file behind a handle: its length and its bytes, changed only by the positioned writes
and the `ftruncate` the library issues, and read through `pread` and `mmap`. The operating
system here is the ideal one: every call transfers all it is asked for, except that no file
grows past `maxFileSize`, the largest `off_t`; a write that would end past it is refused with
`EINVAL` before anything is written, as Linux checks `pos + count` first. The allocator grants
every request of at most `PTRDIFF_MAX` bytes. A buffer in memory, `const void *buf` with its count, is
a function from offsets to bytes. `Sys` keeps with the file the log of the operations issued
on it, in program order, so that a crash can be placed between any two of them.
-/

namespace Gsd

/-- The largest file size: `off_t` is a signed 64-bit offset. -/
def maxFileSize : Nat := 2 ^ 63 - 1

/-- `PTRDIFF_MAX`: the allocator refuses a larger request. -/
def ptrdiffMax : Nat := 2 ^ 63 - 1

/-- The bytes of a list as a buffer. -/
def listBuf (l : List UInt8) : Nat → UInt8 := fun k => l.getD k 0

@[simp] theorem map_range_listBuf (l : List UInt8) : (List.range l.length).map (listBuf l) = l := by
  apply List.ext_getElem (by simp)
  intro k hk _
  simp [listBuf, List.getD_eq_getElem?_getD, List.getElem?_eq_getElem (by simpa using hk)]

theorem map_range_eq_of_getD {f : Nat → UInt8} {l : List UInt8} (h : ∀ k < l.length, f k = l.getD k 0) :
    (List.range l.length).map f = l := by
  conv => rhs; rw [← map_range_listBuf l]
  exact List.map_congr_left fun k hk => h k (List.mem_range.1 hk)

@[ext] structure Disk where
  size : Nat
  byte : Nat → UInt8

/-- One operation the library issues on the file. -/
inductive DiskOp
  | pwrite (offset count : Nat) (buf : Nat → UInt8)
  | ftruncate (length : Nat)

namespace Disk

/-- The file after a `pwrite` of `n` bytes of `buf` at `off`; a gap between the old end of
the file and `off` reads as zeros. -/
def write (d : Disk) (off n : Nat) (buf : Nat → UInt8) : Disk where
  size := if n = 0 then d.size else max d.size (off + n)
  byte i := if off ≤ i ∧ i < off + n then buf (i - off) else if i < d.size then d.byte i else 0

/-- The file after `ftruncate(fd, len)`. -/
def truncate (d : Disk) (len : Nat) : Disk where
  size := len
  byte i := if i < len ∧ i < d.size then d.byte i else 0

def apply (d : Disk) : DiskOp → Disk
  | .pwrite off n buf => d.write off n buf
  | .ftruncate len => d.truncate len

/-- The file after a sequence of operations, applied in order. -/
def applyAll (d : Disk) (ops : List DiskOp) : Disk := ops.foldl apply d

@[simp] theorem apply_pwrite (d : Disk) (off n : Nat) (buf : Nat → UInt8) :
    d.apply (.pwrite off n buf) = d.write off n buf := rfl

/-- What `pread` and a shared mapping see from `off` on: the file, then zeros past its end. -/
def view (d : Disk) (off : Nat) : Nat → UInt8 := fun k =>
  if off + k < d.size then d.byte (off + k) else 0

/-- No bytes past the end: what every file the library writes, from an empty one, satisfies. -/
def Clean (d : Disk) : Prop := ∀ i, d.size ≤ i → d.byte i = 0

theorem clean_write (d : Disk) (off n : Nat) (buf : Nat → UInt8) : (d.write off n buf).Clean := by
  intro i hi
  by_cases hn : n = 0
  · simp only [Disk.write, hn, if_true] at hi ⊢
    simp [show ¬ i < d.size by omega]
  · simp only [Disk.write, hn, if_false] at hi ⊢
    rw [if_neg (by omega), if_neg (by omega)]

theorem clean_truncate (d : Disk) (len : Nat) : (d.truncate len).Clean := by
  intro i hi
  simp only [Disk.truncate] at hi ⊢
  rw [if_neg (by omega)]

theorem clean_apply (d : Disk) (op : DiskOp) : (d.apply op).Clean := by
  cases op with
  | pwrite off n buf => exact clean_write d off n buf
  | ftruncate len => exact clean_truncate d len

theorem write_zero {d : Disk} (hc : d.Clean) (off : Nat) (buf : Nat → UInt8) : d.write off 0 buf = d := by
  ext i : 2
  · rfl
  · simp only [Disk.write, Nat.add_zero]
    rw [if_neg (by omega)]
    split_ifs with h
    · rfl
    · exact (hc i (by omega)).symm

theorem write_congr (d : Disk) (off n : Nat) {b b' : Nat → UInt8} (h : ∀ k < n, b k = b' k) :
    d.write off n b = d.write off n b' := by
  ext i : 2
  · rfl
  · simp only [Disk.write]
    split_ifs with hi
    · exact h _ (by omega)
    all_goals rfl

theorem write_append (d : Disk) (a n₁ n₂ : Nat) (b₁ b₂ : Nat → UInt8) :
    (d.write a n₁ b₁).write (a + n₁) n₂ b₂ =
      d.write a (n₁ + n₂) (fun k => if k < n₁ then b₁ k else b₂ (k - n₁)) := by
  ext i : 2
  · simp only [Disk.write]
    split_ifs <;> omega
  · simp only [Disk.write]
    split_ifs <;> first | rfl | omega | (congr 1; omega)

@[simp] theorem applyAll_nil (d : Disk) : d.applyAll [] = d := rfl

@[simp] theorem applyAll_append (d : Disk) (xs ys : List DiskOp) :
    d.applyAll (xs ++ ys) = (d.applyAll xs).applyAll ys := List.foldl_append _ _ _ _

@[simp] theorem applyAll_cons (d : Disk) (op : DiskOp) (ops : List DiskOp) :
    d.applyAll (op :: ops) = (d.apply op).applyAll ops := rfl

theorem view_eq (d : Disk) (off k : Nat) : d.view off k = d.view 0 (off + k) := by
  simp [view]

theorem view_of_lt (d : Disk) {off k : Nat} (h : off + k < d.size) : d.view off k = d.byte (off + k) :=
  if_pos h

@[simp] theorem size_write_zero (d : Disk) (off : Nat) (buf : Nat → UInt8) :
    (d.write off 0 buf).size = d.size := rfl

theorem size_write (d : Disk) {n : Nat} (off : Nat) (buf : Nat → UInt8) (h : n ≠ 0) :
    (d.write off n buf).size = max d.size (off + n) := if_neg h

theorem size_write_end (d : Disk) (n : Nat) (buf : Nat → UInt8) :
    (d.write d.size n buf).size = d.size + n := by
  by_cases h : n = 0 <;> simp [write, h]

theorem size_write_of_le (d : Disk) {off n : Nat} (buf : Nat → UInt8) (h : off + n ≤ d.size) :
    (d.write off n buf).size = d.size := by
  by_cases hn : n = 0 <;> simp [write, hn, h]

theorem byte_write_inside (d : Disk) {off i n : Nat} (buf : Nat → UInt8) (h1 : off ≤ i)
    (h2 : i < off + n) : (d.write off n buf).byte i = buf (i - off) := by
  simp [write, h1, h2]

theorem byte_write_outside (d : Disk) {off i n : Nat} (buf : Nat → UInt8)
    (h : i < off ∨ off + n ≤ i) (hi : i < d.size) : (d.write off n buf).byte i = d.byte i := by
  have : ¬ (off ≤ i ∧ i < off + n) := by omega
  simp [write, this, hi]

theorem view_write_self (d : Disk) {off n k : Nat} (buf : Nat → UInt8) (hk : k < n) :
    (d.write off n buf).view off k = buf k := by
  have hn : n ≠ 0 := by omega
  rw [view_of_lt _ (by rw [size_write _ _ _ hn]; omega), byte_write_inside _ _ (by omega) (by omega),
    Nat.add_sub_cancel_left]

theorem view_write_outside (d : Disk) {off off' n k : Nat} (buf : Nat → UInt8)
    (h : off' + k < off ∨ off + n ≤ off' + k) (hk : off' + k < d.size) :
    (d.write off n buf).view off' k = d.view off' k := by
  have hs : d.size ≤ (d.write off n buf).size := by
    by_cases hn : n = 0 <;> simp [write, hn]
  rw [view_of_lt _ (by omega), view_of_lt _ hk, byte_write_outside _ _ h hk]

end Disk

/-- The operation is a write inside `[lo, hi)`. -/
def DiskOp.Within (lo hi : Nat) : DiskOp → Prop
  | .pwrite off n _ => lo ≤ off ∧ off + n ≤ hi
  | .ftruncate _ => False

theorem DiskOp.Within.mono {op : DiskOp} {lo hi lo' hi' : Nat} (h : op.Within lo hi) (hlo : lo' ≤ lo)
    (hhi : hi ≤ hi') : op.Within lo' hi' := by
  cases op with
  | pwrite off n buf => exact ⟨by have := h.1; omega, by have := h.2; omega⟩
  | ftruncate => exact h.elim

/-- The file together with the log of the operations issued on it. -/
structure Sys where
  disk : Disk
  log : List DiskOp

namespace Sys

/-- Issue one operation: apply it to the file and append it to the log. -/
def issue (s : Sys) (op : DiskOp) : Sys := ⟨s.disk.apply op, s.log ++ [op]⟩

@[simp] theorem disk_issue (s : Sys) (op : DiskOp) : (s.issue op).disk = s.disk.apply op := rfl

@[simp] theorem log_issue (s : Sys) (op : DiskOp) : (s.issue op).log = s.log ++ [op] := rfl

/-- `s'` is `s` after the operations `ops`, in this order. -/
def Follows (s s' : Sys) (ops : List DiskOp) : Prop :=
  s'.log = s.log ++ ops ∧ s'.disk = s.disk.applyAll ops

theorem Follows.refl (s : Sys) : s.Follows s [] := ⟨by simp, rfl⟩

theorem Follows.issue (s : Sys) (op : DiskOp) : s.Follows (s.issue op) [op] := ⟨rfl, rfl⟩

theorem Follows.trans {s₁ s₂ s₃ : Sys} {xs ys : List DiskOp} (h₁ : s₁.Follows s₂ xs)
    (h₂ : s₂.Follows s₃ ys) : s₁.Follows s₃ (xs ++ ys) :=
  ⟨by rw [h₂.1, h₁.1, List.append_assoc], by rw [h₂.2, h₁.2, Disk.applyAll_append]⟩

end Sys

/-- `gsd_pwrite_retry` on the ideal system: the whole buffer goes out in one `pwrite`. A write
that would end past `maxFileSize` writes nothing, and the loop returns -1. A zero count issues
no call at all. -/
def gsdPwriteRetry (s : Sys) (buf : Nat → UInt8) (count offset : Nat) : Sys × Int :=
  if count = 0 then (s, 0)
  else if maxFileSize < offset + count then (s, -1)
  else (s.issue (.pwrite offset count buf), count)

/-- `gsd_pread_retry` on the ideal system: the number of bytes from `offset` up to `count` or to
the end of the file, whichever comes first, and the buffer it fills; -1 for an offset `pread`
refuses, a negative `off_t`. -/
def gsdPreadRetry (d : Disk) (count offset : Nat) : Int × (Nat → UInt8) :=
  if count ≠ 0 ∧ 2 ^ 63 ≤ offset then (-1, d.view offset)
  else (min count (d.size - offset), d.view offset)

theorem gsdPwriteRetry_of_le (s : Sys) (buf : Nat → UInt8) {count offset : Nat} (hc : count ≠ 0)
    (h : offset + count ≤ maxFileSize) :
    gsdPwriteRetry s buf count offset = (s.issue (.pwrite offset count buf), (count : Int)) := by
  simp [gsdPwriteRetry, hc, show ¬ maxFileSize < offset + count by omega]

theorem gsdPwriteRetry_of_gt (s : Sys) (buf : Nat → UInt8) {count offset : Nat} (hc : count ≠ 0)
    (h : maxFileSize < offset + count) : gsdPwriteRetry s buf count offset = (s, -1) := by
  simp [gsdPwriteRetry, hc, h]

theorem gsdPwriteRetry_eq_count {s : Sys} {buf : Nat → UInt8} {count offset : Nat}
    (h : (gsdPwriteRetry s buf count offset).2 = count) :
    count = 0 ∨ offset + count ≤ maxFileSize := by
  unfold gsdPwriteRetry at h
  split_ifs at h with h1 h2 <;> omega

theorem gsdPwriteRetry_fst {s : Sys} {buf : Nat → UInt8} {count offset : Nat}
    (h : (gsdPwriteRetry s buf count offset).2 = count) :
    (gsdPwriteRetry s buf count offset).1 =
      if count = 0 then s else s.issue (.pwrite offset count buf) := by
  unfold gsdPwriteRetry at h ⊢
  split_ifs at h ⊢ <;> first | rfl | omega

theorem gsdPwriteRetry_of_checked {s : Sys} {buf : Nat → UInt8} {count offset : Nat} (hc : count ≠ 0)
    (h : ¬ ((gsdPwriteRetry s buf count offset).2 = -1 ∨ (gsdPwriteRetry s buf count offset).2 ≠ count)) :
    (gsdPwriteRetry s buf count offset).1 = s.issue (.pwrite offset count buf) ∧
      offset + count ≤ maxFileSize := by
  have h2 : (gsdPwriteRetry s buf count offset).2 = count := by omega
  refine ⟨by rw [gsdPwriteRetry_fst h2, if_neg hc], ?_⟩
  exact (gsdPwriteRetry_eq_count h2).resolve_left hc

theorem gsdPwriteRetry_follows (s : Sys) (buf : Nat → UInt8) (count offset : Nat) :
    ∃ ops, s.Follows (gsdPwriteRetry s buf count offset).1 ops := by
  unfold gsdPwriteRetry
  split_ifs
  · exact ⟨[], Sys.Follows.refl s⟩
  · exact ⟨[], Sys.Follows.refl s⟩
  · exact ⟨_, Sys.Follows.issue s _⟩

@[simp] theorem gsdPreadRetry_snd (d : Disk) (count offset : Nat) :
    (gsdPreadRetry d count offset).2 = d.view offset := by
  unfold gsdPreadRetry; split <;> rfl

theorem gsdPreadRetry_of_le (d : Disk) {count offset : Nat} (h : offset + count ≤ d.size)
    (hd : d.size ≤ maxFileSize) : gsdPreadRetry d count offset = ((count : Int), d.view offset) := by
  unfold gsdPreadRetry maxFileSize at *
  rw [if_neg (by omega), min_eq_left (by omega)]

end Gsd
