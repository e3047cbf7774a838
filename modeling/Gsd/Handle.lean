import Gsd.Layout

/-!
The open-file handle, `struct gsd_handle`. Buffers are modelled as functions from an offset
(for bytes) or a slot (for index entries) to their contents; a buffer's allocated size is a
field where the C code keeps it (`names_allocated_size`, `append_index_size`) and the ghost field
`indexSlots` where it does not. The name cache `names` is the buffer of pairs itself, so that
its length is the number of pairs allocated.
-/

namespace Gsd

/-- `struct gsd_name_id_pair`: `slot` is the namelist entry the `name` pointer points into. -/
structure NameIdPair where
  slot : Nat
  id : Nat
  deriving DecidableEq, Repr, Inhabited

/-- `struct gsd_handle`. `index` is the whole block in memory in `readwrite` mode, the
mapped block in `readonly` mode, and the cache of unwritten entries in `append` mode. -/
structure GsdHandle where
  header : GsdHeader
  index : Nat → GsdIndexEntry
  /-- The number of entries the buffer behind `index` was allocated or mapped with. -/
  indexSlots : Nat
  namelist : Nat → UInt8
  namelistNumEntries : Nat
  indexWrittenEntries : Nat
  indexNumEntries : Nat
  curFrame : Nat
  fileSize : Nat
  openFlags : GsdOpenFlag
  names : List NameIdPair
  namelistWrittenEntries : Nat
  namesAllocatedSize : Nat
  appendIndexSize : Nat

/-- What a call that writes leaves behind: the file with its log, the handle, and the status
it returns. As in C, a failing call keeps the changes it made before failing. -/
structure Outcome where
  sys : Sys
  handle : GsdHandle
  status : Except GsdError Unit

/-- Continue with `k` after a step that succeeded; a failed step ends the call. -/
def Outcome.andThen (o : Outcome) (k : Sys → GsdHandle → Outcome) : Outcome :=
  match o.status with
  | .ok () => k o.sys o.handle
  | .error _ => o

@[simp] theorem Outcome.andThen_ok (s : Sys) (h : GsdHandle) (k : Sys → GsdHandle → Outcome) :
    (Outcome.mk s h (.ok ())).andThen k = k s h := rfl

@[simp] theorem Outcome.andThen_error (s : Sys) (h : GsdHandle) (e : GsdError)
    (k : Sys → GsdHandle → Outcome) : (Outcome.mk s h (.error e)).andThen k = ⟨s, h, .error e⟩ := rfl

theorem Outcome.andThen_eq_ok {o : Outcome} {k : Sys → GsdHandle → Outcome}
    (hk : (o.andThen k).status = .ok ()) : o.status = .ok () ∧ o.andThen k = k o.sys o.handle := by
  obtain ⟨s, h, st⟩ := o
  cases st with
  | ok u => exact ⟨rfl, rfl⟩
  | error e => cases hk

theorem Outcome.andThen_assoc (o : Outcome) (k k' : Sys → GsdHandle → Outcome) :
    (o.andThen k).andThen k' = o.andThen fun s h => (k s h).andThen k' := by
  obtain ⟨s, h, _ | u⟩ := o <;> rfl

/-- Size arithmetic in `size_t`/`uint64_t`: `a - b` wraps below zero. -/
def sub64 (a b : Nat) : Nat := (a + 2 ^ 64 - b) % 2 ^ 64

theorem sub64_of_le {a b : Nat} (h : b ≤ a) (ha : a < 2 ^ 64) : sub64 a b = a - b := by
  unfold sub64; rw [show a + 2 ^ 64 - b = (a - b) + 2 ^ 64 by omega, Nat.add_mod_right,
    Nat.mod_eq_of_lt (by omega)]

/-- `memcpy` of `bytes` into a buffer at `off`. -/
def storeBytes (buf : Nat → UInt8) (off : Nat) (bytes : List UInt8) : Nat → UInt8 := fun i =>
  if off ≤ i ∧ i < off + bytes.length then bytes.getD (i - off) 0 else buf i

theorem storeBytes_of_lt (buf : Nat → UInt8) {off i : Nat} (bytes : List UInt8) (h : i < off) :
    storeBytes buf off bytes i = buf i := by
  simp [storeBytes, show ¬ off ≤ i by omega]

theorem storeBytes_of_ge (buf : Nat → UInt8) {off i : Nat} (bytes : List UInt8)
    (h : off + bytes.length ≤ i) : storeBytes buf off bytes i = buf i := by
  simp [storeBytes, show ¬ i < off + bytes.length by omega]

namespace GsdHandle

/-- The C string `handle->namelist[slot].name` points to, read up to the end of the buffer. -/
def nameAt (h : GsdHandle) (slot : Nat) : List UInt8 :=
  cstrAt h.namelist (namelistEntrySize * slot)
    (namelistEntrySize * h.header.namelistAllocatedEntries - namelistEntrySize * slot)

/-- `handle->names[i]`. -/
def pair (h : GsdHandle) (i : Nat) : NameIdPair := h.names.getD i default

/-- The string `handle->names[i].name` points to. -/
def nameOf (h : GsdHandle) (i : Nat) : List UInt8 := h.nameAt (h.pair i).slot

def nameCStr (h : GsdHandle) (slot : Nat) : CStr := ⟨h.nameAt slot, cstrAt_no_nul _ _ _⟩

/-- `names[0, k)` is sorted by `strcmp`, as `qsort` leaves it. -/
def NamesSorted (h : GsdHandle) (k : Nat) : Prop :=
  ∀ i j, i ≤ j → j < k → StrLe (h.nameOf i) (h.nameOf j)

end GsdHandle

end Gsd
