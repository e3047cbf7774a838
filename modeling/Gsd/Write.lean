import Gsd.Open

/-!
Writing: `gsd_write_chunk`, `gsd_end_frame` and `gsd_expand_index`. A chunk's bytes go to the
end of the file at once; its index entry is staged in memory and reaches the file only at the
next `gsd_end_frame`, which writes the unwritten entries at the end of the index block, then
the new namelist entries, and re-sorts the name cache. When the block is full,
`gsd_expand_index` doubles it and moves it to the end of the file: in `readwrite` mode by
writing the whole in-memory index, in `append` mode by copying the block on disk in pieces of
`GSD_COPY_BUFFER_SIZE` bytes and zero-filling the rest; then it rewrites the header.
Positions and counts are computed in 64 bits as in the source.
-/

namespace Gsd

/-- An array of index entries as the bytes `pwrite` sends. -/
def entriesBuf (index : Nat → GsdIndexEntry) : Nat → UInt8 :=
  fun k => (index (k / entrySize)).toBytes.getD (k % entrySize) 0

/-- `index[slot] = entry`. -/
def setEntry (index : Nat → GsdIndexEntry) (slot : Nat) (entry : GsdIndexEntry) :
    Nat → GsdIndexEntry :=
  fun i => if i = slot then entry else index i

/-- The header rewrite that ends `gsd_expand_index`. -/
def writeHeader (s : Sys) (h : GsdHandle) : Outcome :=
  let (s, w) := gsdPwriteRetry s (listBuf h.header.toBytes) headerSize 0
  if w ≠ headerSize then ⟨s, h, .error .io⟩ else ⟨s, h, .ok ()⟩

/-- The number of bytes one pass of a copy loop moves: a full buffer, or what is left. -/
def copyPiece (remaining : Nat) : Nat :=
  if remaining < gsdCopyBufferSize then remaining else gsdCopyBufferSize

/-- The first loop of the `append` branch: copy `oldBytes` bytes of the old block from `oldLoc`
to `newLoc`; the result is `total_bytes_written`. -/
def copyIndexLoop (oldLoc newLoc oldBytes : Nat) : Nat → Sys → Nat → Sys × Except GsdError Nat
  | 0, s, total => (s, .ok total)
  | fuel + 1, s, total =>
    if total < oldBytes then
      let n := copyPiece (oldBytes - total)
      let (r, buf) := gsdPreadRetry s.disk n (oldLoc + total)
      if r = -1 ∨ r ≠ n then (s, .error .io) else
      let (s, w) := gsdPwriteRetry s buf n (newLoc + total)
      if w = -1 ∨ w ≠ n then (s, .error .io) else
      copyIndexLoop oldLoc newLoc oldBytes fuel s (total + n)
    else (s, .ok total)

/-- The second loop of the `append` branch: zeros from `newLoc + total` up to `newBytes`. -/
def zeroIndexLoop (newLoc newBytes : Nat) : Nat → Sys → Nat → Sys × Except GsdError Nat
  | 0, s, total => (s, .ok total)
  | fuel + 1, s, total =>
    if total < newBytes then
      let n := copyPiece (newBytes - total)
      let (s, w) := gsdPwriteRetry s (fun _ => 0) n (newLoc + total)
      if w = -1 ∨ w ≠ n then (s, .error .io) else
      zeroIndexLoop newLoc newBytes fuel s (total + n)
    else (s, .ok total)

/-- `gsd_expand_index`. In `readwrite` mode `realloc` to `count` bytes fails on a zero count (glibc
frees the block and returns `NULL`) and above `PTRDIFF_MAX`, and the zero fill of the new entries,
from `index + old_size`, runs past the block when the sizes wrapped. -/
def gsdExpandIndex (s : Sys) (h : GsdHandle) : Outcome :=
  let oldSize := h.header.indexAllocatedEntries
  let newSize := oldSize * 2 % 2 ^ 64
  let h := { h with header := { h.header with indexAllocatedEntries := newSize } }
  match h.openFlags with
  | .readwrite =>
    let count := entrySize * newSize % 2 ^ 64
    if count = 0 ∨ ptrdiffMax < count then ⟨s, h, .error .memoryAllocationFailed⟩
    else if count < entrySize * oldSize + entrySize * ((newSize + 2 ^ 64 - oldSize) % 2 ^ 64) % 2 ^ 64 then
      ⟨s, h, .error .fault⟩
    else
    let index := fun i => if i < oldSize then h.index i else default
    let loc := s.disk.size
    let h := { h with
      index, indexSlots := count / entrySize
      header := { h.header with indexLocation := loc } }
    let (s, w) := gsdPwriteRetry s (entriesBuf index) count loc
    if w = -1 ∨ w ≠ count then ⟨s, h, .error .io⟩
    else writeHeader s { h with fileSize := loc + count }
  | .append =>
    let newLoc := s.disk.size
    let oldBytes := oldSize * entrySize % 2 ^ 64
    let newBytes := newSize * entrySize % 2 ^ 64
    match copyIndexLoop h.header.indexLocation newLoc oldBytes oldBytes s 0 with
    | (s, .error e) => ⟨s, h, .error e⟩
    | (s, .ok total) =>
      match zeroIndexLoop newLoc newBytes newBytes s total with
      | (s, .error e) => ⟨s, h, .error e⟩
      | (s, .ok total) =>
        writeHeader s { h with
          header := { h.header with indexLocation := newLoc }
          fileSize := newLoc + total }
  -- unreachable: `gsd_write_chunk` refuses read-only handles, and the header write would fail
  | .readonly => ⟨s, h, .error .io⟩

/-- The id `gsd_write_chunk` records: `gsd_get_id`, and `gsd_append_name` when that fails. -/
def chunkId (h : GsdHandle) (name : CStr) : GsdHandle × Except GsdError Nat :=
  let id := gsdGetId h name
  if id = uint16Max then gsdAppendName h name else (h, .ok id)

/-- The store that ends `gsd_write_chunk`: slot `index_num_entries`, or in `append` mode its
place in the cache of unwritten entries, which doubles when full. -/
def storeEntry (h : GsdHandle) (entry : GsdIndexEntry) : GsdHandle :=
  if h.openFlags = .append then
    let slot := sub64 h.indexNumEntries h.indexWrittenEntries
    let h := if h.appendIndexSize ≤ slot then
        { h with
          appendIndexSize := h.appendIndexSize * 2 % 2 ^ 64
          indexSlots := h.appendIndexSize * 2 % 2 ^ 64 * entrySize % 2 ^ 64 / entrySize }
      else h
    { h with index := setEntry h.index slot entry, indexNumEntries := h.indexNumEntries + 1 }
  else
    { h with
      index := setEntry h.index h.indexNumEntries entry
      indexNumEntries := h.indexNumEntries + 1 }

/-- The entry `gsd_write_chunk` stages. -/
def chunkEntry (h : GsdHandle) (type : Nat) (N : UInt64) (M : UInt32) (id : Nat) : GsdIndexEntry :=
  { frame := h.curFrame, N := N.toNat, location := h.fileSize, M := M.toNat, type := type % 256,
    flags := 0, id, reserved := 0 }

/-- `gsd_write_chunk`; `data` is the caller's buffer, of which `N * M * gsd_sizeof_type(type)`
bytes are written. -/
def gsdWriteChunk (s : Sys) (h : GsdHandle) (name : CStr) (type : Nat) (N : UInt64) (M : UInt32)
    (flags : UInt8) (data : Nat → UInt8) : Outcome :=
  if N = 0 ∨ M = 0 ∨ gsdSizeofType type = 0 then ⟨s, h, .error .invalidArgument⟩
  else if h.openFlags = .readonly then ⟨s, h, .error .fileMustBeWritable⟩
  else if flags ≠ 0 then ⟨s, h, .error .invalidArgument⟩
  else
    match chunkId h name with
    | (h, .error e) => ⟨s, h, .error e⟩
    | (h, .ok id) =>
      if id = uint16Max then ⟨s, h, .error .namelistFull⟩ else
      let entry := chunkEntry h type N M id
      let size := chunkSize N.toNat M.toNat type
      let (s, w) := gsdPwriteRetry s data size h.fileSize
      if w = -1 ∨ w ≠ size then ⟨s, h, .error .io⟩ else
      let h := { h with fileSize := h.fileSize + size }
      (if h.header.indexAllocatedEntries ≤ h.indexNumEntries then gsdExpandIndex s h
        else ⟨s, h, .ok ()⟩).andThen fun s h => ⟨s, storeEntry h entry, .ok ()⟩

/-- The first half of `gsd_end_frame`: write the unwritten index entries at the end of the
block, from the cache in `append` mode and from their slots in `readwrite` mode. -/
def writeIndexTail (s : Sys) (h : GsdHandle) : Outcome :=
  let entriesToWrite := sub64 h.indexNumEntries h.indexWrittenEntries
  if entriesToWrite = 0 then ⟨s, h, .ok ()⟩ else
  let writePos := (h.header.indexLocation + entrySize * h.indexWrittenEntries) % 2 ^ 64
  let first := if h.openFlags = .append then 0 else h.indexWrittenEntries
  let count := entrySize * entriesToWrite % 2 ^ 64
  let (s, w) := gsdPwriteRetry s (entriesBuf fun i => h.index (first + i)) count writePos
  if w = -1 ∨ w ≠ count then ⟨s, h, .error .io⟩
  else ⟨s, { h with indexWrittenEntries := (h.indexWrittenEntries + entriesToWrite) % 2 ^ 64 }, .ok ()⟩

/-- The second half of `gsd_end_frame`: write the new namelist entries and re-sort the cache. -/
def writeNamelistTail (s : Sys) (h : GsdHandle) : Outcome :=
  let newEntries := sub64 h.namelistNumEntries h.namelistWrittenEntries
  if newEntries = 0 then ⟨s, h, .ok ()⟩ else
  let count := namelistEntrySize * newEntries % 2 ^ 64
  let (s, w) := gsdPwriteRetry s (fun k => h.namelist (namelistEntrySize * h.namelistWrittenEntries + k))
    count ((h.header.namelistLocation + namelistEntrySize * h.namelistWrittenEntries) % 2 ^ 64)
  if w ≠ count then ⟨s, h, .error .io⟩
  else ⟨s, gsdSortNameIdPairs { h with namelistWrittenEntries := h.namelistNumEntries }, .ok ()⟩

def gsdEndFrame (s : Sys) (h : GsdHandle) : Outcome :=
  if h.openFlags = .readonly then ⟨s, h, .error .fileMustBeWritable⟩
  else (writeIndexTail s { h with curFrame := (h.curFrame + 1) % 2 ^ 64 }).andThen writeNamelistTail

/-- The one inversion lemma of `gsd_write_chunk`: every check passed, the id was found or
appended, the whole payload went to the end of the file, the index grew if it was full, and
the entry was stored. -/
theorem gsdWriteChunk_ok {s : Sys} {h : GsdHandle} {name : CStr} {type : Nat} {N : UInt64}
    {M : UInt32} {flags : UInt8} {data : Nat → UInt8}
    (ho : (gsdWriteChunk s h name type N M flags data).status = .ok ()) :
    ∃ h₁ id o, N ≠ 0 ∧ M ≠ 0 ∧ gsdSizeofType type ≠ 0 ∧ h.openFlags ≠ .readonly ∧ flags = 0 ∧
      chunkId h name = (h₁, .ok id) ∧ id ≠ uint16Max ∧
      (gsdPwriteRetry s data (chunkSize N.toNat M.toNat type) h₁.fileSize).2 =
        chunkSize N.toNat M.toNat type ∧
      o = (let s₁ := (gsdPwriteRetry s data (chunkSize N.toNat M.toNat type) h₁.fileSize).1
        let h₂ := { h₁ with fileSize := h₁.fileSize + chunkSize N.toNat M.toNat type }
        if h₂.header.indexAllocatedEntries ≤ h₂.indexNumEntries then gsdExpandIndex s₁ h₂
        else ⟨s₁, h₂, .ok ()⟩) ∧
      o.status = .ok () ∧
        gsdWriteChunk s h name type N M flags data =
          ⟨o.sys, storeEntry o.handle (chunkEntry h₁ type N M id), .ok ()⟩ := by
  unfold gsdWriteChunk at ho ⊢
  by_cases h1 : N = 0 ∨ M = 0 ∨ gsdSizeofType type = 0
  · rw [if_pos h1] at ho; simp at ho
  rw [if_neg h1] at ho ⊢
  by_cases h2 : h.openFlags = .readonly
  · rw [if_pos h2] at ho; simp at ho
  rw [if_neg h2] at ho ⊢
  by_cases h3 : flags ≠ 0
  · rw [if_pos h3] at ho; simp at ho
  rw [if_neg h3] at ho ⊢
  simp only [not_or] at h1
  obtain ⟨hN, hM, ht⟩ := h1
  rcases hc : chunkId h name with ⟨h₁, _ | id⟩ <;> rw [hc] at ho
  · simp at ho
  by_cases h4 : id = uint16Max
  · simp only [if_pos h4] at ho; simp at ho
  simp only [if_neg h4] at ho ⊢
  rcases hw : gsdPwriteRetry s data (chunkSize N.toNat M.toNat type) h₁.fileSize with ⟨s₁, w⟩
  rw [hw] at ho
  by_cases h5 : w = -1 ∨ w ≠ ↑(chunkSize N.toNat M.toNat type)
  · simp only [if_pos h5] at ho; simp at ho
  simp only [if_neg h5] at ho ⊢
  obtain ⟨hok, heq⟩ := Outcome.andThen_eq_ok ho
  refine ⟨h₁, id, ?_⟩
  simp only [hw]
  exact ⟨_, hN, hM, ht, h2, by simpa using h3, trivial, h4, by omega, rfl, hok, heq⟩

theorem gsdEndFrame_ok {s : Sys} {h : GsdHandle} (ho : (gsdEndFrame s h).status = .ok ()) :
    h.openFlags ≠ .readonly ∧
      (writeIndexTail s { h with curFrame := (h.curFrame + 1) % 2 ^ 64 }).status = .ok () ∧
      gsdEndFrame s h = writeNamelistTail
        (writeIndexTail s { h with curFrame := (h.curFrame + 1) % 2 ^ 64 }).sys
        (writeIndexTail s { h with curFrame := (h.curFrame + 1) % 2 ^ 64 }).handle := by
  unfold gsdEndFrame at ho ⊢
  by_cases h1 : h.openFlags = .readonly
  · rw [if_pos h1] at ho; simp at ho
  rw [if_neg h1] at ho ⊢
  obtain ⟨hok, heq⟩ := Outcome.andThen_eq_ok ho
  exact ⟨h1, hok, heq⟩

end Gsd
