import Gsd.Accept
import Gsd.Steps

/-!
The invariant of a writer's session. `E` is the ghost list of the handle's index entries in slot
order: the first `index_written_entries` committed, the rest staged. `Inv` ties `E` to the handle
(the resident block in `readwrite` mode, the cache of unwritten entries in `append` mode) and to
the file: the header at offset 0, the index block holding the first `k` entries and then zeros,
and every entry's payload inside the file, apart from the two blocks and from each other. The
frame numbers obey `FrameInv` only while `cur_frame + 1` does not wrap, so they are kept apart.

`gsd_open` of a file in this shape returns a handle satisfying `Inv` over the entries it finds:
this one lemma serves `gsd_create`, `gsd_create_and_open`, `gsd_truncate` and reopening.
-/

namespace Gsd

/-- `[a, a + n)` and `[b, b + m)` do not overlap. -/
def Apart (a n b m : Nat) : Prop := a + n ≤ b ∨ b + m ≤ a

/-- The payload size `gsd_write_chunk` computed for an entry, in `size_t`. -/
def GsdIndexEntry.size (e : GsdIndexEntry) : Nat := chunkSize e.N e.M e.type

/-- The index block as the writer leaves it in the file: its first `k` entries, then zeros. -/
def blockEntries (E : Nat → GsdIndexEntry) (k : Nat) : Nat → GsdIndexEntry :=
  fun i => if i < k then E i else default

theorem GsdIndexEntry.wf_default : (default : GsdIndexEntry).Wf :=
  ⟨by decide, by decide, by decide, by decide, by decide, by decide, by decide, by decide⟩

theorem GsdIndexEntry.toBytes_default : (default : GsdIndexEntry).toBytes = List.replicate entrySize 0 := by
  decide

theorem entriesBuf_slot (f : Nat → GsdIndexEntry) (i : Nat) {t : Nat} (ht : t < entrySize) :
    entriesBuf f (entrySize * i + t) = (f i).toBytes.getD t 0 := by
  unfold entriesBuf
  rw [Nat.mul_add_div (by decide), Nat.div_eq_of_lt ht, Nat.add_zero, Nat.mul_add_mod,
    Nat.mod_eq_of_lt ht]

theorem entriesBuf_blockEntries_of_le (E : Nat → GsdIndexEntry) {k j : Nat}
    (hj : entrySize * k ≤ j) : entriesBuf (blockEntries E k) j = 0 := by
  have hk : ¬ j / entrySize < k := by
    rw [Nat.not_lt, Nat.le_div_iff_mul_le (by decide), Nat.mul_comm]; exact hj
  simp only [entriesBuf, blockEntries, hk, if_false, GsdIndexEntry.toBytes_default,
    List.getD_eq_getElem?_getD, List.getElem?_replicate]
  split <;> rfl

theorem diskIndex_of_block {d : Disk} {loc a k : Nat} {E : Nat → GsdIndexEntry}
    (hb : ∀ j < entrySize * a, d.view loc j = entriesBuf (blockEntries E k) j)
    (hwf : ∀ i < k, (E i).Wf) {i : Nat} (hi : i < a) : diskIndex d loc i = blockEntries E k i := by
  have hbytes : (List.range entrySize).map (fun t => d.view 0 (loc + entrySize * i + t)) =
      (blockEntries E k i).toBytes := by
    have key := @map_range_eq_of_getD (fun t => d.view 0 (loc + entrySize * i + t))
      (blockEntries E k i).toBytes fun t ht => by
        rw [GsdIndexEntry.length_toBytes] at ht
        dsimp only
        rw [Nat.add_assoc, ← Disk.view_eq, hb _ (by unfold entrySize at *; omega),
          entriesBuf_slot _ _ ht]
    rwa [GsdIndexEntry.length_toBytes] at key
  have hwf' : (blockEntries E k i).Wf := by
    unfold blockEntries; split_ifs with h
    · exact hwf i h
    · exact GsdIndexEntry.wf_default
  rw [diskIndex, entryAt, hbytes, GsdIndexEntry.ofBytes_toBytes hwf']

theorem scanLoop_lt {P : Nat → Bool} {w : Nat} : ∀ fuel i k, scanLoop P w fuel i = some k → k < w := by
  intro fuel
  induction fuel with
  | zero => intro i k h; cases h
  | succ fuel ih =>
    intro i k h
    simp only [scanLoop] at h
    split_ifs at h with hi hp
    · cases h; exact hi
    · exact ih _ _ h

theorem namelistCount_le (namelist : Nat → UInt8) (alloc : Nat) : namelistCount namelist alloc ≤ alloc := by
  unfold namelistCount
  cases h : scanLoop _ alloc alloc 0 with
  | none => exact le_rfl
  | some k => exact (scanLoop_lt _ _ _ h).le

theorem GsdHandle.nameOf_congr {h h' : GsdHandle} (hn : h.names = h'.names)
    (hl : h.namelist = h'.namelist)
    (ha : h.header.namelistAllocatedEntries = h'.header.namelistAllocatedEntries) :
    h.nameOf = h'.nameOf := by
  funext i
  simp only [GsdHandle.nameOf, GsdHandle.nameAt, GsdHandle.pair, hn, hl, ha]

/-- The file as the writer keeps it, whatever handle is open on it: the header `hdr`, the
index block holding `k` entries of `E` and then zeros, and a namelist block of terminated
entries apart from it. -/
structure FileInv (d : Disk) (hdr : GsdHeader) (E : Nat → GsdIndexEntry) (k : Nat) : Prop where
  clean : d.Clean
  image : HeaderImage d hdr
  namelist_alloc : hdr.namelistAllocatedEntries = gsdInitialNamelistSize
  index_after : headerSize ≤ hdr.indexLocation
  namelist_after : headerSize ≤ hdr.namelistLocation
  blocks_apart : Apart hdr.indexLocation (entrySize * hdr.indexAllocatedEntries)
    hdr.namelistLocation (namelistEntrySize * hdr.namelistAllocatedEntries)
  le_alloc : k ≤ hdr.indexAllocatedEntries
  block : ∀ j < entrySize * hdr.indexAllocatedEntries,
    d.view hdr.indexLocation j = entriesBuf (blockEntries E k) j
  names_terminated : ∀ i < hdr.namelistAllocatedEntries,
    ∃ t < namelistEntrySize, d.view hdr.namelistLocation (namelistEntrySize * i + t) = 0

/-- The payloads of the first `n` entries: after the header, inside the file, apart from both
blocks and from each other. -/
structure Payloads (d : Disk) (hdr : GsdHeader) (E : Nat → GsdIndexEntry) (n : Nat) : Prop where
  wf : ∀ i < n, (E i).Wf
  after_header : ∀ i < n, headerSize ≤ (E i).location
  inside : ∀ i < n, (E i).location + (E i).size ≤ d.size
  apart_index : ∀ i < n, Apart (E i).location (E i).size
    hdr.indexLocation (entrySize * hdr.indexAllocatedEntries)
  apart_namelist : ∀ i < n, Apart (E i).location (E i).size
    hdr.namelistLocation (namelistEntrySize * hdr.namelistAllocatedEntries)
  apart : ∀ i j, i < j → j < n → Apart (E i).location (E i).size (E j).location (E j).size

theorem Payloads.mono {d : Disk} {hdr : GsdHeader} {E : Nat → GsdIndexEntry} {n m : Nat}
    (hp : Payloads d hdr E n) (hm : m ≤ n) : Payloads d hdr E m where
  wf i hi := hp.wf i (by omega)
  after_header i hi := hp.after_header i (by omega)
  inside i hi := hp.inside i (by omega)
  apart_index i hi := hp.apart_index i (by omega)
  apart_namelist i hi := hp.apart_namelist i (by omega)
  apart i j hij hj := hp.apart i j hij (by omega)

/-- What holds in every state a writer reaches. -/
structure Inv (s : Sys) (h : GsdHandle) (E : Nat → GsdIndexEntry) : Prop where
  writable : h.openFlags ≠ .readonly
  written_le : h.indexWrittenEntries ≤ h.indexNumEntries
  num_le : h.indexNumEntries ≤ h.header.indexAllocatedEntries
  resident : h.openFlags = .readwrite → h.indexSlots = h.header.indexAllocatedEntries ∧
    ∀ i < h.header.indexAllocatedEntries, h.index i = blockEntries E h.indexNumEntries i
  cached : h.openFlags = .append →
    h.indexNumEntries - h.indexWrittenEntries ≤ h.appendIndexSize ∧ 0 < h.appendIndexSize ∧
    h.appendIndexSize ≤ 2 * h.header.indexAllocatedEntries ∧ h.indexSlots = h.appendIndexSize ∧
    ∀ i < h.indexNumEntries - h.indexWrittenEntries, h.index i = E (h.indexWrittenEntries + i)
  cur_lt : h.curFrame < 2 ^ 64
  names_written_le : h.namelistWrittenEntries ≤ h.namelistNumEntries
  names_le_alloc : h.namelistNumEntries ≤ h.header.namelistAllocatedEntries
  names_le_size : h.namelistNumEntries ≤ h.namesAllocatedSize
  names_size_pos : 0 < h.namesAllocatedSize
  names_size_le : h.namesAllocatedSize ≤ 2 * gsdInitialNamelistSize
  names_length : h.names.length = h.namesAllocatedSize
  names_perm : (h.names.take h.namelistNumEntries).Perm
    ((List.range h.namelistNumEntries).map fun i => ⟨i, i⟩)
  names_sorted : h.NamesSorted h.namelistWrittenEntries
  names_terminated : ∀ i < h.namelistNumEntries,
    ∃ t < namelistEntrySize, h.namelist (namelistEntrySize * i + t) = 0
  size_eq : s.disk.size = h.fileSize
  file : ∃ k, h.indexWrittenEntries ≤ k ∧ k ≤ h.indexNumEntries ∧
    (h.openFlags = .append → k = h.indexWrittenEntries) ∧ FileInv s.disk h.header E k
  payloads : Payloads s.disk h.header E h.indexNumEntries
  disk_namelist : ∀ j < namelistEntrySize * h.namelistWrittenEntries,
    s.disk.view h.header.namelistLocation j = h.namelist j

/-- The frame numbers of the entries: non-decreasing, below `cur_frame` when committed and
equal to it when staged. -/
structure FrameInv (h : GsdHandle) (E : Nat → GsdIndexEntry) : Prop where
  mono : ∀ i j, i ≤ j → j < h.indexNumEntries → (E i).frame ≤ (E j).frame
  committed_lt : ∀ i < h.indexWrittenEntries, (E i).frame < h.curFrame
  staged_eq : ∀ i, h.indexWrittenEntries ≤ i → i < h.indexNumEntries → (E i).frame = h.curFrame

section Open

variable {d : Disk} {hdr : GsdHeader} {E : Nat → GsdIndexEntry} {k : Nat}

theorem FileInv.densePrefix (hf : FileInv d hdr E k) (hp : Payloads d hdr E k) (flags : GsdOpenFlag) :
    DensePrefix (loadedHandle d flags hdr (diskIndex d hdr.indexLocation) (d.view hdr.namelistLocation)) k := by
  refine ⟨hf.image.index_pos, hf.le_alloc, fun m hm => ?_⟩
  rw [loadedHandle_index, diskIndex_of_block hf.block hp.wf hm, blockEntries]
  split_ifs with hmk
  · have := hp.after_header m hmk; unfold headerSize at this; simp only [hmk, iff_true]; omega
  · exact ⟨fun h => absurd rfl h, fun h => absurd h hmk⟩

/-- On a file whose block holds `k` entries with nonzero locations and then zeros, a successful
`gsd_open` found exactly those `k`. -/
theorem gsdOpen_of_block (hf : FileInv d hdr E k) (hp : Payloads d hdr E k) {flags : GsdOpenFlag}
    {h' : GsdHandle} (ho : gsdOpen d flags = .ok h') :
    h' = bootstrappedHandle (loadedHandle d flags hdr (diskIndex d hdr.indexLocation)
      (d.view hdr.namelistLocation)) k := by
  rw [gsdOpen, hf.image.gsdReadHeader_eq] at ho
  rcases (readIndexNumEntries_spec (hf.densePrefix hp flags) (hf.image.blockResident _ _ _)).1 with hn | hn <;>
    rw [hn] at ho
  · exact (Except.ok.inj ho).symm
  · cases ho

theorem gsdOpen_of_block_ok (hf : FileInv d hdr E k) (hp : Payloads d hdr E k) {flags : GsdOpenFlag}
    {h' : GsdHandle} (ho : gsdOpen d flags = .ok h') (flags' : GsdOpenFlag) :
    gsdOpen d flags' = .ok (bootstrappedHandle (loadedHandle d flags' hdr (diskIndex d hdr.indexLocation)
      (d.view hdr.namelistLocation)) k) := by
  rw [gsdOpen, hf.image.gsdReadHeader_eq] at ho ⊢
  have hn : readIndexNumEntries (loadedHandle d flags hdr (diskIndex d hdr.indexLocation)
      (d.view hdr.namelistLocation)) = .ok k := by
    rcases (readIndexNumEntries_spec (hf.densePrefix hp flags) (hf.image.blockResident _ _ _)).1 with hn | hn
    · exact hn
    · rw [hn] at ho; cases ho
  set h₀ := loadedHandle d flags hdr (diskIndex d hdr.indexLocation) (d.view hdr.namelistLocation)
  have hb' : BlockResident { h₀ with openFlags := flags' } := hf.image.blockResident flags' _ _
  rw [show loadedHandle d flags' hdr (diskIndex d hdr.indexLocation) (d.view hdr.namelistLocation) =
      { h₀ with openFlags := flags' } from rfl,
    readIndexNumEntries_openFlags_of_resident hf.image.index_pos (hf.image.blockResident _ _ _) hb', hn]
  rfl

/-- `gsd_open` in a writing mode of a file in the writer's shape returns a handle satisfying
the invariant over the `k` entries the block holds. -/
theorem inv_of_gsdOpen {s : Sys} (hf : FileInv s.disk hdr E k) (hp : Payloads s.disk hdr E k)
    {flags : GsdOpenFlag} (hflags : flags ≠ .readonly) {h' : GsdHandle}
    (ho : gsdOpen s.disk flags = .ok h') :
    Inv s h' E ∧ h'.header = hdr ∧ h'.indexNumEntries = k ∧ h'.indexWrittenEntries = k ∧
      h'.curFrame = if k = 0 then 0 else ((E (k - 1)).frame + 1) % 2 ^ 64 := by
  have hperm := gsdReadHeader_names_perm ho
  rw [gsdOpen_of_block hf hp ho] at hperm ⊢
  set h₀ := loadedHandle s.disk flags hdr (diskIndex s.disk hdr.indexLocation)
    (s.disk.view hdr.namelistLocation)
  set cnt := namelistCount (s.disk.view hdr.namelistLocation) hdr.namelistAllocatedEntries
    with hcnt_def
  have hcnt : cnt ≤ gsdInitialNamelistSize := hf.namelist_alloc ▸ namelistCount_le _ _
  have hslots : indexBytes hdr / entrySize = hdr.indexAllocatedEntries := by
    rw [hf.image.indexBytes_eq, Nat.mul_div_cancel_left _ (by decide)]
  have hlen : cnt ≤ (initialNames cnt (if cnt = 0 then gsdInitialNamelistSize else cnt)).length := by
    simp only [initialNames, List.length_append, List.length_map, List.length_range,
      List.length_replicate]; omega
  obtain ⟨X, hX, hXn, hXnames⟩ : ∃ X, h₀ = gsdSortNameIdPairs X ∧ X.namelistNumEntries = cnt ∧
      X.names = initialNames cnt (if cnt = 0 then gsdInitialNamelistSize else cnt) :=
    ⟨_, rfl, rfl, rfl⟩
  have hXl : cnt ≤ X.names.length := hXnames ▸ hlen
  have hnum₀ : h₀.namelistNumEntries = cnt := by simp [h₀, ← hcnt_def]
  have hnames : (bootstrappedHandle h₀ k).nameOf = h₀.nameOf :=
    GsdHandle.nameOf_congr (by simp) (by simp) (by simp)
  have hcur : (bootstrappedHandle h₀ k).curFrame =
      if k = 0 then 0 else ((E (k - 1)).frame + 1) % 2 ^ 64 := by
    rw [bootstrappedHandle_curFrame]
    split
    · rfl
    · rw [loadedHandle_index, diskIndex_of_block hf.block hp.wf (by have := hf.le_alloc; omega),
        blockEntries, if_pos (by omega)]
  have hnas : (bootstrappedHandle h₀ k).namesAllocatedSize =
      if cnt = 0 then gsdInitialNamelistSize else cnt := by simp [h₀, ← hcnt_def]
  have hnum : (bootstrappedHandle h₀ k).namelistNumEntries = cnt := by simp [h₀, ← hcnt_def]
  refine ⟨⟨?_, ?_, ?_, ?_, ?_, ?_, ?_, ?_, ?_, ?_, ?_, ?_, ?_, ?_, ?_, ?_, ?_, ?_, ?_⟩,
    by simp [h₀], by simp, by simp, hcur⟩
  · simpa [h₀] using hflags
  · simp
  · simpa [h₀] using hf.le_alloc
  · intro hrw
    have hrw' : flags = .readwrite := by simpa [h₀] using hrw
    have hne : h₀.openFlags ≠ .append := by simp [h₀, hrw']
    rw [(bootstrappedHandle_of_ne_append hne k).1, (bootstrappedHandle_of_ne_append hne k).2]
    simp only [h₀, bootstrappedHandle_header, loadedHandle_header,
      bootstrappedHandle_indexNumEntries, loadedHandle_index, loadedHandle_indexSlots]
    exact ⟨hslots, fun i hi => diskIndex_of_block hf.block hp.wf hi⟩
  · intro happ
    have happ' : h₀.openFlags = .append := by simpa [h₀] using happ
    rw [(bootstrappedHandle_of_append happ' k).1, (bootstrappedHandle_of_append happ' k).2]
    simp only [bootstrappedHandle_indexNumEntries, bootstrappedHandle_indexWrittenEntries,
      Nat.sub_self, bootstrappedHandle_header, h₀, loadedHandle_header]
    exact ⟨Nat.zero_le _, Nat.one_pos, by have := hf.image.index_pos; omega, trivial,
      fun i hi => absurd hi (Nat.not_lt_zero i)⟩
  · rw [hcur]; split
    · norm_num
    · exact Nat.mod_lt _ (by norm_num)
  · simp [h₀]
  · rw [hnum, bootstrappedHandle_header, loadedHandle_header, hf.namelist_alloc]; exact hcnt
  · rw [hnum, hnas]; split <;> omega
  · rw [hnas]; unfold gsdInitialNamelistSize at hcnt ⊢; split <;> omega
  · rw [hnas]; unfold gsdInitialNamelistSize at hcnt ⊢; split <;> omega
  · rw [hnas, bootstrappedHandle_names, hX, length_names_gsdSortNameIdPairs _ (hXn ▸ hXl),
      hXnames]
    simp only [initialNames, List.length_append, List.length_map, List.length_range,
      List.length_replicate]
    split <;> omega
  · rw [hnum]
    rw [hnum] at hperm
    refine hperm.trans (List.Perm.of_eq (List.map_congr_left fun i hi => ?_))
    rw [List.mem_range] at hi
    simp only [gsdInitialNamelistSize] at hcnt
    rw [Nat.mod_eq_of_lt (by omega)]
  · intro i j hij hj
    rw [hnames, hX]
    refine namesSorted_gsdSortNameIdPairs X (hXn ▸ hXl) i j hij ?_
    simpa [h₀, hXn, ← hcnt_def] using hj
  · intro i hi
    rw [hnum] at hi
    simp only [bootstrappedHandle_namelist, h₀, loadedHandle_namelist]
    exact hf.names_terminated i (by rw [hf.namelist_alloc]; omega)
  · simp [h₀]
  · exact ⟨k, by simp, by simp, fun _ => by simp, by simpa [h₀] using hf⟩
  · simpa [h₀] using hp
  · intro j _
    simp [h₀]

theorem frameInv_of_gsdOpen {s : Sys} {h : GsdHandle} (hi : Inv s h E) (hfr : FrameInv h E)
    (hc : h.curFrame + 1 < 2 ^ 64) {flags : GsdOpenFlag} (hflags : flags ≠ .readonly)
    {h' : GsdHandle} (ho : gsdOpen s.disk flags = .ok h') : FrameInv h' E := by
  obtain ⟨k, hk1, hk2, -, hf⟩ := hi.file
  obtain ⟨-, -, hnum, hw, hcur⟩ := inv_of_gsdOpen hf (hi.payloads.mono hk2) hflags ho
  have hlast : ∀ i < k, (E i).frame ≤ h.curFrame := fun i hi' => by
    by_cases hiw : i < h.indexWrittenEntries
    · exact (hfr.committed_lt i hiw).le
    · exact (hfr.staged_eq i (by omega) (by omega)).le
  refine ⟨fun i j hij hj => hfr.mono i j hij (by omega), fun i hi' => ?_, fun i h1 h2 => by omega⟩
  rw [hw] at hi'
  rw [hcur, if_neg (by omega), Nat.mod_eq_of_lt (by have := hlast (k - 1) (by omega); omega)]
  have := hfr.mono i (k - 1) (by omega) (by omega)
  omega

end Open

/-- The file `gsd_initialize_file` leaves: the header, then the zeroed index and namelist
blocks. -/
def initialDisk (hdr : GsdHeader) : Disk where
  size := headerSize + entrySize * gsdInitialIndexSize + namelistEntrySize * gsdInitialNamelistSize
  byte := listBuf hdr.toBytes

section InitialHeader

variable (application schema : CStr) (schemaVersion : Nat)

@[simp] theorem initialHeader_indexLocation :
    (initialHeader application schema schemaVersion).indexLocation = headerSize := rfl

@[simp] theorem initialHeader_namelistLocation :
    (initialHeader application schema schemaVersion).namelistLocation =
      headerSize + entrySize * gsdInitialIndexSize := rfl

@[simp] theorem initialHeader_indexAllocatedEntries :
    (initialHeader application schema schemaVersion).indexAllocatedEntries = gsdInitialIndexSize := rfl

@[simp] theorem initialHeader_namelistAllocatedEntries :
    (initialHeader application schema schemaVersion).namelistAllocatedEntries =
      gsdInitialNamelistSize := rfl

theorem initialHeader_wf : (initialHeader application schema schemaVersion).Wf :=
  ⟨show gsdMagicId < 2 ^ 64 by decide, show headerSize < 2 ^ 64 by decide,
    show headerSize + entrySize * gsdInitialIndexSize < 2 ^ 64 by decide,
    show gsdInitialIndexSize < 2 ^ 64 by decide, show gsdInitialNamelistSize < 2 ^ 64 by decide,
    Nat.mod_lt _ (by norm_num), show gsdMakeVersion 1 0 < 2 ^ 32 by decide,
    by simp [initialHeader], by simp [initialHeader], by simp [initialHeader]⟩

end InitialHeader

theorem gsdInitializeFile_ok {s s' : Sys} {application schema : CStr} {schemaVersion : Nat}
    (ho : gsdInitializeFile s application schema schemaVersion = (s', .ok ())) :
    s'.disk = initialDisk (initialHeader application schema schemaVersion) := by
  have hlen := GsdHeader.length_toBytes (initialHeader_wf application schema schemaVersion)
  simp only [gsdInitializeFile, gsdPwriteRetry_of_le _ _ (show headerSize ≠ 0 by decide)
      (show 0 + headerSize ≤ maxFileSize by decide),
    gsdPwriteRetry_of_le _ _ (show entrySize * gsdInitialIndexSize ≠ 0 by decide)
      (show headerSize + entrySize * gsdInitialIndexSize ≤ maxFileSize by decide),
    gsdPwriteRetry_of_le _ _ (show namelistEntrySize * gsdInitialNamelistSize ≠ 0 by decide)
      (show headerSize + entrySize * gsdInitialIndexSize + namelistEntrySize * gsdInitialNamelistSize
        ≤ maxFileSize by decide)] at ho
  simp only [Nat.cast_mul, ne_eq, not_true_eq_false, if_false, Prod.mk.injEq] at ho
  rw [← ho.1]
  simp only [Sys.disk_issue, Disk.apply_pwrite, Disk.apply]
  set hdrBuf := listBuf (initialHeader application schema schemaVersion).toBytes
  have hz : ∀ i, headerSize ≤ i → hdrBuf i = 0 := fun i hi => by
    simp [hdrBuf, listBuf, List.getD_eq_getElem?_getD, List.getElem?_eq_none (hlen ▸ hi)]
  set D₁ := (s.disk.truncate 0).write 0 headerSize hdrBuf
  set D₂ := D₁.write headerSize (entrySize * gsdInitialIndexSize) fun _ => 0
  have h₁ : D₁.size = headerSize := by
    rw [Disk.size_write _ _ _ (by decide)]; simp [Disk.truncate]
  have h₂ : D₂.size = headerSize + entrySize * gsdInitialIndexSize := by
    rw [Disk.size_write _ _ _ (by decide), h₁]; simp
  ext i : 2
  · rw [Disk.size_write _ _ _ (by decide), h₂]; simp [initialDisk]
  · show (D₂.write _ _ _).byte i = hdrBuf i
    by_cases h3 : headerSize + entrySize * gsdInitialIndexSize ≤ i ∧
        i < headerSize + entrySize * gsdInitialIndexSize + namelistEntrySize * gsdInitialNamelistSize
    · rw [Disk.byte_write_inside _ _ h3.1 h3.2, hz i (by omega)]
    by_cases h4 : i < D₂.size
    · rw [Disk.byte_write_outside _ _ (by omega) h4]
      by_cases h5 : headerSize ≤ i
      · rw [Disk.byte_write_inside _ _ h5 (by rw [h₁] at *; omega), hz i h5]
      · rw [Disk.byte_write_outside _ _ (by omega) (by omega),
          Disk.byte_write_inside _ _ (Nat.zero_le _) (by omega), Nat.sub_zero]
    · rw [Disk.clean_write _ _ _ _ i (by rw [Disk.size_write _ _ _ (by decide)]; omega),
        hz i (by omega)]

theorem initialDisk_view {hdr : GsdHeader} (hwf : hdr.Wf) {loc : Nat} (hl : headerSize ≤ loc) (j : Nat) :
    (initialDisk hdr).view loc j = 0 := by
  have hlen := GsdHeader.length_toBytes hwf
  unfold Disk.view; split
  · simp [initialDisk, listBuf, List.getD_eq_getElem?_getD, List.getElem?_eq_none (show
      hdr.toBytes.length ≤ loc + j by omega)]
  · rfl

theorem fileInv_initialDisk (application schema : CStr) (schemaVersion : Nat)
    (E : Nat → GsdIndexEntry) :
    FileInv (initialDisk (initialHeader application schema schemaVersion))
      (initialHeader application schema schemaVersion) E 0 := by
  have hwf := initialHeader_wf application schema schemaVersion
  have hlen := GsdHeader.length_toBytes hwf
  have hzero : ∀ i, headerSize ≤ i →
      (initialDisk (initialHeader application schema schemaVersion)).byte i = 0 := fun i hi => by
    simp [initialDisk, listBuf, List.getD_eq_getElem?_getD, List.getElem?_eq_none (hlen ▸ hi)]
  have hsize : (initialDisk (initialHeader application schema schemaVersion)).size = 4202688 := rfl
  have hview : ∀ loc j, headerSize ≤ loc →
      (initialDisk (initialHeader application schema schemaVersion)).view loc j = 0 :=
    fun _ j hl => initialDisk_view hwf hl j
  refine ⟨fun i hi => hzero i (by rw [hsize] at hi; unfold headerSize; omega), ⟨hwf, rfl, rfl,
    fun k hk => rfl, by rw [hsize]; decide, by rw [hsize]; decide, by simp; decide,
    by rw [hsize]; simp; decide, by rw [hsize]; simp; decide⟩, by simp, by simp, by simp,
    .inl (by simp), Nat.zero_le _, fun j _ => ?_,
    fun i _ => ⟨0, by decide, hview _ _ (by simp)⟩⟩
  rw [hview _ _ (by simp), entriesBuf_blockEntries_of_le _ (by simp)]

end Gsd
