import Gsd.Open

/-!
What a successful `gsd_open` establishes about a file, whatever the file holds. The name cache
holds every namelist position `i` once, with the id `(uint16_t)i`, so a namelist of more than
65536 entries gives two positions one id. In `readwrite` mode the index block lies inside the
file (in 64-bit arithmetic); the two mapped modes make no such check, and their bisection reads
the rest of the last page of the file as zeros and faults on a page wholly past its end. Where
the `readwrite` open succeeds, the mapped `readonly` open returns the same handle but for the
mode.
-/

namespace Gsd

theorem take_initialNames (num allocated : Nat) :
    (initialNames num allocated).take num = (List.range num).map fun i => ⟨i, i % 2 ^ 16⟩ := by
  simp [initialNames]

/-- For every file it accepts, `gsd_read_header` caches each namelist position `i` once, with
the id `(uint16_t)i`. -/
theorem gsdReadHeader_names_perm {d : Disk} {flags : GsdOpenFlag} {h : GsdHandle}
    (hr : gsdReadHeader d flags = .ok h) :
    (h.names.take h.namelistNumEntries).Perm
      ((List.range h.namelistNumEntries).map fun i => ⟨i, i % 2 ^ 16⟩) := by
  obtain ⟨header, index, namelist, n, -, -, -, -, rfl⟩ := gsdReadHeader_eq_ok hr
  simp only [bootstrappedHandle_names, bootstrappedHandle_namelistNumEntries]
  dsimp only [loadedHandle]
  rw [gsdSortNameIdPairs_namelistNumEntries]
  refine (perm_take_gsdSortNameIdPairs _ ?_).trans (List.Perm.of_eq ?_)
  · simp [initialNames]
  · exact take_initialNames _ _

theorem gsdIsEntryValid_openFlags (h : GsdHandle) (f : GsdOpenFlag) (m : Nat) :
    gsdIsEntryValid { h with openFlags := f } m = gsdIsEntryValid h m := rfl

theorem probeCorrupt_openFlags (h : GsdHandle) (f : GsdOpenFlag) (L m : Nat) :
    probeCorrupt { h with openFlags := f } L m ↔ probeCorrupt h L m := Iff.rfl

theorem bootstrapLoop_openFlags_of_resident {h : GsdHandle} {f : GsdOpenFlag} (hb : BlockResident h)
    (hb' : BlockResident { h with openFlags := f }) :
    ∀ fuel L R, L < R → R ≤ h.header.indexAllocatedEntries →
      bootstrapLoop { h with openFlags := f } fuel L R = bootstrapLoop h fuel L R
  | 0, _, _, _, _ => rfl
  | fuel + 1, L, R, hLR, hR => by
    have hm : (L + R) / 2 < h.header.indexAllocatedEntries := by omega
    simp only [bootstrapLoop, probeCorrupt_openFlags, if_neg (hb.not_probeFaults hm),
      if_neg (hb'.not_probeFaults hm)]
    split_ifs <;> first | rfl | exact bootstrapLoop_openFlags_of_resident hb hb' _ _ _ (by omega) (by omega)

theorem readIndexNumEntries_openFlags_of_resident {h : GsdHandle} {f : GsdOpenFlag}
    (hpos : 0 < h.header.indexAllocatedEntries) (hb : BlockResident h)
    (hb' : BlockResident { h with openFlags := f }) :
    readIndexNumEntries { h with openFlags := f } = readIndexNumEntries h := by
  simp only [readIndexNumEntries, gsdIsEntryValid_openFlags, if_neg (hb.not_probeFaults hpos),
    if_neg (hb'.not_probeFaults hpos)]
  split_ifs <;> first | rfl | exact bootstrapLoop_openFlags_of_resident hb hb' _ _ _ hpos le_rfl

/-- A file whose index block of two entries runs past its end: one namelist entry `"a"` at 256,
the block at 320 holding one valid entry, and the file ending at 384. -/
def pastEndHeader : GsdHeader where
  magic := gsdMagicId
  indexLocation := 320
  namelistLocation := 256
  indexAllocatedEntries := 2
  namelistAllocatedEntries := 1
  schemaVersion := 0
  gsdVersion := gsdMakeVersion 1 0
  application := List.replicate 64 0
  schema := List.replicate 64 0
  reserved := List.replicate 80 0

def pastEndEntry : GsdIndexEntry :=
  { frame := 0, N := 1, location := 256, M := 1, type := gsdTypeUint8, flags := 0, id := 0,
    reserved := 0 }

def pastEndFile : Disk where
  size := 384
  byte i := if i < headerSize then listBuf pastEndHeader.toBytes i else if i = 256 then 97
    else if 320 ≤ i then listBuf pastEndEntry.toBytes (i - 320) else 0

/-- Read-only open accepts the file, its bisection having read entry 1 from past the end of the
file; read-write open finds the block outside the file. -/
theorem pastEndFile_open :
    pastEndFile.size < pastEndHeader.indexLocation + entrySize * pastEndHeader.indexAllocatedEntries ∧
    (∃ h, gsdOpen pastEndFile .readonly = .ok h ∧ h.indexNumEntries = 1 ∧
      pastEndFile.size < pastEndHeader.indexLocation + entrySize * 1 + entrySize) ∧
    (∃ h, gsdOpen pastEndFile .append = .ok h ∧ h.indexNumEntries = 1) ∧
    gsdOpen pastEndFile .readwrite = .error .fileCorrupt :=
  ⟨by decide, ⟨_, rfl, rfl, by decide⟩, ⟨_, rfl, rfl⟩, rfl⟩

/-- The file of `pastEndFile` with a block of 1024 entries, all but the first past its end. -/
def farPastEndHeader : GsdHeader := { pastEndHeader with indexAllocatedEntries := 1024 }

def farPastEndFile : Disk where
  size := 384
  byte i := if i < headerSize then listBuf farPastEndHeader.toBytes i else pastEndFile.byte i

/-- The bootstrap starts on a block that, read as the file holds it and zeros past its end, is one
valid entry and then free ones; yet the mapped opens fault, as the first probe, entry 512, lies on
a page wholly past the end of the file. The `readwrite` open finds the block outside the file. -/
theorem farPastEndFile_bootstrap_faults :
    readHeaderBlock farPastEndFile = .ok farPastEndHeader ∧
      residentIndex farPastEndFile .readonly farPastEndHeader = .ok (diskIndex farPastEndFile 320) ∧
      readNamelist farPastEndFile farPastEndHeader = .ok (farPastEndFile.view 256) ∧
      DensePrefix (loadedHandle farPastEndFile .readonly farPastEndHeader (diskIndex farPastEndFile 320)
        (farPastEndFile.view 256)) 1 ∧
      ValidPrefix (loadedHandle farPastEndFile .readonly farPastEndHeader (diskIndex farPastEndFile 320)
        (farPastEndFile.view 256)) 1 ∧
      gsdOpen farPastEndFile .readonly = .error .fault ∧ gsdOpen farPastEndFile .append = .error .fault ∧
      gsdOpen farPastEndFile .readwrite = .error .fileCorrupt := by
  refine ⟨rfl, rfl, rfl, ⟨by decide, by decide, fun m _ => ?_⟩, fun m hm => ?_, rfl, rfl, rfl⟩
  · simp only [loadedHandle_index]
    rcases m with _ | m
    · decide
    · rw [diskIndex_past_end (by simp only [farPastEndFile]; unfold entrySize; omega)]
      exact ⟨fun h => absurd (by decide) h, fun h => by omega⟩
  · obtain rfl : m = 0 := by omega
    exact ⟨by decide, fun l hl => by rw [Nat.le_zero.1 hl]⟩

/-- A file whose namelist declares 65537 entries, all named `"a"`, behind an empty index. -/
def wideNamelistHeader : GsdHeader where
  magic := gsdMagicId
  indexLocation := 256
  namelistLocation := 320
  indexAllocatedEntries := 1
  namelistAllocatedEntries := 65537
  schemaVersion := 0
  gsdVersion := gsdMakeVersion 1 0
  application := List.replicate 64 0
  schema := List.replicate 64 0
  reserved := List.replicate 80 0

def wideNamelistFile : Disk where
  size := 320 + namelistEntrySize * 65537
  byte i := if i < headerSize then listBuf wideNamelistHeader.toBytes i
    else if 320 ≤ i ∧ (i - 320) % namelistEntrySize = 0 then 97 else 0

theorem wideNamelistFile_headerImage : HeaderImage wideNamelistFile wideNamelistHeader where
  wf := ⟨by decide, by decide, by decide, by decide, by decide, by decide, by decide, rfl, rfl, rfl⟩
  magic := rfl
  version := rfl
  bytes k hk := by simp [wideNamelistFile, hk, listBuf]
  size_le := by decide
  header_le := by decide
  index_pos := by decide
  index_le := by decide
  namelist_le := le_refl _

theorem wideNamelistFile_count :
    namelistCount (wideNamelistFile.view 320) 65537 = 65537 := by
  refine namelistCount_eq le_rfl (fun i hi => ?_) (fun h => absurd h (lt_irrefl _))
  have hin : 320 + namelistEntrySize * i < wideNamelistFile.size := by
    simp only [wideNamelistFile, namelistEntrySize]; omega
  rw [Disk.view_of_lt _ hin]
  simp only [wideNamelistFile, namelistEntrySize, headerSize]
  rw [if_neg (by omega), if_pos ⟨by omega, by simp⟩]
  decide

/-- `gsd_open` accepts the file, and namelist positions 0 and 65536 share the id 0. -/
theorem wideNamelistFile_ids_collide :
    ∃ h, gsdOpen wideNamelistFile .readonly = .ok h ∧ h.namelistNumEntries = 65537 ∧
      (⟨0, 0⟩ : NameIdPair) ∈ h.names.take h.namelistNumEntries ∧
      (⟨65536, 0⟩ : NameIdPair) ∈ h.names.take h.namelistNumEntries := by
  have hi := wideNamelistFile_headerImage
  set h₀ := loadedHandle wideNamelistFile .readonly wideNamelistHeader
    (diskIndex wideNamelistFile wideNamelistHeader.indexLocation)
    (wideNamelistFile.view wideNamelistHeader.namelistLocation)
  have hloc : (diskIndex wideNamelistFile 256 0).location = 0 := by decide
  have hnf : ¬ probeFaults h₀ 0 :=
    (loadedHandle_blockResident hi.index_le hi.size_le _ _ _).not_probeFaults (by decide)
  have hboot : readIndexNumEntries h₀ = .ok 0 := by
    rw [readIndexNumEntries, if_neg hnf]
    simp [h₀, hloc, wideNamelistHeader]
  have hopen : gsdOpen wideNamelistFile .readonly = .ok (bootstrappedHandle h₀ 0) := by
    rw [gsdOpen, hi.gsdReadHeader_eq, hboot]; rfl
  have hnum : (bootstrappedHandle h₀ 0).namelistNumEntries = 65537 := by
    simp only [bootstrappedHandle_namelistNumEntries, h₀, loadedHandle_namelistNumEntries]
    exact wideNamelistFile_count
  have hperm := gsdReadHeader_names_perm hopen
  rw [hnum] at hperm
  refine ⟨_, hopen, hnum, ?_, ?_⟩ <;> rw [hnum, hperm.mem_iff] <;> simp
  exacts [⟨0, by norm_num⟩, ⟨65536, by norm_num⟩]

end Gsd
