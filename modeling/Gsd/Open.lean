import Gsd.Names

/-!
Creating and opening files: `gsd_initialize_file`, `gsd_create`, `gsd_read_header` and the
calls built on it (`gsd_open`, `gsd_create_and_open`, `gsd_truncate`), with
`gsd_is_entry_valid`. `gsd_read_header` is split into its stages, each a definition of its own:
the header check, the index residency of the open mode (a mapping in `readonly` and `append`
mode, a bounds-checked copy in `readwrite` mode), the namelist, and the bootstrap bisection that
finds `index_num_entries`. The model follows the branch compiled where `GSD_USE_MMAP` is 1.
-/

namespace Gsd

/-- The header `gsd_initialize_file` writes: a zeroed struct with the magic, version 1.0,
the names truncated to 63 characters, and the index and namelist right after it. -/
def initialHeader (application schema : CStr) (schemaVersion : Nat) : GsdHeader where
  magic := gsdMagicId
  indexLocation := headerSize
  namelistLocation := headerSize + entrySize * gsdInitialIndexSize
  indexAllocatedEntries := gsdInitialIndexSize
  namelistAllocatedEntries := gsdInitialNamelistSize
  schemaVersion := schemaVersion % 2 ^ 32
  gsdVersion := gsdMakeVersion 1 0
  application := strncpy application.bytes 63 ++ [0]
  schema := strncpy schema.bytes 63 ++ [0]
  reserved := List.replicate 80 0

def gsdInitializeFile (s : Sys) (application schema : CStr) (schemaVersion : Nat) :
    Sys × Except GsdError Unit :=
  let s := s.issue (.ftruncate 0)
  let (s, w) := gsdPwriteRetry s (listBuf (initialHeader application schema schemaVersion).toBytes)
    headerSize 0
  if w ≠ headerSize then (s, .error .io) else
  let (s, w) := gsdPwriteRetry s (fun _ => 0) (entrySize * gsdInitialIndexSize) headerSize
  if w ≠ entrySize * gsdInitialIndexSize then (s, .error .io) else
  let (s, w) := gsdPwriteRetry s (fun _ => 0) (namelistEntrySize * gsdInitialNamelistSize)
    (headerSize + entrySize * gsdInitialIndexSize)
  if w ≠ namelistEntrySize * gsdInitialNamelistSize then (s, .error .io) else (s, .ok ())

/-- `gsd_create`: open with `O_TRUNC`, then initialize. -/
def gsdCreate (s : Sys) (application schema : CStr) (schemaVersion : Nat) :
    Sys × Except GsdError Unit :=
  gsdInitializeFile (s.issue (.ftruncate 0)) application schema schemaVersion

/-- The header read and checks at the start of `gsd_read_header`. -/
def readHeaderBlock (d : Disk) : Except GsdError GsdHeader :=
  let (n, buf) := gsdPreadRetry d headerSize 0
  if n = -1 then .error .io
  else if n ≠ headerSize then .error .notAGsdFile
  else
    let header := GsdHeader.ofBytes ((List.range headerSize).map buf)
    if header.magic ≠ gsdMagicId then .error .notAGsdFile
    else if header.gsdVersion < gsdMakeVersion 1 0 ∧ header.gsdVersion ≠ gsdMakeVersion 0 3 then
      .error .invalidGsdFileVersion
    else if gsdMakeVersion 2 0 ≤ header.gsdVersion then .error .invalidGsdFileVersion
    else .ok header

/-- `sizeof(struct gsd_index_entry) * index_allocated_entries` in `size_t`. -/
def indexBytes (header : GsdHeader) : Nat := entrySize * header.indexAllocatedEntries % 2 ^ 64

def namelistBytes (header : GsdHeader) : Nat :=
  namelistEntrySize * header.namelistAllocatedEntries % 2 ^ 64

/-- The entry `i` slots past byte `off` of a buffer. -/
def entryAt (buf : Nat → UInt8) (off i : Nat) : GsdIndexEntry :=
  GsdIndexEntry.ofBytes ((List.range entrySize).map fun k => buf (off + entrySize * i + k))

/-- The offset into its page of `index_location`, where the mapping starts. -/
def mapDelta (header : GsdHeader) : Nat :=
  header.indexLocation - header.indexLocation / pageSize * pageSize

/-- The length `mmap` is asked for: the block plus the offset into its page, in `size_t`. -/
def mapLength (header : GsdHeader) : Nat := (indexBytes header + mapDelta header) % 2 ^ 64

/-- The `readonly` and `append` branch: `mmap` from the page holding `index_location`. The entries
are the file's bytes; which of them can be read without a fault is `entryFaults`. -/
def mapIndex (d : Disk) (header : GsdHeader) : Except GsdError (Nat → GsdIndexEntry) :=
  if mapLength header = 0 ∨ 2 ^ 63 ≤ header.indexLocation / pageSize * pageSize then .error .io
  else .ok (entryAt (d.view 0) header.indexLocation)

/-- The `readwrite` branch: check that the block lies inside the file, `malloc` a buffer of
`index_size` bytes and read it. The entries are the file's bytes; the buffer holds the first
`index_size` of them (`entryFaults`). -/
def readIndex (d : Disk) (header : GsdHeader) : Except GsdError (Nat → GsdIndexEntry) :=
  if d.size < (header.indexLocation + indexBytes header) % 2 ^ 64 then .error .fileCorrupt
  else if ptrdiffMax < indexBytes header then .error .memoryAllocationFailed
  else
    let (n, buf) := gsdPreadRetry d (indexBytes header) header.indexLocation
    if n = -1 ∨ n ≠ indexBytes header then .error .io else .ok (entryAt buf 0)

/-- The index as the open mode keeps it: read into memory in `readwrite` mode, mapped otherwise. -/
def residentIndex (d : Disk) (flags : GsdOpenFlag) (header : GsdHeader) :
    Except GsdError (Nat → GsdIndexEntry) :=
  if flags = .readwrite then readIndex d header else mapIndex d header

def readNamelist (d : Disk) (header : GsdHeader) : Except GsdError (Nat → UInt8) :=
  if d.size < (header.namelistLocation + namelistBytes header) % 2 ^ 64 then .error .fileCorrupt
  else if ptrdiffMax < namelistBytes header then .error .memoryAllocationFailed
  else
    let (n, buf) := gsdPreadRetry d (namelistBytes header) header.namelistLocation
    if n = -1 ∨ n ≠ namelistBytes header then .error .io else .ok buf

/-- The number of names: the first entry whose first byte is NUL, or all of them. -/
def namelistCount (namelist : Nat → UInt8) (allocated : Nat) : Nat :=
  (scanLoop (fun i => namelist (namelistEntrySize * i) = 0) allocated allocated 0).getD allocated

/-- The name cache before sorting: `names[i] = (namelist[i].name, (uint16_t)i)`. -/
def initialNames (num allocated : Nat) : List NameIdPair :=
  (List.range num).map (fun i => ⟨i, i % 2 ^ 16⟩) ++ List.replicate (allocated - num) default

def gsdIsEntryValid (h : GsdHandle) (idx : Nat) : Bool :=
  let entry := h.index idx
  if gsdSizeofType entry.type = 0 then false
  else if h.fileSize < (entry.location + chunkSize entry.N entry.M entry.type) % 2 ^ 64 then false
  else if h.header.indexAllocatedEntries ≤ entry.frame then false
  else if h.namelistNumEntries ≤ entry.id then false
  else if entry.flags ≠ 0 then false
  else true

/-- The end, past `index_location`, of the memory holding the block: the `index_size` bytes of
the buffer in `readwrite` mode, the whole pages of the mapping otherwise. -/
def residentEnd (h : GsdHandle) : Nat :=
  if h.openFlags = .readwrite then indexBytes h.header
  else (mapLength h.header + pageSize - 1) / pageSize * pageSize - mapDelta h.header

/-- Reading the first `n` bytes of entry `m` touches memory the block does not own: past
`residentEnd`, or in a mapping a page wholly past the end of the file (`SIGBUS`). -/
def entryFaults (h : GsdHandle) (m n : Nat) : Prop :=
  residentEnd h < entrySize * m + n ∨
    h.openFlags ≠ .readwrite ∧
      h.fileSize ≤ (h.header.indexLocation + entrySize * m + n - 1) / pageSize * pageSize

instance (h : GsdHandle) (m n : Nat) : Decidable (entryFaults h m n) :=
  inferInstanceAs (Decidable (_ ∨ _))

/-- A probe of entry `m` faults: reading its `location`, bytes 16 to 23, or, when that is
nonzero, the copy of the whole entry that `gsd_is_entry_valid` makes. -/
def probeFaults (h : GsdHandle) (m : Nat) : Prop :=
  entryFaults h m 24 ∨ (h.index m).location ≠ 0 ∧ entryFaults h m entrySize

instance (h : GsdHandle) (m : Nat) : Decidable (probeFaults h m) :=
  inferInstanceAs (Decidable (_ ∨ _))

/-- A probe of the bootstrap bisection finds the file corrupt. -/
def probeCorrupt (h : GsdHandle) (L m : Nat) : Prop :=
  (h.index m).location ≠ 0 ∧ (gsdIsEntryValid h m = false ∨ (h.index m).frame < (h.index L).frame)

instance (h : GsdHandle) (L m : Nat) : Decidable (probeCorrupt h L m) :=
  inferInstanceAs (Decidable (_ ∧ _))

/-- The do-while bisection for the first entry with `location == 0`, validating every entry it
probes. -/
def bootstrapLoop (h : GsdHandle) : Nat → Nat → Nat → Except GsdError Nat
  | 0, _, R => .ok R
  | fuel + 1, L, R =>
    let m := (L + R) / 2
    if probeFaults h m then .error .fault
    else if probeCorrupt h L m then .error .fileCorrupt
    else if (h.index m).location ≠ 0 then
      (if R - m > 1 then bootstrapLoop h fuel m R else .ok R)
    else (if m - L > 1 then bootstrapLoop h fuel L m else .ok m)

/-- `index_num_entries` as `gsd_read_header` determines it. -/
def readIndexNumEntries (h : GsdHandle) : Except GsdError Nat :=
  if probeFaults h 0 then .error .fault
  else if (h.index 0).location ≠ 0 ∧ gsdIsEntryValid h 0 = false then .error .fileCorrupt
  else if (h.index 0).location = 0 then .ok 0
  else bootstrapLoop h h.header.indexAllocatedEntries 0 h.header.indexAllocatedEntries

/-- The handle `gsd_read_header` has filled in when it reaches the bootstrap. -/
def loadedHandle (d : Disk) (flags : GsdOpenFlag) (header : GsdHeader)
    (index : Nat → GsdIndexEntry) (namelist : Nat → UInt8) : GsdHandle :=
  let num := namelistCount namelist header.namelistAllocatedEntries
  let namesAllocatedSize := if num = 0 then gsdInitialNamelistSize else num
  gsdSortNameIdPairs
    { header, index, namelist, namesAllocatedSize
      indexSlots := indexBytes header / entrySize
      namelistNumEntries := num
      indexWrittenEntries := 0
      indexNumEntries := 0
      curFrame := 0
      fileSize := d.size
      openFlags := flags
      names := initialNames num namesAllocatedSize
      namelistWrittenEntries := num
      appendIndexSize := 0 }

/-- The handle once the bootstrap found `n` entries; in `append` mode the mapping gives way to
a one-entry cache of unwritten entries. -/
def bootstrappedHandle (h : GsdHandle) (n : Nat) : GsdHandle :=
  let h := { h with
    indexNumEntries := n
    curFrame := if n = 0 then 0 else ((h.index (n - 1)).frame + 1) % 2 ^ 64
    indexWrittenEntries := n }
  if h.openFlags = .append then { h with appendIndexSize := 1, index := fun _ => default, indexSlots := 1 }
  else h

def gsdReadHeader (d : Disk) (flags : GsdOpenFlag) : Except GsdError GsdHandle := do
  let header ← readHeaderBlock d
  let index ← residentIndex d flags header
  let namelist ← readNamelist d header
  let h := loadedHandle d flags header index namelist
  let n ← readIndexNumEntries h
  pure (bootstrappedHandle h n)

/-- `gsd_open` of an existing file. -/
def gsdOpen (d : Disk) (flags : GsdOpenFlag) : Except GsdError GsdHandle := gsdReadHeader d flags

/-- `gsd_create_and_open`; `fileExists` tells whether an exclusive create finds the file there. -/
def gsdCreateAndOpen (s : Sys) (fileExists : Bool) (application schema : CStr)
    (schemaVersion : Nat) (flags : GsdOpenFlag) (exclusiveCreate : Bool) :
    Sys × Except GsdError GsdHandle :=
  if flags = .readonly then (s, .error .fileMustBeWritable)
  else if exclusiveCreate ∧ fileExists then (s, .error .io)
  else
    match gsdInitializeFile (s.issue (.ftruncate 0)) application schema schemaVersion with
    | (s, .error e) => (s, .error e)
    | (s, .ok ()) => (s, gsdReadHeader s.disk flags)

/-- A character array read as the C string it holds. -/
def arrayCStr (bytes : List UInt8) : CStr :=
  ⟨cstrAt (fun k => bytes.getD k 0) 0 bytes.length, cstrAt_no_nul _ _ _⟩

def gsdTruncate (s : Sys) (h : GsdHandle) : Sys × Except GsdError GsdHandle :=
  if h.openFlags = .readonly then (s, .error .fileMustBeWritable)
  else
    match gsdInitializeFile s (arrayCStr h.header.application) (arrayCStr h.header.schema)
        h.header.schemaVersion with
    | (s, .error e) => (s, .error e)
    | (s, .ok ()) => (s, gsdReadHeader s.disk h.openFlags)

theorem bind_eq_ok {ε α β : Type} {x : Except ε α} {f : α → Except ε β} {b : β}
    (h : x >>= f = .ok b) : ∃ a, x = .ok a ∧ f a = .ok b := by
  cases x with
  | error e => cases h
  | ok a => exact ⟨a, rfl, h⟩

theorem gsdReadHeader_eq_ok {d : Disk} {flags : GsdOpenFlag} {h : GsdHandle}
    (hr : gsdReadHeader d flags = .ok h) :
    ∃ header index namelist n, readHeaderBlock d = .ok header ∧
      residentIndex d flags header = .ok index ∧
      readNamelist d header = .ok namelist ∧
      readIndexNumEntries (loadedHandle d flags header index namelist) = .ok n ∧
      h = bootstrappedHandle (loadedHandle d flags header index namelist) n := by
  obtain ⟨header, hheader, hr⟩ := bind_eq_ok hr
  obtain ⟨index, hindex, hr⟩ := bind_eq_ok hr
  obtain ⟨namelist, hnamelist, hr⟩ := bind_eq_ok hr
  obtain ⟨n, hn, hr⟩ := bind_eq_ok hr
  exact ⟨header, index, namelist, n, hheader, hindex, hnamelist, hn, (Except.ok.inj hr).symm⟩

theorem readHeaderBlock_wf {d : Disk} {header : GsdHeader} (hr : readHeaderBlock d = .ok header) :
    header.Wf := by
  unfold readHeaderBlock at hr
  generalize gsdPreadRetry d headerSize 0 = p at hr
  obtain ⟨n, buf⟩ := p
  dsimp only at hr
  split_ifs at hr
  rw [← Except.ok.inj hr]
  exact GsdHeader.wf_ofBytes (by simp)

theorem namelistCount_le_of_zero {namelist : Nat → UInt8} {alloc a : Nat} (ha : a < alloc)
    (hz : namelist (namelistEntrySize * a) = 0) : namelistCount namelist alloc ≤ a := by
  obtain ⟨j, hj, hja⟩ := scanLoop_le_of_true (P := fun i => namelist (namelistEntrySize * i) = 0) ha
    (by simpa using hz) alloc 0 (Nat.zero_le _) (by omega)
  rw [namelistCount, hj]
  exact hja

@[simp] theorem loadedHandle_header (d : Disk) (flags : GsdOpenFlag) (header : GsdHeader)
    (index : Nat → GsdIndexEntry) (namelist : Nat → UInt8) :
    (loadedHandle d flags header index namelist).header = header := rfl

@[simp] theorem loadedHandle_index (d : Disk) (flags : GsdOpenFlag) (header : GsdHeader)
    (index : Nat → GsdIndexEntry) (namelist : Nat → UInt8) :
    (loadedHandle d flags header index namelist).index = index := rfl

@[simp] theorem loadedHandle_namelist (d : Disk) (flags : GsdOpenFlag) (header : GsdHeader)
    (index : Nat → GsdIndexEntry) (namelist : Nat → UInt8) :
    (loadedHandle d flags header index namelist).namelist = namelist := rfl

@[simp] theorem loadedHandle_fileSize (d : Disk) (flags : GsdOpenFlag) (header : GsdHeader)
    (index : Nat → GsdIndexEntry) (namelist : Nat → UInt8) :
    (loadedHandle d flags header index namelist).fileSize = d.size := rfl

@[simp] theorem loadedHandle_namelistNumEntries (d : Disk) (flags : GsdOpenFlag) (header : GsdHeader)
    (index : Nat → GsdIndexEntry) (namelist : Nat → UInt8) :
    (loadedHandle d flags header index namelist).namelistNumEntries =
      namelistCount namelist header.namelistAllocatedEntries := rfl

@[simp] theorem loadedHandle_openFlags (d : Disk) (flags : GsdOpenFlag) (header : GsdHeader)
    (index : Nat → GsdIndexEntry) (namelist : Nat → UInt8) :
    (loadedHandle d flags header index namelist).openFlags = flags := rfl

/-- Every entry of the block can be read whole, so no probe of the bootstrap faults. -/
def BlockResident (h : GsdHandle) : Prop :=
  ∀ m < h.header.indexAllocatedEntries, ¬ entryFaults h m entrySize

theorem entryFaults_mono {h : GsdHandle} {m n n' : Nat} (hn : n ≤ n') (hf : entryFaults h m n) :
    entryFaults h m n' := by
  refine hf.imp (fun h1 => by omega) fun ⟨hfl, h2⟩ => ⟨hfl, h2.trans ?_⟩
  exact Nat.mul_le_mul_right _ (Nat.div_le_div_right (by omega))

theorem BlockResident.not_probeFaults {h : GsdHandle} {m : Nat} (hb : BlockResident h)
    (hm : m < h.header.indexAllocatedEntries) : ¬ probeFaults h m := by
  rintro (hf | ⟨-, hf⟩)
  · exact hb m hm (entryFaults_mono (by decide) hf)
  · exact hb m hm hf

theorem indexBytes_le_residentEnd {h : GsdHandle} (hb : indexBytes h.header + pageSize ≤ 2 ^ 64) :
    indexBytes h.header ≤ residentEnd h := by
  have hd : mapDelta h.header < pageSize := by unfold mapDelta pageSize; omega
  have hl : mapLength h.header = indexBytes h.header + mapDelta h.header := Nat.mod_eq_of_lt (by omega)
  unfold residentEnd
  split_ifs
  · exact le_rfl
  · rw [hl]; unfold pageSize at *; omega

theorem not_entryFaults_of_inside {h : GsdHandle} {m n : Nat}
    (hin : h.header.indexLocation + indexBytes h.header ≤ h.fileSize)
    (hres : indexBytes h.header ≤ residentEnd h) (hmn : entrySize * m + n ≤ indexBytes h.header)
    (hn : 0 < n) : ¬ entryFaults h m n := by
  rintro (h1 | ⟨-, h2⟩)
  · omega
  · have := Nat.div_mul_le_self (h.header.indexLocation + entrySize * m + n - 1) pageSize
    omega

/-- A block inside a file of at most `maxFileSize` bytes is read without a fault, in every mode. -/
theorem loadedHandle_blockResident {d : Disk} {header : GsdHeader}
    (hin : header.indexLocation + entrySize * header.indexAllocatedEntries ≤ d.size)
    (hmax : d.size ≤ maxFileSize) (flags : GsdOpenFlag) (index : Nat → GsdIndexEntry)
    (namelist : Nat → UInt8) : BlockResident (loadedHandle d flags header index namelist) := by
  unfold maxFileSize at hmax
  have hb : indexBytes header = entrySize * header.indexAllocatedEntries := Nat.mod_eq_of_lt (by omega)
  intro m hm
  simp only [loadedHandle_header] at hm
  refine not_entryFaults_of_inside ?_ (indexBytes_le_residentEnd ?_) ?_ (by decide) <;>
    simp only [loadedHandle_header, loadedHandle_fileSize, hb] <;> unfold pageSize entrySize at * <;> omega

/-- The index block as the file holds it at `loc`. -/
def diskIndex (d : Disk) (loc : Nat) : Nat → GsdIndexEntry := entryAt (d.view 0) loc

theorem diskIndex_congr {d d' : Disk} {loc n i : Nat}
    (hv : ∀ j < entrySize * n, d'.view loc j = d.view loc j) (hi : i < n) :
    diskIndex d' loc i = diskIndex d loc i := by
  unfold diskIndex entryAt
  refine congrArg _ (List.map_congr_left fun t ht => ?_)
  have ht' : t < entrySize := List.mem_range.1 ht
  have := hv (entrySize * i + t) (by unfold entrySize at *; omega)
  rwa [Disk.view_eq, Disk.view_eq d, ← Nat.add_assoc] at this

theorem diskIndex_past_end {d : Disk} {loc i : Nat} (h : d.size ≤ loc + entrySize * i) :
    diskIndex d loc i = GsdIndexEntry.ofBytes (List.replicate entrySize 0) := by
  unfold diskIndex entryAt
  refine congrArg _ (List.ext_getElem (by simp) fun t _ _ => ?_)
  simp [Disk.view, show ¬ loc + entrySize * i + t < d.size by omega]

/-- What `gsd_read_header` needs of a file before it looks at the entries: the header `hdr`
at offset 0, as the library writes it, with both blocks inside the file. -/
structure HeaderImage (d : Disk) (hdr : GsdHeader) : Prop where
  wf : hdr.Wf
  magic : hdr.magic = gsdMagicId
  version : hdr.gsdVersion = gsdMakeVersion 1 0
  bytes : ∀ k < headerSize, d.byte k = hdr.toBytes.getD k 0
  size_le : d.size ≤ maxFileSize
  header_le : headerSize ≤ d.size
  index_pos : 0 < hdr.indexAllocatedEntries
  index_le : hdr.indexLocation + entrySize * hdr.indexAllocatedEntries ≤ d.size
  namelist_le : hdr.namelistLocation + namelistEntrySize * hdr.namelistAllocatedEntries ≤ d.size

section HeaderImage

variable {d : Disk} {hdr : GsdHeader} (hi : HeaderImage d hdr)
include hi

theorem HeaderImage.readHeaderBlock_eq : readHeaderBlock d = .ok hdr := by
  have hlen := GsdHeader.length_toBytes hi.wf
  have hbuf : (List.range headerSize).map (d.view 0) = hdr.toBytes := by
    rw [← hlen]
    exact map_range_eq_of_getD fun k hk => by
      rw [hlen] at hk
      rw [Disk.view_of_lt _ (by have := hi.header_le; omega), Nat.zero_add, hi.bytes k hk]
  have hv : ¬ gsdMakeVersion 2 0 ≤ gsdMakeVersion 1 0 := by decide
  have hn : gsdPreadRetry d headerSize 0 = ((headerSize : Int), d.view 0) :=
    gsdPreadRetry_of_le d (by rw [Nat.zero_add]; exact hi.header_le) hi.size_le
  simp only [readHeaderBlock, hn, hbuf,
    GsdHeader.ofBytes_toBytes hi.wf, hi.magic, hi.version, hv]
  simp

theorem HeaderImage.indexBytes_eq : indexBytes hdr = entrySize * hdr.indexAllocatedEntries :=
  Nat.mod_eq_of_lt (by have := hi.index_le; have := hi.size_le; unfold maxFileSize at *; omega)

theorem HeaderImage.namelistBytes_eq :
    namelistBytes hdr = namelistEntrySize * hdr.namelistAllocatedEntries :=
  Nat.mod_eq_of_lt (by have := hi.namelist_le; have := hi.size_le; unfold maxFileSize at *; omega)

theorem HeaderImage.readIndex_eq : readIndex d hdr = .ok (diskIndex d hdr.indexLocation) := by
  have hle := hi.index_le
  have hmax := hi.size_le
  unfold maxFileSize at hmax
  have h64 : hdr.indexLocation + entrySize * hdr.indexAllocatedEntries < 2 ^ 64 := by omega
  simp only [readIndex, hi.indexBytes_eq, Nat.mod_eq_of_lt h64, if_neg (Nat.not_lt.2 hle),
    gsdPreadRetry_of_le d hle hi.size_le]
  rw [if_neg (by unfold ptrdiffMax; omega), if_neg (by omega)]
  refine congrArg Except.ok (funext fun i => ?_)
  simp only [diskIndex, entryAt, Disk.view_eq d hdr.indexLocation, Nat.zero_add, Nat.add_assoc]

theorem HeaderImage.mapIndex_eq : mapIndex d hdr = .ok (diskIndex d hdr.indexLocation) := by
  have hle := hi.index_le
  have hpos := hi.index_pos
  have hmax := hi.size_le
  unfold maxFileSize at hmax
  have hoff : hdr.indexLocation / pageSize * pageSize ≤ hdr.indexLocation := Nat.div_mul_le_self _ _
  rw [mapIndex, mapLength, mapDelta, hi.indexBytes_eq,
    if_neg (by rw [Nat.mod_eq_of_lt (by omega)]; unfold entrySize at *; omega)]
  rfl

theorem HeaderImage.readNamelist_eq : readNamelist d hdr = .ok (d.view hdr.namelistLocation) := by
  have hle := hi.namelist_le
  have hmax := hi.size_le
  unfold maxFileSize at hmax
  have h64 : hdr.namelistLocation + namelistEntrySize * hdr.namelistAllocatedEntries < 2 ^ 64 := by
    omega
  simp only [readNamelist, hi.namelistBytes_eq, Nat.mod_eq_of_lt h64, if_neg (Nat.not_lt.2 hle),
    gsdPreadRetry_of_le d hle hi.size_le]
  rw [if_neg (by unfold ptrdiffMax; omega), if_neg (by omega)]

theorem HeaderImage.blockResident (flags : GsdOpenFlag) (index : Nat → GsdIndexEntry)
    (namelist : Nat → UInt8) : BlockResident (loadedHandle d flags hdr index namelist) :=
  loadedHandle_blockResident hi.index_le hi.size_le flags index namelist

/-- On such a file, opening comes down to the bootstrap over the entries the file holds. -/
theorem HeaderImage.gsdReadHeader_eq (flags : GsdOpenFlag) :
    gsdReadHeader d flags =
      (do
        let n ← readIndexNumEntries
          (loadedHandle d flags hdr (diskIndex d hdr.indexLocation) (d.view hdr.namelistLocation))
        pure (bootstrappedHandle
          (loadedHandle d flags hdr (diskIndex d hdr.indexLocation) (d.view hdr.namelistLocation)) n)) := by
  have hindex : residentIndex d flags hdr = .ok (diskIndex d hdr.indexLocation) := by
    unfold residentIndex
    split
    · exact hi.readIndex_eq
    · exact hi.mapIndex_eq
  simp only [gsdReadHeader, hi.readHeaderBlock_eq, hindex, hi.readNamelist_eq, bind, Except.bind]

end HeaderImage

section Bootstrap

variable {h : GsdHandle} {n : Nat}

/-- The entries with a nonzero location are exactly the first `n` of the block. -/
structure DensePrefix (h : GsdHandle) (n : Nat) : Prop where
  pos : 0 < h.header.indexAllocatedEntries
  le : n ≤ h.header.indexAllocatedEntries
  location_ne_zero_iff : ∀ m < h.header.indexAllocatedEntries, (h.index m).location ≠ 0 ↔ m < n

/-- The first `n` entries pass `gsd_is_entry_valid` and their frames never decrease. -/
def ValidPrefix (h : GsdHandle) (n : Nat) : Prop :=
  ∀ m < n, gsdIsEntryValid h m = true ∧ ∀ l ≤ m, (h.index l).frame ≤ (h.index m).frame

/-- The window of the bootstrap bisection: `L` is in use, `R` is the end of the block or free. -/
structure BootInv (h : GsdHandle) (L R : Nat) : Prop where
  lt : L < R
  le : R ≤ h.header.indexAllocatedEntries
  loc_L : (h.index L).location ≠ 0
  loc_R : R = h.header.indexAllocatedEntries ∨ (h.index R).location = 0

theorem bootstrapLoop_spec (hd : DensePrefix h n) (hb : BlockResident h) :
    ∀ fuel L R, BootInv h L R → R - L ≤ fuel →
    (bootstrapLoop h fuel L R = .ok n ∨ bootstrapLoop h fuel L R = .error .fileCorrupt) ∧
    (ValidPrefix h n → bootstrapLoop h fuel L R = .ok n) := by
  intro fuel
  induction fuel with
  | zero => intro L R hi hf; have := hi.lt; omega
  | succ fuel ih =>
    intro L R hi hf
    have hlt := hi.lt
    have hle := hi.le
    have hL : L < n := (hd.location_ne_zero_iff L (by omega)).1 hi.loc_L
    simp only [bootstrapLoop]
    rw [if_neg (hb.not_probeFaults (by omega))]
    by_cases hc : probeCorrupt h L ((L + R) / 2)
    · -- a probe finds the file corrupt
      rw [if_pos hc]
      refine ⟨.inr rfl, fun hv => absurd hc ?_⟩
      rintro ⟨hloc, hbad⟩
      have hmn := (hd.location_ne_zero_iff _ (by omega)).1 hloc
      rcases hbad with hbad | hbad
      · rw [(hv _ hmn).1] at hbad; cases hbad
      · exact absurd ((hv _ hmn).2 L (by omega)) (by omega)
    rw [if_neg hc]
    by_cases hm : (h.index ((L + R) / 2)).location ≠ 0
    · rw [if_pos hm]
      have hmn := (hd.location_ne_zero_iff _ (by omega)).1 hm
      by_cases h1 : R - (L + R) / 2 > 1
      · -- `m` is in use and the window continues right of it
        rw [if_pos h1]
        exact ih _ R ⟨by omega, hle, hm, hi.loc_R⟩ (by omega)
      · -- `m` is in use and `R = m + 1` ends the search
        rw [if_neg h1]
        have hnR : n ≤ R := by
          rcases hi.loc_R with hR | hR
          · exact hR ▸ hd.le
          · refine Nat.le_of_not_lt fun hRn => ?_
            exact (hd.location_ne_zero_iff R (by have := hd.le; omega)).2 hRn hR
        have hRn : R = n := by omega
        exact ⟨.inl (by rw [hRn]), fun _ => by rw [hRn]⟩
    · rw [if_neg hm]
      have hmL : (L + R) / 2 ≠ L := fun he => hm (by rw [he]; exact hi.loc_L)
      by_cases h2 : (L + R) / 2 - L > 1
      · -- `m` is free and the window continues left of it
        rw [if_pos h2]
        exact ih L _ ⟨by omega, by omega, hi.loc_L, .inr (by simpa using hm)⟩ (by omega)
      · -- `m` is free and `m = L + 1` ends the search
        rw [if_neg h2]
        have := (hd.location_ne_zero_iff _ (by omega)).not.1 hm
        have hmn : (L + R) / 2 = n := by omega
        exact ⟨.inl (by rw [hmn]), fun _ => by rw [hmn]⟩

/-- The bootstrap of `gsd_read_header` on a dense block read without a fault. -/
theorem readIndexNumEntries_spec (hd : DensePrefix h n) (hb : BlockResident h) :
    (readIndexNumEntries h = .ok n ∨ readIndexNumEntries h = .error .fileCorrupt) ∧
    (ValidPrefix h n → readIndexNumEntries h = .ok n) := by
  have hpos := hd.pos
  unfold readIndexNumEntries
  rw [if_neg (hb.not_probeFaults hpos)]
  split_ifs with h0 h1
  · refine ⟨.inr rfl, fun hv => ?_⟩
    have := (hv 0 ((hd.location_ne_zero_iff 0 hpos).1 h0.1)).1
    rw [h0.2] at this; cases this
  · have : n = 0 := by have := (hd.location_ne_zero_iff 0 hpos).not.1 (by simpa using h1); omega
    exact ⟨.inl (by rw [this]), fun _ => by rw [this]⟩
  · exact bootstrapLoop_spec hd hb _ 0 _ ⟨hpos, le_rfl, h1, .inl rfl⟩ (by omega)

theorem gsdIsEntryValid_frame_lt {m : Nat} (hv : gsdIsEntryValid h m = true) :
    (h.index m).frame < h.header.indexAllocatedEntries := by
  dsimp only [gsdIsEntryValid] at hv
  split_ifs at hv
  omega

theorem bootstrapLoop_boundary : ∀ fuel L R, BootInv h L R → R - L ≤ fuel →
    bootstrapLoop h fuel L R = .ok n →
      (h.index (n - 1)).location ≠ 0 ∧ (n = h.header.indexAllocatedEntries ∨ (h.index n).location = 0) := by
  intro fuel
  induction fuel with
  | zero => intro L R hi hf; have := hi.lt; omega
  | succ fuel ih =>
    intro L R hi hf hr
    have hlt := hi.lt
    simp only [bootstrapLoop] at hr
    by_cases hp : probeFaults h ((L + R) / 2)
    · rw [if_pos hp] at hr; cases hr
    rw [if_neg hp] at hr
    by_cases hc : probeCorrupt h L ((L + R) / 2)
    · rw [if_pos hc] at hr; cases hr
    rw [if_neg hc] at hr
    by_cases hm : (h.index ((L + R) / 2)).location ≠ 0
    · rw [if_pos hm] at hr
      by_cases h1 : R - (L + R) / 2 > 1
      · -- `m` is in use and the window continues right of it
        rw [if_pos h1] at hr
        exact ih _ R ⟨by omega, hi.le, hm, hi.loc_R⟩ (by omega) hr
      · -- `m` is in use and `R = m + 1` is the result
        rw [if_neg h1] at hr
        rw [← Except.ok.inj hr, show R - 1 = (L + R) / 2 by omega]
        exact ⟨hm, hi.loc_R⟩
    · rw [if_neg hm] at hr
      have hm0 : (h.index ((L + R) / 2)).location = 0 := not_not.1 hm
      have hmL : (L + R) / 2 ≠ L := fun he => hi.loc_L (he ▸ hm0)
      by_cases h2 : (L + R) / 2 - L > 1
      · -- `m` is free and the window continues left of it
        rw [if_pos h2] at hr
        exact ih L _ ⟨by omega, by have := hi.le; omega, hi.loc_L, .inr hm0⟩ (by omega) hr
      · -- `m` is free and `m = L + 1` is the result
        rw [if_neg h2] at hr
        rw [← Except.ok.inj hr, show (L + R) / 2 - 1 = L by omega]
        exact ⟨hi.loc_L, .inr hm0⟩

/-- The bootstrap of `gsd_read_header` on any block: a nonzero count it returns ends the
entries in use. -/
theorem readIndexNumEntries_boundary (hr : readIndexNumEntries h = .ok n) (hn : 0 < n) :
    (h.index (n - 1)).location ≠ 0 ∧ (n = h.header.indexAllocatedEntries ∨ (h.index n).location = 0) := by
  unfold readIndexNumEntries at hr
  split_ifs at hr with hp h0 h1
  · exact absurd (Except.ok.inj hr) (by omega)
  · rcases Nat.eq_zero_or_pos h.header.indexAllocatedEntries with hA | hA
    · rw [hA] at hr; exact absurd (Except.ok.inj hr) (by omega)
    · exact bootstrapLoop_boundary _ 0 _ ⟨hA, le_rfl, h1, .inl rfl⟩ (by omega) hr

end Bootstrap

theorem namelistCount_eq {namelist : Nat → UInt8} {alloc k : Nat} (hk : k ≤ alloc)
    (hne : ∀ i < k, namelist (namelistEntrySize * i) ≠ 0)
    (hz : k < alloc → namelist (namelistEntrySize * k) = 0) : namelistCount namelist alloc = k := by
  unfold namelistCount
  rcases Nat.eq_or_lt_of_le hk with rfl | hlt
  · rw [scanLoop_eq_none _ 0 fun j _ hj => by simpa using hne j hj]; rfl
  · rw [scanLoop_eq_some hlt (by simpa using hz hlt) _ 0 (Nat.zero_le _) (by omega)
      fun j _ hj => by simpa using hne j hj]
    rfl

section Bootstrapped

variable (h : GsdHandle) (n : Nat)

@[simp] theorem bootstrappedHandle_header : (bootstrappedHandle h n).header = h.header := by
  dsimp only [bootstrappedHandle]; split <;> rfl

@[simp] theorem bootstrappedHandle_names : (bootstrappedHandle h n).names = h.names := by
  dsimp only [bootstrappedHandle]; split <;> rfl

@[simp] theorem bootstrappedHandle_namelist : (bootstrappedHandle h n).namelist = h.namelist := by
  dsimp only [bootstrappedHandle]; split <;> rfl

@[simp] theorem bootstrappedHandle_namelistNumEntries :
    (bootstrappedHandle h n).namelistNumEntries = h.namelistNumEntries := by
  dsimp only [bootstrappedHandle]; split <;> rfl

@[simp] theorem bootstrappedHandle_namelistWrittenEntries :
    (bootstrappedHandle h n).namelistWrittenEntries = h.namelistWrittenEntries := by
  dsimp only [bootstrappedHandle]; split <;> rfl

@[simp] theorem bootstrappedHandle_fileSize : (bootstrappedHandle h n).fileSize = h.fileSize := by
  dsimp only [bootstrappedHandle]; split <;> rfl

@[simp] theorem bootstrappedHandle_openFlags : (bootstrappedHandle h n).openFlags = h.openFlags := by
  dsimp only [bootstrappedHandle]; split <;> rfl

@[simp] theorem bootstrappedHandle_indexNumEntries : (bootstrappedHandle h n).indexNumEntries = n := by
  dsimp only [bootstrappedHandle]; split <;> rfl

@[simp] theorem bootstrappedHandle_indexWrittenEntries :
    (bootstrappedHandle h n).indexWrittenEntries = n := by
  dsimp only [bootstrappedHandle]; split <;> rfl

@[simp] theorem bootstrappedHandle_namesAllocatedSize :
    (bootstrappedHandle h n).namesAllocatedSize = h.namesAllocatedSize := by
  dsimp only [bootstrappedHandle]; split <;> rfl

end Bootstrapped

@[simp] theorem loadedHandle_namelistWrittenEntries (d : Disk) (flags : GsdOpenFlag)
    (header : GsdHeader) (index : Nat → GsdIndexEntry) (namelist : Nat → UInt8) :
    (loadedHandle d flags header index namelist).namelistWrittenEntries =
      namelistCount namelist header.namelistAllocatedEntries := rfl

@[simp] theorem loadedHandle_indexSlots (d : Disk) (flags : GsdOpenFlag) (header : GsdHeader)
    (index : Nat → GsdIndexEntry) (namelist : Nat → UInt8) :
    (loadedHandle d flags header index namelist).indexSlots = indexBytes header / entrySize := rfl

@[simp] theorem loadedHandle_namesAllocatedSize (d : Disk) (flags : GsdOpenFlag)
    (header : GsdHeader) (index : Nat → GsdIndexEntry) (namelist : Nat → UInt8) :
    (loadedHandle d flags header index namelist).namesAllocatedSize =
      if namelistCount namelist header.namelistAllocatedEntries = 0 then gsdInitialNamelistSize
      else namelistCount namelist header.namelistAllocatedEntries := rfl

@[simp] theorem bootstrappedHandle_curFrame (h : GsdHandle) (n : Nat) :
    (bootstrappedHandle h n).curFrame = if n = 0 then 0 else ((h.index (n - 1)).frame + 1) % 2 ^ 64 := by
  dsimp only [bootstrappedHandle]; split <;> rfl

theorem bootstrappedHandle_of_ne_append {h : GsdHandle} (hf : h.openFlags ≠ .append) (n : Nat) :
    (bootstrappedHandle h n).index = h.index ∧ (bootstrappedHandle h n).indexSlots = h.indexSlots := by
  dsimp only [bootstrappedHandle]; rw [if_neg hf]; exact ⟨rfl, rfl⟩

theorem bootstrappedHandle_of_append {h : GsdHandle} (hf : h.openFlags = .append) (n : Nat) :
    (bootstrappedHandle h n).appendIndexSize = 1 ∧ (bootstrappedHandle h n).indexSlots = 1 := by
  dsimp only [bootstrappedHandle]; rw [if_pos hf]; exact ⟨rfl, rfl⟩

/-- Once the header, the index block and the namelist are loaded, the bootstrap of
`gsd_read_header` finds the `k` entries of a dense block of valid entries with non-decreasing
frames that lies inside the file, and sets `cur_frame` past the last one; and on any block, dense
or not, the count it returns ends the entries in use. -/
theorem gsdReadHeader_bootstrap {d : Disk} {flags : GsdOpenFlag} {header : GsdHeader}
    {index : Nat → GsdIndexEntry} {namelist : Nat → UInt8}
    (hh : readHeaderBlock d = .ok header) (hi : residentIndex d flags header = .ok index)
    (hn : readNamelist d header = .ok namelist) :
    (∀ k, header.indexLocation + entrySize * header.indexAllocatedEntries ≤ d.size →
        d.size ≤ maxFileSize →
        DensePrefix (loadedHandle d flags header index namelist) k →
        ValidPrefix (loadedHandle d flags header index namelist) k →
        ∃ h, gsdReadHeader d flags = .ok h ∧ h.indexNumEntries = k ∧
          h.curFrame = if k = 0 then 0 else (index (k - 1)).frame + 1) ∧
      ∀ h, gsdReadHeader d flags = .ok h → 0 < h.indexNumEntries →
        (index (h.indexNumEntries - 1)).location ≠ 0 ∧
          (h.indexNumEntries = header.indexAllocatedEntries ∨ (index h.indexNumEntries).location = 0) := by
  have hread : gsdReadHeader d flags =
      (readIndexNumEntries (loadedHandle d flags header index namelist)).bind
        fun n => .ok (bootstrappedHandle (loadedHandle d flags header index namelist) n) := by
    simp only [gsdReadHeader, hh, hi, hn, bind, Except.bind]; rfl
  refine ⟨fun k hin hmax hd hv => ⟨_, by
    rw [hread, (readIndexNumEntries_spec hd (loadedHandle_blockResident hin hmax _ _ _)).2 hv]; rfl,
    by simp, ?_⟩, fun h hr hpos => ?_⟩
  · -- the last entry is valid, so its frame is below `index_allocated_entries < 2 ^ 64`
    rw [bootstrappedHandle_curFrame]
    split_ifs with hk
    · rfl
    · have hlast := gsdIsEntryValid_frame_lt ((hv (k - 1) (by omega)).1)
      have hA := (readHeaderBlock_wf hh).indexAllocatedEntries_lt
      simp only [loadedHandle_index, loadedHandle_header] at hlast ⊢
      exact Nat.mod_eq_of_lt (by omega)
  · rw [hread] at hr
    cases hb : readIndexNumEntries (loadedHandle d flags header index namelist) with
    | error e => rw [hb] at hr; cases hr
    | ok n =>
      rw [hb] at hr
      cases hr
      simpa using readIndexNumEntries_boundary hb (by simpa using hpos)

/-- A fresh file reaches the bootstrap in every mode. -/
theorem freshFile_bootstrap :
    ∃ header index namelist,
      readHeaderBlock (gsdCreate ⟨⟨0, fun _ => 0⟩, []⟩ ⟨[97], by decide⟩ ⟨[97], by decide⟩ 0).1.disk = .ok header ∧
      residentIndex (gsdCreate ⟨⟨0, fun _ => 0⟩, []⟩ ⟨[97], by decide⟩ ⟨[97], by decide⟩ 0).1.disk .readonly header = .ok index ∧
      readNamelist (gsdCreate ⟨⟨0, fun _ => 0⟩, []⟩ ⟨[97], by decide⟩ ⟨[97], by decide⟩ 0).1.disk header = .ok namelist ∧
      (∀ k, header.indexLocation + entrySize * header.indexAllocatedEntries ≤
            (gsdCreate ⟨⟨0, fun _ => 0⟩, []⟩ ⟨[97], by decide⟩ ⟨[97], by decide⟩ 0).1.disk.size →
          (gsdCreate ⟨⟨0, fun _ => 0⟩, []⟩ ⟨[97], by decide⟩ ⟨[97], by decide⟩ 0).1.disk.size ≤ maxFileSize →
          DensePrefix (loadedHandle (gsdCreate ⟨⟨0, fun _ => 0⟩, []⟩ ⟨[97], by decide⟩ ⟨[97], by decide⟩ 0).1.disk
            .readonly header index namelist) k →
          ValidPrefix (loadedHandle (gsdCreate ⟨⟨0, fun _ => 0⟩, []⟩ ⟨[97], by decide⟩ ⟨[97], by decide⟩ 0).1.disk
            .readonly header index namelist) k →
          ∃ h, gsdReadHeader (gsdCreate ⟨⟨0, fun _ => 0⟩, []⟩ ⟨[97], by decide⟩ ⟨[97], by decide⟩ 0).1.disk .readonly = .ok h ∧
            h.indexNumEntries = k ∧ h.curFrame = if k = 0 then 0 else (index (k - 1)).frame + 1) ∧
      ∀ h, gsdReadHeader (gsdCreate ⟨⟨0, fun _ => 0⟩, []⟩ ⟨[97], by decide⟩ ⟨[97], by decide⟩ 0).1.disk .readonly = .ok h →
        0 < h.indexNumEntries →
        (index (h.indexNumEntries - 1)).location ≠ 0 ∧
          (h.indexNumEntries = header.indexAllocatedEntries ∨ (index h.indexNumEntries).location = 0) :=
  ⟨_, _, _, rfl, rfl, rfl, gsdReadHeader_bootstrap rfl rfl rfl⟩

end Gsd
