import Gsd.Footprint
import Gsd.NameIteration

/-!
Reading back what a writer committed. Once a writer's session has written every entry and every
name, as `gsd_end_frame` leaves it, `gsd_open` of the file succeeds in every mode, provided no name
written is empty (`gsd_read_header` counts names up to the first empty one, and a run that wrote
one leaves a file no mode opens) and every frame written to is below `index_allocated_entries`
(`gsd_is_entry_valid`). Outside `append` mode every handle it returns counts frames up to the
last one written to (frames with no chunk after it are not counted); `gsd_find_chunk` on it
finds, for every frame and every name that is no proper prefix of a written name, the last write
of the name in that frame; `gsd_read_chunk` of the entry of every write whose size does not wrap
returns the bytes the write passed; and `gsd_find_matching_chunk_name` lists every written name
once when no name is a proper prefix of another. In `readwrite` mode the handle resumes the
writer's session.
-/

namespace Gsd

theorem writeRecords_append_endFrame (cs : List Call) (frame : Nat) :
    writeRecords (cs ++ [.endFrame]) frame = writeRecords cs frame := by
  induction cs generalizing frame with
  | nil => rfl
  | cons c cs ih => cases c <;> simp only [List.cons_append, writeRecords, List.append_eq, ih]

theorem frameCount_append_endFrame (cs : List Call) : frameCount (cs ++ [.endFrame]) = frameCount cs + 1 := by
  induction cs with
  | nil => rfl
  | cons c cs ih => cases c <;> simp only [List.cons_append, frameCount, List.append_eq, ih]

/-- The frame after the last frame with a write: where `gsd_read_header` puts the frame counter. -/
def nextFrame (W : List WriteRecord) : Nat := (W.getLast?.map fun r => r.frame + 1).getD 0

theorem GsdHandle.namelist_ne_zero_of_nameAt {h : GsdHandle} {a : Nat} (hn : h.nameAt a ≠ []) :
    h.namelist (namelistEntrySize * a) ≠ 0 := fun h0 => hn (by
  unfold GsdHandle.nameAt
  cases namelistEntrySize * h.header.namelistAllocatedEntries - namelistEntrySize * a with
  | zero => rfl
  | succ n => rw [cstrAt, if_pos h0])

theorem GsdHandle.namelist_eq_zero_of_nameAt {h : GsdHandle} {a : Nat}
    (ha : a < h.header.namelistAllocatedEntries) (hn : h.nameAt a = []) :
    h.namelist (namelistEntrySize * a) = 0 := by
  unfold GsdHandle.nameAt at hn
  obtain ⟨n, hfuel⟩ : ∃ n, namelistEntrySize * h.header.namelistAllocatedEntries - namelistEntrySize * a =
      n + 1 := ⟨_, (Nat.succ_pred_eq_of_pos (by unfold namelistEntrySize; omega)).symm⟩
  rw [hfuel, cstrAt] at hn
  by_contra h0
  rw [if_neg h0] at hn
  cases hn

/-- What a reader of the file needs beyond the writer's invariant, on a `readwrite` handle: the
resident entries carry no flags, and past the written names the namelist block starts each entry
with a NUL. -/
structure Readable (s : Sys) (h : GsdHandle) : Prop where
  flags : ∀ j < h.indexNumEntries, (h.index j).flags = 0
  names_clear : ∀ i, h.namelistWrittenEntries ≤ i → i < h.header.namelistAllocatedEntries →
    s.disk.view h.header.namelistLocation (namelistEntrySize * i) = 0

section Readable

variable {s s' : Sys} {h h' : GsdHandle} {E : Nat → GsdIndexEntry}

theorem Readable.writeChunk (hrd : Readable s h) (hi : Inv s h E) (hrw : h.openFlags = .readwrite)
    {name : CStr} {type : Nat} {N : UInt64} {M : UInt32} {flags : UInt8} {data : Nat → UInt8}
    (ho : gsdWriteChunk s h name type N M flags data = ⟨s', h', .ok ()⟩) : Readable s' h' := by
  obtain ⟨h₁, id, hc, hi', -, -, hsess, -⟩ := hi.writeChunk_session ho
  obtain ⟨hnum, hloc, halloc⟩ := sessionWriteChunk_fields h₁.session (chunkSize N.toNat M.toNat type)
  obtain ⟨-, -, -, hnw⟩ := sessionWriteChunk_keeps h₁.session (chunkSize N.toNat M.toNat type)
  obtain ⟨hh₁, hn₁⟩ := chunkId_keeps hc
  have hnum' : h'.indexNumEntries = h.indexNumEntries + 1 :=
    ((congrArg GsdHandle.indexNumEntries hsess).trans hnum).trans (congrArg (· + 1) hn₁)
  have hnw' : h'.namelistWrittenEntries = h.namelistWrittenEntries :=
    ((congrArg GsdHandle.namelistWrittenEntries hsess).trans hnw).trans (chunkId_counts hc).2.2
  have hloc' : h'.header.namelistLocation = h.header.namelistLocation :=
    ((congrArg (fun g => g.header.namelistLocation) hsess).trans hloc).trans
      (congrArg GsdHeader.namelistLocation hh₁)
  have halloc' : h'.header.namelistAllocatedEntries = h.header.namelistAllocatedEntries :=
    ((congrArg (fun g => g.header.namelistAllocatedEntries) hsess).trans halloc).trans
      (congrArg GsdHeader.namelistAllocatedEntries hh₁)
  refine ⟨fun j hj => ?_, fun i hi1 hi2 => ?_⟩
  · rw [hi'.entries.resident ((hi.writeChunk_openFlags ho).trans hrw) j hj, setEntry]
    split_ifs with hjn
    · rfl
    · rw [← hi.entries.resident hrw j (by omega)]; exact hrd.flags j (by omega)
  · rw [hloc']
    rw [halloc'] at hi2
    obtain ⟨k, -, -, -, hf⟩ := hi.file
    have := hf.image.namelist_le
    have := hf.namelist_after
    rw [(hi.writeChunk_keepsBody ho).view (by omega) (by unfold namelistEntrySize at *; omega)]
    exact hrd.names_clear i (by omega) hi2

theorem Readable.endFrame (hrd : Readable s h) (hi : Inv s h E) (hrw : h.openFlags = .readwrite)
    (ho : gsdEndFrame s h = ⟨s', h', .ok ()⟩) : Readable s' h' := by
  obtain ⟨hi', -, hn, -, -⟩ := hi.endFrame ho
  obtain ⟨hsess, -⟩ := hi.endFrame_session ho
  obtain ⟨hsz, hbytes⟩ := hi.endFrame_tails ho
  have hh : h'.header = h.header := (congrArg GsdHandle.header hsess).trans (sessionEndFrame_header _)
  have hnw : h'.namelistWrittenEntries = h.namelistNumEntries :=
    (congrArg GsdHandle.namelistWrittenEntries hsess).trans (sessionEndFrame_names _).2.2
  refine ⟨fun j hj => ?_, fun i hi1 hi2 => ?_⟩
  · rw [hi'.entries.resident ((gsdEndFrame_openFlags ho).trans hrw) j hj,
      ← hi.entries.resident hrw j (hn ▸ hj)]
    exact hrd.flags j (hn ▸ hj)
  · rw [hh] at hi2 ⊢
    obtain ⟨k, -, -, -, hf⟩ := hi.file
    have := hf.image.namelist_le
    have := hf.blocks_apart
    have := hf.image.index_le
    have := hi.num_le
    have := hi.names_written_le
    have hx : h.header.namelistLocation + namelistEntrySize * i < s.disk.size := by
      unfold namelistEntrySize at *; omega
    rw [Disk.view_of_lt _ (hsz ▸ hx), hbytes _ hx (by unfold Apart entrySize namelistEntrySize at *; omega)
        (.inr (by unfold namelistEntrySize at *; omega)), ← Disk.view_of_lt _ hx]
    exact hrd.names_clear i (by omega) hi2

theorem Readable.runCalls (cs : List Call) (hi : Inv s h E) (hrw : h.openFlags = .readwrite)
    (hrd : Readable s h) (ho : (Gsd.runCalls cs s h).status = .ok ()) :
    Readable (Gsd.runCalls cs s h).sys (Gsd.runCalls cs s h).handle := by
  induction cs generalizing s h E with
  | nil => exact hrd
  | cons c cs ih =>
    obtain ⟨hok, heq⟩ := Outcome.andThen_eq_ok ho
    have hstep := Outcome.eq_of_status hok
    simp only [Gsd.runCalls, heq] at ho ⊢
    obtain ⟨E', hi', -⟩ := hi.step (.call c hstep)
    cases c with
    | writeChunk name type N M data =>
      exact ih hi' ((hi.writeChunk_openFlags hstep).trans hrw) (hrd.writeChunk hi hrw hstep) ho
    | endFrame =>
      exact ih hi' ((gsdEndFrame_openFlags hstep).trans hrw) (hrd.endFrame hi hrw hstep) ho

end Readable

theorem readable_of_initialized {s₀ s : Sys} {application schema : CStr} {schemaVersion : Nat}
    {flags : GsdOpenFlag} {h : GsdHandle}
    (hinit : gsdInitializeFile s₀ application schema schemaVersion = (s, .ok ()))
    (ho : gsdReadHeader s.disk flags = .ok h) : Readable s h := by
  obtain ⟨hh, hn, -, -⟩ := initialized_handle hinit ho
  refine ⟨fun j hj => absurd hj (by omega), fun i _ _ => ?_⟩
  rw [gsdInitializeFile_ok hinit, hh]
  exact initialDisk_view (initialHeader_wf _ _ _) (by simp) _

theorem gsdIsEntryValid_of {h : GsdHandle} {m : Nat} (ht : gsdSizeofType (h.index m).type ≠ 0)
    (hs : (h.index m).location + (h.index m).size ≤ h.fileSize)
    (hf : (h.index m).frame < h.header.indexAllocatedEntries)
    (hid : (h.index m).id < h.namelistNumEntries) (hfl : (h.index m).flags = 0) :
    gsdIsEntryValid h m = true := by
  have hmod := Nat.mod_le ((h.index m).location + chunkSize (h.index m).N (h.index m).M (h.index m).type)
    (2 ^ 64)
  dsimp only [gsdIsEntryValid]
  rw [if_neg ht, if_neg (Nat.not_lt.2 (hmod.trans hs)), if_neg (Nat.not_le.2 hf),
    if_neg (Nat.not_le.2 hid), if_neg (not_not_intro hfl)]

theorem gsdIsEntryValid_of_id {h : GsdHandle} {m : Nat} (hid : h.namelistNumEntries ≤ (h.index m).id) :
    gsdIsEntryValid h m = false := by
  dsimp only [gsdIsEntryValid]
  split_ifs <;> rfl

section Reopen

variable {s : Sys} {h : GsdHandle} {E : Nat → GsdIndexEntry} {W : List WriteRecord}

theorem Recorded.namelistCount_eq (hr : Recorded s h E W) (hrd : Readable s h)
    (hn : h.namelistWrittenEntries = h.namelistNumEntries) (hne : ∀ r ∈ W, r.name.bytes ≠ []) :
    namelistCount (s.disk.view h.header.namelistLocation) h.header.namelistAllocatedEntries =
      h.namelistNumEntries := by
  refine Gsd.namelistCount_eq hr.inv.names_le_alloc (fun i hi => ?_) fun hlt => hrd.names_clear _ (by omega) hlt
  obtain ⟨r, hrW, hra⟩ := hr.slotName hi
  rw [hr.inv.disk_namelist _ (by rw [hn]; unfold namelistEntrySize; omega)]
  exact GsdHandle.namelist_ne_zero_of_nameAt (hra ▸ hne r hrW)

theorem Recorded.nameAt_of_namelist (hr : Recorded s h E W)
    (hn : h.namelistWrittenEntries = h.namelistNumEntries) {h' : GsdHandle}
    (hnl : h'.namelist = s.disk.view h.header.namelistLocation) (hhdr : h'.header = h.header) {a : Nat}
    (ha : a < h.namelistNumEntries) : h'.nameAt a = h.nameAt a :=
  (GsdHandle.nameAt_congr (by rw [hhdr]) (hr.inv.names_terminated a ha) fun u hu => by
    rw [hnl, hr.inv.disk_namelist _ (by rw [hn]; unfold namelistEntrySize at *; omega)]).symm

theorem Recorded.frame_lt_nextFrame (hr : Recorded s h E W) {j : Nat} (hj : j < W.length) :
    W[j].frame < nextFrame W := by
  have hl : W.length - 1 < W.length := by omega
  rw [nextFrame, List.getLast?_eq_getElem?, List.getElem?_eq_getElem hl, Option.map_some', Option.getD_some,
    Nat.lt_succ_iff, ← (hr.entries j hj).frame, ← (hr.entries _ hl).frame]
  exact hr.frames.mono j _ (by omega) (by rw [← hr.length]; omega)

theorem Recorded.reopen_holdsWrite (hr : Recorded s h E W) (hw : h.indexWrittenEntries = h.indexNumEntries)
    {flags : GsdOpenFlag} (hflags : flags ≠ .append) {h' : GsdHandle} (ho : gsdOpen s.disk flags = .ok h')
    {j : Nat} (hj : j < W.length) : HoldsWrite s.disk h' W j hj := by
  obtain ⟨k, hk1, hk2, -, hf⟩ := hr.inv.file
  obtain rfl : k = h.indexNumEntries := by omega
  have hjn : j < h.indexNumEntries := hr.length ▸ hj
  have hh' := gsdOpen_of_block hf hr.inv.payloads ho
  have hE : h'.index j = E j := by
    rw [hh', (bootstrappedHandle_of_ne_append (by simpa using hflags) _).1, loadedHandle_index,
      hr.inv.entries.committed j (by omega)]
  have hrj := hr.entries j hj
  refine ⟨hE ▸ hrj.type, hE ▸ hrj.N, hE ▸ hrj.M, fun hsize => ?_⟩
  rw [hE]
  exact hrj.readChunk (by rw [hh']; simpa using hflags) (by rw [hh']; simp) hf.image.size_le
    (hr.inv.payloads.after_header j hjn) (hr.inv.payloads.inside j hjn) hsize

/-- Once every name is written, `gsd_open` fails in every mode if the run wrote an empty name:
the first write's name is then empty too, as the empty name is a prefix of every name, so the
first entry names a namelist entry past the count `gsd_read_header` takes. -/
theorem Recorded.names_ne_nil_of_open (hr : Recorded s h E W) (hwn : WellNamed W)
    (hw : h.indexWrittenEntries = h.indexNumEntries) (hn : h.namelistWrittenEntries = h.namelistNumEntries)
    {flags : GsdOpenFlag} {h' : GsdHandle} (ho : gsdOpen s.disk flags = .ok h') :
    ∀ r ∈ W, r.name.bytes ≠ [] := by
  intro r hrW hempty
  obtain ⟨r₀, W', rfl⟩ := List.exists_cons_of_ne_nil (List.ne_nil_of_mem hrW)
  have h₀ : r₀.name.bytes = [] := by
    rcases List.mem_cons.1 hrW with rfl | hr'
    · exact hempty
    · exact ((List.pairwise_cons.1 hwn.prefixFree).1 r hr' (hempty ▸ List.nil_prefix)).trans hempty
  obtain ⟨k, hk1, hk2, -, hf⟩ := hr.inv.file
  obtain rfl : k = h.indexNumEntries := by omega
  have hpos : 0 < h.indexNumEntries := hr.length ▸ Nat.succ_pos _
  have hr₀ := hr.entries 0 (Nat.succ_pos _)
  have := hr₀.id_lt
  have := hr.inv.names_le_alloc
  -- the first write's namelist entry starts with a NUL in the file
  have hz : s.disk.view h.header.namelistLocation (namelistEntrySize * (E 0).id) = 0 := by
    rw [hr.inv.disk_namelist _ (by rw [hn]; unfold namelistEntrySize; omega)]
    exact GsdHandle.namelist_eq_zero_of_nameAt (by omega) (hr₀.name.trans h₀)
  have hE := hr.inv.entries.committed 0 (by omega)
  have hloc : (E 0).location ≠ 0 := by
    have := hr.inv.payloads.after_header 0 hpos; unfold headerSize at this; omega
  have hcnt : namelistCount (s.disk.view h.header.namelistLocation) h.header.namelistAllocatedEntries ≤
      (E 0).id := namelistCount_le_of_zero (by omega) hz
  rw [gsdOpen, hf.image.gsdReadHeader_eq, readIndexNumEntries,
    if_neg ((hf.image.blockResident _ _ _).not_probeFaults hf.image.index_pos),
    if_pos ⟨by simpa [hE] using hloc, gsdIsEntryValid_of_id (by simpa [hE] using hcnt)⟩] at ho
  cases ho

variable (hr : Recorded s h E W) (hrd : Readable s h) (hw : h.indexWrittenEntries = h.indexNumEntries)
  (hn : h.namelistWrittenEntries = h.namelistNumEntries) (hne : ∀ r ∈ W, r.name.bytes ≠ [])
include hr hrd hw hn hne

/-- Once every write is committed, a handle that `gsd_open` returns in `readwrite` mode resumes
the session: it records the same writes over the same entries, keeps what a reader needs, has
every entry and every name written, and counts frames from the frame after the last frame with a
write. -/
theorem Recorded.resumed {h' : GsdHandle} (ho : gsdOpen s.disk .readwrite = .ok h') :
    Recorded s h' E W ∧ Readable s h' ∧ h'.curFrame = nextFrame W ∧
      h'.indexWrittenEntries = h'.indexNumEntries ∧ h'.namelistWrittenEntries = h'.namelistNumEntries := by
  obtain ⟨k, hk1, hk2, -, hf⟩ := hr.inv.file
  obtain rfl : k = h.indexNumEntries := by omega
  obtain ⟨hi', hhdr, hnum', hiw', hcur'⟩ := inv_of_gsdOpen hf hr.inv.payloads (by decide) ho
  have hh' := gsdOpen_of_block hf hr.inv.payloads ho
  have hcnt := hr.namelistCount_eq hrd hn hne
  have hnn' : h'.namelistNumEntries = h.namelistNumEntries := by rw [hh']; simpa using hcnt
  have hnw' : h'.namelistWrittenEntries = h.namelistNumEntries := by rw [hh']; simpa using hcnt
  have hrw' : h'.openFlags = .readwrite := by rw [hh']; simp
  have hname : ∀ a < h.namelistNumEntries, h'.nameAt a = h.nameAt a := fun a ha =>
    hr.nameAt_of_namelist hn (by rw [hh']; simp) hhdr ha
  -- the frame after the last entry does not wrap: every entry is committed
  have hcur : h'.curFrame = nextFrame W := by
    rcases Nat.eq_zero_or_pos h.indexNumEntries with h0 | hpos
    · rw [hcur', if_pos h0, List.length_eq_zero.1 (hr.length.trans h0)]; rfl
    have hl : W.length - 1 < W.length := by rw [hr.length]; omega
    have hlast := hr.frames.committed_lt (h.indexNumEntries - 1) (by omega)
    have := hr.inv.cur_lt
    rw [hcur', if_neg (by omega), nextFrame, List.getLast?_eq_getElem?, List.getElem?_eq_getElem hl,
      Option.map_some', Option.getD_some, ← (hr.entries _ hl).frame, hr.length, Nat.mod_eq_of_lt (by omega)]
  have hfr' : FrameInv h' E := by
    refine ⟨fun i j hij hj => hr.frames.mono i j hij (hnum' ▸ hj), fun i hi => ?_,
      fun i h1 h2 => absurd h2 (by omega)⟩
    have hlen := hr.length
    rw [hcur, (hr.entries i (by omega)).frame]
    exact hr.frame_lt_nextFrame (by omega)
  refine ⟨⟨hi', hfr', hrw', hr.length.trans hnum'.symm, fun j hj => ?_, fun a ha => ?_,
    (hnw'.trans hnn'.symm) ▸ hi'.names_perm, fun a ha b hb hab => ?_⟩,
    ⟨fun j hj => ?_, fun i hi1 hi2 => ?_⟩, hcur, hiw'.trans hnum'.symm, hnw'.trans hnn'.symm⟩
  · -- each write's entry names a committed namelist entry holding the write's name
    have hrj := hr.entries j hj
    exact { hrj with
      id_lt := hnn' ▸ hrj.id_lt
      name := (hname _ hrj.id_lt).trans hrj.name
      committed := fun _ => hnw' ▸ hrj.id_lt }
  · obtain ⟨j, hj, hid, -⟩ := hr.slot a (hnn' ▸ ha)
    exact ⟨j, hj, hid, fun hle => absurd ha (by omega)⟩
  · rw [hnn'] at ha hb
    rw [hname a ha, hname b hb] at hab
    exact hr.distinct a ha b hb hab
  · rw [hi'.entries.resident hrw' j hj, ← hr.inv.entries.resident hr.readwrite j (by omega)]
    exact hrd.flags j (by omega)
  · rw [hhdr] at hi2 ⊢
    exact hrd.names_clear i (by omega) hi2

theorem Recorded.reopen_catalog {flags : GsdOpenFlag} (hflags : flags ≠ .append) {h' : GsdHandle}
    (ho : gsdOpen s.disk flags = .ok h') : Catalog h' W ∧ h'.curFrame = nextFrame W := by
  obtain ⟨k, hk1, hk2, -, hf⟩ := hr.inv.file
  obtain rfl : k = h.indexNumEntries := by omega
  obtain ⟨hr', -, hcur, -⟩ := hr.resumed hrd hw hn hne (gsdOpen_of_block_ok hf hr.inv.payloads ho .readwrite)
  rw [gsdOpen_of_block hf hr.inv.payloads ho]
  cases flags with
  | readonly => exact ⟨{ hr'.catalog with flags := by simp }, by rw [← hcur]; simp⟩
  | readwrite => exact ⟨hr'.catalog, hcur⟩
  | append => exact absurd rfl hflags

theorem Recorded.reopen_findChunk {flags : GsdOpenFlag} (hflags : flags ≠ .append) {h' : GsdHandle}
    (ho : gsdOpen s.disk flags = .ok h') (frame : Nat) (name : CStr)
    (hname : ∀ r ∈ W, name.bytes <+: r.name.bytes → r.name.bytes = name.bytes) :
    gsdFindChunk h' frame name = findWrite W frame name := by
  obtain ⟨hc, hcur⟩ := hr.reopen_catalog hrd hw hn hne hflags ho
  -- a frame written to, or a frame past the count, where nothing was written
  by_cases hlt : frame < h'.curFrame
  · exact hc.findChunk hlt name hname
  have hnone : findWrite W frame name = none := by
    cases hfw : findWrite W frame name with
    | none => rfl
    | some j =>
      obtain ⟨hj, hjf, -⟩ := (findWrite_spec W frame name).2 j hfw
      exact absurd (hcur ▸ hjf ▸ hr.frame_lt_nextFrame hj) hlt
  rw [hnone]
  simp only [gsdFindChunk, gsdGetNframes, if_pos (Nat.not_lt.1 hlt)]

theorem Recorded.reopen_findsWrite {flags : GsdOpenFlag} (hflags : flags ≠ .append) {h' : GsdHandle}
    (ho : gsdOpen s.disk flags = .ok h') (frame : Nat) (name : CStr)
    (hname : ∀ r ∈ W, name.bytes <+: r.name.bytes → r.name.bytes = name.bytes) :
    FindsWrite s.disk h' W frame name :=
  findsWrite_of_findWrite (hr.reopen_findChunk hrd hw hn hne hflags ho frame name hname)
    fun _ hj => hr.reopen_holdsWrite hw hflags ho hj

variable (halloc : ∀ r ∈ W, r.frame < h.header.indexAllocatedEntries)
include halloc

theorem Recorded.validPrefix (flags : GsdOpenFlag) :
    ValidPrefix (loadedHandle s.disk flags h.header (diskIndex s.disk h.header.indexLocation)
      (s.disk.view h.header.namelistLocation)) h.indexNumEntries := by
  have hidx : ∀ m < h.indexNumEntries, diskIndex s.disk h.header.indexLocation m = E m := fun m hm =>
    hr.inv.entries.committed m (by omega)
  intro m hm
  have hrm := hr.entries m (hr.length ▸ hm)
  refine ⟨gsdIsEntryValid_of ?_ ?_ ?_ ?_ ?_, fun l hl => ?_⟩ <;>
    simp only [loadedHandle_index, loadedHandle_fileSize, loadedHandle_header,
      loadedHandle_namelistNumEntries, hidx m hm]
  · exact hrm.type ▸ hrm.checked.2.2
  · exact hr.inv.payloads.inside m hm
  · exact hrm.frame ▸ halloc _ (List.getElem_mem _)
  · rw [hr.namelistCount_eq hrd hn hne]; exact hrm.id_lt
  · rw [← hr.inv.entries.resident hr.readwrite m hm]; exact hrd.flags m hm
  · rw [hidx l (by omega)]; exact hr.frames.mono l m hl hm

/-- Once every write is committed, `gsd_open` finds every entry, in every mode. -/
theorem Recorded.gsdOpen_eq (flags : GsdOpenFlag) :
    gsdOpen s.disk flags = .ok (bootstrappedHandle (loadedHandle s.disk flags h.header
      (diskIndex s.disk h.header.indexLocation) (s.disk.view h.header.namelistLocation)) h.indexNumEntries) := by
  obtain ⟨k, hk1, hk2, -, hf⟩ := hr.inv.file
  obtain rfl : k = h.indexNumEntries := by omega
  rw [gsdOpen, hf.image.gsdReadHeader_eq,
    (readIndexNumEntries_spec (hf.densePrefix hr.inv.payloads flags) (hf.image.blockResident _ _ _)).2
      (hr.validPrefix hrd hw hn hne halloc flags)]
  rfl

/-- Once every write is committed, `gsd_open` outside `append` mode succeeds and returns a handle
that counts frames up to the last one written to, finds the last write of each name in each
frame, and holds every write. -/
theorem Recorded.reopen {flags : GsdOpenFlag} (hflags : flags ≠ .append) :
    ∃ h', gsdOpen s.disk flags = .ok h' ∧ gsdGetNframes h' = nextFrame W ∧
      (∀ frame (name : CStr), (∀ r ∈ W, name.bytes <+: r.name.bytes → r.name.bytes = name.bytes) →
        gsdFindChunk h' frame name = findWrite W frame name) ∧
      ∀ j (hj : j < W.length), HoldsWrite s.disk h' W j hj :=
  have ho := hr.gsdOpen_eq hrd hw hn hne halloc flags
  ⟨_, ho, (hr.reopen_catalog hrd hw hn hne hflags ho).2, hr.reopen_findChunk hrd hw hn hne hflags ho,
    fun _ hj => hr.reopen_holdsWrite hw hflags ho hj⟩

end Reopen

section Listing

variable {h : GsdHandle} {W : List WriteRecord}

theorem pair_inj_of_perm {n i j : Nat} (hp : (h.names.take n).Perm ((List.range n).map fun i => ⟨i, i⟩))
    (hi : i < n) (hj : j < n) (he : h.pair i = h.pair j) (hl : n ≤ h.names.length) : i = j := by
  have hnd : (h.names.take n).Nodup :=
    hp.nodup_iff.2 ((List.nodup_range n).map fun a b hab => by injection hab)
  have hpair : ∀ k (hk : k < (h.names.take n).length), h.pair k = (h.names.take n)[k] := fun k hk => by
    have hkn : k < n := by simp only [List.length_take] at hk; omega
    rw [GsdHandle.pair, List.getD_eq_getElem?_getD, ← List.getElem?_take_of_lt hkn, List.getElem?_eq_getElem hk,
      Option.getD_some]
  have hti : i < (h.names.take n).length := by simp only [List.length_take]; omega
  have htj : j < (h.names.take n).length := by simp only [List.length_take]; omega
  exact hnd.getElem_inj_iff.1 ((hpair i hti).symm.trans (he.trans (hpair j htj)))

theorem Catalog.prefixFree (hc : Catalog h W)
    (hfree : ∀ r ∈ W, ∀ r' ∈ W, r.name.bytes <+: r'.name.bytes → r.name.bytes = r'.name.bytes) :
    PrefixFree h := by
  intro i j hi hj hpre
  obtain ⟨hsi, hidi⟩ := pair_of_perm hc.window hc.window_le hi
  obtain ⟨hsj, hidj⟩ := pair_of_perm hc.window hc.window_le hj
  obtain ⟨r, hr, hra⟩ := hc.named _ hsi
  obtain ⟨r', hr', hra'⟩ := hc.named _ hsj
  rw [GsdHandle.nameOf, GsdHandle.nameOf, hra, hra'] at hpre
  have hslot := hc.distinct _ hsi _ hsj (by rw [hra, hra', hfree r hr r' hr' hpre])
  refine pair_inj_of_perm hc.window hi hj ?_ hc.window_le
  cases hpi : h.pair i
  cases hpj : h.pair j
  rw [hpi, hpj] at hslot
  rw [hpi] at hidi
  rw [hpj] at hidj
  simp only at hslot hidi hidj
  rw [hidi, hidj, hslot]

/-- On a catalogued handle that has committed every write, with prefix-free names, the calls of
`gsd_find_matching_chunk_name` from `NULL` on list each distinct written name that starts with
`m` once, and then return NULL. -/
theorem Catalog.enumerates (hc : Catalog h W) (hall : ∀ j (hj : j < W.length), W[j].frame < h.curFrame)
    (hfree : ∀ r ∈ W, ∀ r' ∈ W, r.name.bytes <+: r'.name.bytes → r.name.bytes = r'.name.bytes) (m : CStr) :
    ∃ n, matchingCall h m n = none ∧
      (((List.range n).filterMap (matchingCall h m)).map h.nameAt).Perm
        ((W.map fun r => r.name.bytes).dedup.filter fun x => m.bytes <+: x) := by
  have hp := hc.prefixFree hfree
  have hcall := funext (matchingCall_eq_matchingEntries m hc.sorted hp (hc.window_fits.trans (by decide)))
  refine ⟨(matchingEntries h m).length, by rw [hcall, List.getElem?_eq_none_iff.2 le_rfl], ?_⟩
  rw [hcall, filterMap_range_getElem?, matchingEntries, List.map_map]
  -- the names of the matching window positions, against the matching written names
  have hnd : (((List.range h.namelistWrittenEntries).filter fun i => m.bytes <+: h.nameOf i).map
      (h.nameAt ∘ fun i => (h.pair i).slot)).Nodup :=
    ((List.nodup_range _).filter _).map_on fun i hi j hj he => by
      simp only [List.mem_filter, List.mem_range] at hi hj
      have he' : h.nameOf i = h.nameOf j := he
      exact hp i j hi.1 hj.1 (he' ▸ List.prefix_refl _)
  refine (List.perm_ext_iff_of_nodup hnd ((List.nodup_dedup _).filter _)).2 fun x => ?_
  simp only [List.mem_map, List.mem_filter, List.mem_range, List.mem_dedup, Function.comp, decide_eq_true_eq]
  constructor
  · rintro ⟨i, ⟨hi, hpre⟩, rfl⟩
    obtain ⟨r, hr, hra⟩ := hc.named _ (pair_of_perm hc.window hc.window_le hi).1
    exact ⟨⟨r, hr, hra.symm⟩, hpre⟩
  · rintro ⟨⟨r, hr, rfl⟩, hpre⟩
    obtain ⟨j, hj, rfl⟩ := List.mem_iff_getElem.1 hr
    obtain ⟨hid, hname⟩ := hc.committed j hj (hall j hj)
    obtain ⟨i, hi, hpi⟩ := exists_pair_of_perm hc.window hid
    have hni : h.nameOf i = W[j].name.bytes := by rw [GsdHandle.nameOf, hpi, hname]
    exact ⟨i, ⟨hi, hni ▸ hpre⟩, by rw [hpi, hname]⟩

end Listing

theorem Reach.runCalls_endFrame_commits {s : Sys} {h : GsdHandle} (hr : Reach (fun _ => True) s h)
    {cs : List Call} (hlast : cs.getLast? = some .endFrame) (ho : (Gsd.runCalls cs s h).status = .ok ()) :
    (Gsd.runCalls cs s h).handle.indexWrittenEntries = (Gsd.runCalls cs s h).handle.indexNumEntries ∧
      (Gsd.runCalls cs s h).handle.namelistWrittenEntries = (Gsd.runCalls cs s h).handle.namelistNumEntries := by
  obtain ⟨cs, rfl⟩ : ∃ cs', cs = cs' ++ [.endFrame] := by
    rcases List.eq_nil_or_concat cs with rfl | ⟨cs', c, rfl⟩
    · cases hlast
    · rw [List.concat_eq_append, List.getLast?_concat, Option.some_inj] at hlast
      exact ⟨cs', by rw [List.concat_eq_append, hlast]⟩
  rw [runCalls_append] at ho ⊢
  obtain ⟨hok, heq⟩ := Outcome.andThen_eq_ok ho
  rw [heq, runCalls_singleton] at ho ⊢
  obtain ⟨E, hi, -⟩ := (hr.runCalls hok).inv
  have hstep := Outcome.eq_of_status ho
  obtain ⟨-, -, hn, hw, -⟩ := hi.endFrame hstep
  obtain ⟨hsess, -⟩ := hi.endFrame_session hstep
  obtain ⟨-, hnn, hnw⟩ := sessionEndFrame_names (Gsd.runCalls cs s h).handle.session
  exact ⟨hw.trans hn.symm, ((congrArg GsdHandle.namelistWrittenEntries hsess).trans hnw).trans
    ((congrArg GsdHandle.namelistNumEntries hsess).trans hnn).symm⟩

theorem started_of_new {sys s₀ : Sys} {h₀ : GsdHandle} {application schema : CStr} {schemaVersion : Nat}
    (hnew : (∃ fileExists exclusiveCreate, gsdCreateAndOpen sys fileExists application schema
        schemaVersion .readwrite exclusiveCreate = (s₀, .ok h₀)) ∨
      gsdCreate sys application schema schemaVersion = (s₀, .ok ()) ∧
        gsdOpen s₀.disk .readwrite = .ok h₀) :
    Reach (fun _ => True) s₀ h₀ ∧ Recorded s₀ h₀ (fun _ => default) [] ∧ h₀.curFrame = 0 ∧
      Readable s₀ h₀ := by
  rcases hnew with ⟨_, _, ho⟩ | ⟨hc, ho⟩
  · obtain ⟨-, hinit, hrd⟩ := gsdCreateAndOpen_ok ho
    obtain ⟨hr, hcur⟩ := recorded_of_initialized hinit hrd
    exact ⟨.createAndOpen ho, hr, hcur, readable_of_initialized hinit hrd⟩
  · obtain ⟨hr, hcur⟩ := recorded_of_initialized hc ho
    exact ⟨.createThenOpen hc (by decide) ho, hr, hcur, readable_of_initialized hc ho⟩

/-- On the `readwrite` handle of a new file, after a run of successful, well-named calls whose
frame counter does not wrap, `gsd_find_chunk` of a frame before `gsd_get_nframes` and of a name
that is no proper prefix of a written name finds the writes; once the run has ended with
`gsd_end_frame`, so does `gsd_find_chunk` of every frame on every handle that `gsd_open` outside
`append` mode returns for the file. -/
theorem gsdFindChunk_finds_run_write {sys s₀ : Sys} {h₀ : GsdHandle} {application schema : CStr}
    {schemaVersion : Nat}
    (hnew : (∃ fileExists exclusiveCreate, gsdCreateAndOpen sys fileExists application schema
        schemaVersion .readwrite exclusiveCreate = (s₀, .ok h₀)) ∨
      gsdCreate sys application schema schemaVersion = (s₀, .ok ()) ∧
        gsdOpen s₀.disk .readwrite = .ok h₀)
    {cs : List Call} (hrun : (runCalls cs s₀ h₀).status = .ok ())
    (hnames : WellNamed (writeRecords cs 0)) (hframes : frameCount cs < 2 ^ 64) (frame : Nat) (name : CStr)
    (hname : ∀ r ∈ writeRecords cs 0, name.bytes <+: r.name.bytes → r.name.bytes = name.bytes) :
    (frame < gsdGetNframes (runCalls cs s₀ h₀).handle →
      FindsWrite (runCalls cs s₀ h₀).sys.disk (runCalls cs s₀ h₀).handle (writeRecords cs 0) frame name) ∧
    (cs.getLast? = some .endFrame → ∀ flags, flags ≠ .append → ∀ h',
      gsdOpen (runCalls cs s₀ h₀).sys.disk flags = .ok h' →
      FindsWrite (runCalls cs s₀ h₀).sys.disk h' (writeRecords cs 0) frame name) := by
  obtain ⟨hreach, hr₀, hcur₀, hrd₀⟩ := started_of_new hnew
  have hW : [] ++ writeRecords cs h₀.curFrame = writeRecords cs 0 := by rw [hcur₀, List.nil_append]
  obtain ⟨E, hr⟩ := hr₀.runCalls cs hrun (hW ▸ hnames) (by rw [hcur₀]; omega)
  rw [hW] at hr
  refine ⟨fun hf => hr.findsWrite hf name hname, fun hlast flags hflags h' ho => ?_⟩
  obtain ⟨hiw, hnw⟩ := hreach.runCalls_endFrame_commits hlast hrun
  exact hr.reopen_findsWrite (hrd₀.runCalls cs hr₀.inv hr₀.readwrite hrun) hiw hnw
    (hr.names_ne_nil_of_open hnames hiw hnw ho) hflags ho frame name hname

/-- One write of `"a"` in frame 0, then `gsd_end_frame`. -/
def oneWriteRun : List Call := [writeA, .endFrame]

theorem oneWriteRun_finds_chunk :
    ∃ s₀ h₀, gsdCreateAndOpen emptySys false nameA nameA 0 .readwrite false = (s₀, .ok h₀) ∧
      (runCalls oneWriteRun s₀ h₀).status = .ok () ∧ WellNamed (writeRecords oneWriteRun 0) ∧
      frameCount oneWriteRun < 2 ^ 64 ∧
      (∀ r ∈ writeRecords oneWriteRun 0, nameA.bytes <+: r.name.bytes → r.name.bytes = nameA.bytes) ∧
      0 < gsdGetNframes (runCalls oneWriteRun s₀ h₀).handle ∧
      FindsWrite (runCalls oneWriteRun s₀ h₀).sys.disk (runCalls oneWriteRun s₀ h₀).handle
        (writeRecords oneWriteRun 0) 0 nameA ∧
      oneWriteRun.getLast? = some .endFrame ∧
      ∃ h', gsdOpen (runCalls oneWriteRun s₀ h₀).sys.disk .readonly = .ok h' ∧
        FindsWrite (runCalls oneWriteRun s₀ h₀).sys.disk h' (writeRecords oneWriteRun 0) 0 nameA :=
  have hnames : WellNamed (writeRecords oneWriteRun 0) := ⟨by decide, by decide, by decide⟩
  have hfind := @gsdFindChunk_finds_run_write emptySys _ _ nameA nameA 0 (.inl ⟨false, false, rfl⟩)
    oneWriteRun rfl hnames (by decide) 0 nameA (by decide)
  ⟨_, _, rfl, rfl, hnames, by decide, by decide, by decide, hfind.1 (by decide), rfl, _, rfl,
    hfind.2 rfl .readonly (by decide) _ rfl⟩

/-- `"ab"`, of which `"a"` is a proper prefix. -/
def nameAB : CStr := ⟨[97, 98], by decide⟩

/-- One write of `"ab"` in frame 0, then `gsd_end_frame`. -/
def prefixRun : List Call := [.writeChunk nameAB gsdTypeUint8 1 1 (fun _ => 7), .endFrame]

/-- No write of `"a"` was made, yet `gsd_find_chunk(0, "a")` returns the entry of `"ab"`:
`gsd_find_name` compares only `strlen("a")` bytes. -/
theorem prefixRun_finds_unwritten_name :
    ∃ s₀ h₀, gsdCreateAndOpen emptySys false nameA nameA 0 .readwrite false = (s₀, .ok h₀) ∧
      (runCalls prefixRun s₀ h₀).status = .ok () ∧ 0 < gsdGetNframes (runCalls prefixRun s₀ h₀).handle ∧
      (∀ r ∈ writeRecords prefixRun 0, r.name.bytes ≠ nameA.bytes) ∧
      gsdFindChunk (runCalls prefixRun s₀ h₀).handle 0 nameA = some 0 :=
  ⟨_, _, rfl, rfl, by decide, by decide, rfl⟩

end Gsd
