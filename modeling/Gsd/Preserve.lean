import Gsd.Invariant

/-!
Each call of a writer's session keeps `Inv` and `FrameInv`. `gsd_write_chunk` is taken apart in
the order the source runs it: the id (a cached name, or `gsd_append_name`), the payload write at
the end of the file, `gsd_expand_index` when the block is full, and the store of the entry;
`gsd_end_frame` in its index write and its namelist write. The ghost entries `E` change only at
the store, where slot `index_num_entries` becomes the new entry.
-/

namespace Gsd

/-- The bytes no call of the writer may write: past the header and inside the file, outside the
index block and the namelist block the header points to. Every payload lies here. -/
def Frozen (s : Sys) (h : GsdHandle) (j : Nat) : Prop :=
  headerSize ≤ j ∧ j < s.disk.size ∧
    Apart j 1 h.header.indexLocation (entrySize * h.header.indexAllocatedEntries) ∧
    Apart j 1 h.header.namelistLocation (namelistEntrySize * h.header.namelistAllocatedEntries)

/-- A write that touches no byte satisfying `P`. -/
def DiskOp.Misses (P : Nat → Prop) : DiskOp → Prop
  | .pwrite off n _ => ∀ j, P j → j < off ∨ off + n ≤ j
  | .ftruncate _ => False

theorem DiskOp.Misses.mono {P Q : Nat → Prop} {op : DiskOp} (h : op.Misses Q) (hPQ : ∀ j, P j → Q j) :
    op.Misses P := by
  cases op with
  | pwrite off n buf => exact fun j hj => h j (hPQ j hj)
  | ftruncate => exact h.elim

/-- From `(s, h)` to `(s', h')` the log grew only by writes that miss the frozen bytes of
`(s, h)`, those bytes kept their values, and every frozen byte stays frozen. -/
structure Kept (s : Sys) (h : GsdHandle) (s' : Sys) (h' : GsdHandle) : Prop where
  ops : ∃ ops, s'.log = s.log ++ ops ∧ ∀ op ∈ ops, op.Misses (Frozen s h)
  bytes : ∀ j, Frozen s h j → s'.disk.byte j = s.disk.byte j
  frozen : ∀ j, Frozen s h j → Frozen s' h' j

theorem Kept.of_header {s : Sys} {h h' : GsdHandle} (hh : h'.header = h.header) : Kept s h s h' :=
  ⟨⟨[], by simp, fun _ h => absurd h (List.not_mem_nil _)⟩, fun _ _ => rfl,
    fun j hj => by simpa only [Frozen, hh] using hj⟩

theorem Kept.trans {s₁ s₂ s₃ : Sys} {h₁ h₂ h₃ : GsdHandle} (k₁ : Kept s₁ h₁ s₂ h₂)
    (k₂ : Kept s₂ h₂ s₃ h₃) : Kept s₁ h₁ s₃ h₃ := by
  obtain ⟨ops₁, hl₁, hm₁⟩ := k₁.ops
  obtain ⟨ops₂, hl₂, hm₂⟩ := k₂.ops
  refine ⟨⟨ops₁ ++ ops₂, by rw [hl₂, hl₁, List.append_assoc], fun op hop => ?_⟩,
    fun j hj => (k₂.bytes j (k₁.frozen j hj)).trans (k₁.bytes j hj),
    fun j hj => k₂.frozen j (k₁.frozen j hj)⟩
  rcases List.mem_append.1 hop with hop | hop
  · exact hm₁ op hop
  · exact (hm₂ op hop).mono k₁.frozen

theorem Kept.issue_end {s : Sys} {h h' : GsdHandle} {off n : Nat} {buf : Nat → UInt8}
    (hoff : s.disk.size ≤ off) (hh : h'.header = h.header) :
    Kept s h (s.issue (.pwrite off n buf)) h' := by
  refine ⟨⟨_, Sys.log_issue s _, fun op hop => ?_⟩, fun j hj => ?_, fun j hj => ?_⟩
  · rw [List.mem_singleton.1 hop]
    exact fun j hj => .inl (by have := hj.2.1; omega)
  · exact Disk.byte_write_outside _ _ (.inl (by have := hj.2.1; omega)) hj.2.1
  · obtain ⟨h1, h2, h3, h4⟩ := hj
    refine ⟨h1, ?_, by rwa [hh], by rwa [hh]⟩
    simp only [Sys.disk_issue, Disk.apply_pwrite]
    by_cases hn : n = 0
    · subst hn; simpa using h2
    · rw [Disk.size_write _ _ _ hn]; omega

/-- `d'` keeps every byte of `d` below the old end of the file. -/
def Disk.Extends (d d' : Disk) : Prop := d.size ≤ d'.size ∧ ∀ x < d.size, d'.byte x = d.byte x

theorem Disk.Extends.view {d d' : Disk} (he : d.Extends d') {off j : Nat} (h : off + j < d.size) :
    d'.view off j = d.view off j := by
  rw [Disk.view_of_lt _ (by have := he.1; omega), Disk.view_of_lt _ h, he.2 _ h]

theorem Disk.extends_write_end (d : Disk) {off : Nat} (n : Nat) (buf : Nat → UInt8)
    (hoff : d.size ≤ off) : d.Extends (d.write off n buf) := by
  refine ⟨?_, fun x hx => Disk.byte_write_outside _ _ (.inl (by omega)) hx⟩
  by_cases hn : n = 0
  · subst hn; simp
  · rw [Disk.size_write _ _ _ hn]; omega

section Grow

variable {d d' : Disk} {hdr : GsdHeader} {E : Nat → GsdIndexEntry} {k n : Nat}

theorem HeaderImage.extend (hi : HeaderImage d hdr) (he : d.Extends d') (hmax : d'.size ≤ maxFileSize) :
    HeaderImage d' hdr :=
  { hi with
    bytes := fun x hx => by rw [he.2 x (by have := hi.header_le; omega)]; exact hi.bytes x hx
    size_le := hmax
    header_le := hi.header_le.trans he.1
    index_le := hi.index_le.trans he.1
    namelist_le := hi.namelist_le.trans he.1 }

theorem FileInv.extend (hf : FileInv d hdr E k) (he : d.Extends d') (hmax : d'.size ≤ maxFileSize)
    (hc : d'.Clean) : FileInv d' hdr E k :=
  { hf with
    clean := hc
    image := hf.image.extend he hmax
    block := fun j hj => by
      rw [he.view (by have := hf.image.index_le; omega)]; exact hf.block j hj
    names_terminated := fun i hi => by
      obtain ⟨t, ht, hz⟩ := hf.names_terminated i hi
      have := hf.image.namelist_le
      refine ⟨t, ht, ?_⟩
      rw [he.view (by unfold namelistEntrySize at *; omega)]; exact hz }

theorem Payloads.extend (hp : Payloads d hdr E n) (he : d.Extends d') : Payloads d' hdr E n :=
  { hp with inside := fun i hi => (hp.inside i hi).trans he.1 }

end Grow

theorem cstrAt_congr {buf buf' : Nat → UInt8} :
    ∀ fuel start t, buf (start + t) = 0 → (∀ u ≤ t, buf (start + u) = buf' (start + u)) →
      cstrAt buf start fuel = cstrAt buf' start fuel
  | 0, _, _, _, _ => rfl
  | fuel + 1, start, t, hz, heq => by
    have h0 : buf start = buf' start := heq 0 (Nat.zero_le _)
    simp only [cstrAt, ← h0]
    split_ifs with hb
    · rfl
    · have ht : t ≠ 0 := by rintro rfl; exact hb hz
      congr 1
      refine cstrAt_congr fuel (start + 1) (t - 1)
        (by rwa [show start + 1 + (t - 1) = start + t by omega]) fun u hu => ?_
      rw [show start + 1 + u = start + (u + 1) by omega]
      exact heq (u + 1) (by omega)

theorem GsdHandle.nameAt_congr {h h' : GsdHandle} {slot : Nat}
    (ha : h.header.namelistAllocatedEntries = h'.header.namelistAllocatedEntries)
    (hz : ∃ t < namelistEntrySize, h.namelist (namelistEntrySize * slot + t) = 0)
    (heq : ∀ u < namelistEntrySize,
      h.namelist (namelistEntrySize * slot + u) = h'.namelist (namelistEntrySize * slot + u)) :
    h.nameAt slot = h'.nameAt slot := by
  obtain ⟨t, ht, hz⟩ := hz
  simp only [GsdHandle.nameAt, ha]
  exact cstrAt_congr _ _ t hz fun u hu => heq u (by omega)

theorem pair_of_perm {h : GsdHandle} {n i : Nat}
    (hp : (h.names.take n).Perm ((List.range n).map fun i => ⟨i, i⟩)) (hl : n ≤ h.names.length)
    (hi : i < n) : (h.pair i).slot < n ∧ (h.pair i).id = (h.pair i).slot := by
  have hmem : h.pair i ∈ h.names.take n := by
    rw [GsdHandle.pair, List.getD_eq_getElem?_getD, List.getElem?_eq_getElem (by omega),
      Option.getD_some]
    exact List.mem_iff_getElem.2 ⟨i, by simp; omega, by simp⟩
  obtain ⟨j, hj, he⟩ := List.mem_map.1 (hp.subset hmem)
  rw [← he]
  exact ⟨List.mem_range.1 hj, rfl⟩

theorem take_set_self {α : Type} (l : List α) (n : Nat) (a : α) : (l.set n a).take n = l.take n :=
  List.ext_getElem? fun i => by
    rw [List.getElem?_take, List.getElem?_take]
    split
    · exact List.getElem?_set_ne (by omega)
    · rfl

theorem namelistEntryBytes_getD_last (name : List UInt8) :
    (namelistEntryBytes name).getD (namelistEntrySize - 1) 0 = 0 := by
  simp [namelistEntryBytes, List.getD_eq_getElem?_getD, List.getElem?_append_right]

section AppendName

variable {s : Sys} {h h₁ : GsdHandle} {E : Nat → GsdIndexEntry} {name : CStr} {id : Nat}

theorem Inv.appendName (hi : Inv s h E) (ha : gsdAppendName h name = (h₁, .ok id)) :
    Inv s h₁ E ∧ id = h.namelistNumEntries ∧
      h₁ = { h with
        namelist := h₁.namelist, namesAllocatedSize := h₁.namesAllocatedSize, names := h₁.names
        namelistNumEntries := h.namelistNumEntries + 1 } := by
  obtain ⟨-, hfull, hid, rfl⟩ := gsdAppendName_ok ha
  have hna : h.header.namelistAllocatedEntries = gsdInitialNamelistSize := by
    obtain ⟨k, -, -, -, hf⟩ := hi.file; exact hf.namelist_alloc
  have hn : h.namelistNumEntries < gsdInitialNamelistSize := by have := hi.names_le_alloc; omega
  have hmod : h.namelistNumEntries % 2 ^ 16 = h.namelistNumEntries :=
    Nat.mod_eq_of_lt (by unfold gsdInitialNamelistSize at hn; omega)
  have hnas := hi.names_le_size
  have hpos := hi.names_size_pos
  have hnasle := hi.names_size_le
  have hlen := hi.names_length
  have hw := hi.names_written_le
  have h2 : h.namesAllocatedSize * 2 % 2 ^ 64 = h.namesAllocatedSize * 2 :=
    Nat.mod_eq_of_lt (by unfold gsdInitialNamelistSize at hnasle; omega)
  have hstore : ∀ j, j < namelistEntrySize * h.namelistNumEntries →
      storeBytes h.namelist (namelistEntrySize * h.namelistNumEntries)
        (namelistEntryBytes name.bytes) j = h.namelist j :=
    fun j hj => storeBytes_of_lt _ _ hj
  have hlast : storeBytes h.namelist (namelistEntrySize * h.namelistNumEntries)
      (namelistEntryBytes name.bytes) (namelistEntrySize * h.namelistNumEntries + (namelistEntrySize - 1)) = 0 := by
    simp only [storeBytes, namelistEntryBytes, List.length_append, length_strncpy,
      List.length_singleton]
    rw [if_pos ⟨by omega, by unfold namelistEntrySize; omega⟩, Nat.add_sub_cancel_left]
    exact namelistEntryBytes_getD_last name.bytes
  generalize storeBytes h.namelist (namelistEntrySize * h.namelistNumEntries)
    (namelistEntryBytes name.bytes) = S at hstore hlast ⊢
  have hA : h.namelistNumEntries + 1 ≤ (if h.namesAllocatedSize < h.namelistNumEntries + 1 then
      h.namesAllocatedSize * 2 % 2 ^ 64 else h.namesAllocatedSize) ∧
      0 < (if h.namesAllocatedSize < h.namelistNumEntries + 1 then
      h.namesAllocatedSize * 2 % 2 ^ 64 else h.namesAllocatedSize) ∧
      (if h.namesAllocatedSize < h.namelistNumEntries + 1 then
      h.namesAllocatedSize * 2 % 2 ^ 64 else h.namesAllocatedSize) ≤ 2 * gsdInitialNamelistSize := by
    rw [h2]; unfold gsdInitialNamelistSize at *; split <;> omega
  have hLlen : (if h.namesAllocatedSize < h.namelistNumEntries + 1 then
      h.names ++ List.replicate (h.namesAllocatedSize * 2 % 2 ^ 64 - h.names.length) default
      else h.names).length = (if h.namesAllocatedSize < h.namelistNumEntries + 1 then
      h.namesAllocatedSize * 2 % 2 ^ 64 else h.namesAllocatedSize) := by
    rw [h2]; split
    · simp only [List.length_append, List.length_replicate, hlen]; omega
    · exact hlen
  have htake : (if h.namesAllocatedSize < h.namelistNumEntries + 1 then
      h.names ++ List.replicate (h.namesAllocatedSize * 2 % 2 ^ 64 - h.names.length) default
      else h.names).take h.namelistNumEntries = h.names.take h.namelistNumEntries := by
    split
    · exact List.take_append_of_le_length (by omega)
    · rfl
  generalize (if h.namesAllocatedSize < h.namelistNumEntries + 1 then
      h.namesAllocatedSize * 2 % 2 ^ 64 else h.namesAllocatedSize) = A at hA hLlen ⊢
  generalize (if h.namesAllocatedSize < h.namelistNumEntries + 1 then
      h.names ++ List.replicate (h.namesAllocatedSize * 2 % 2 ^ 64 - h.names.length) default
      else h.names) = L at hLlen htake ⊢
  have hnL : h.namelistNumEntries < L.length := by omega
  have hpair : ∀ i < h.namelistNumEntries,
      (L.set h.namelistNumEntries ⟨h.namelistNumEntries, h.namelistNumEntries % 2 ^ 16⟩).getD i default =
        h.pair i := fun i hi' => by
    rw [GsdHandle.pair, List.getD_eq_getElem?_getD, List.getElem?_set_ne (by omega),
      ← List.getElem?_take_of_lt hi', htake, List.getElem?_take_of_lt hi', ← List.getD_eq_getElem?_getD]
  have hname : ∀ i < h.namelistNumEntries,
      GsdHandle.nameOf { h with
        namelist := S, namesAllocatedSize := A
        names := L.set h.namelistNumEntries ⟨h.namelistNumEntries, h.namelistNumEntries % 2 ^ 16⟩
        namelistNumEntries := h.namelistNumEntries + 1 } i = h.nameOf i := fun i hi' => by
    obtain ⟨hslot, -⟩ := pair_of_perm hi.names_perm (by omega) hi'
    show GsdHandle.nameAt _ ((L.set _ _).getD i default).slot = h.nameAt (h.pair i).slot
    rw [hpair i hi']
    refine (GsdHandle.nameAt_congr ?_ ?_ fun u hu => ?_).symm
    · rfl
    · exact hi.names_terminated _ hslot
    · exact (hstore _ (by unfold namelistEntrySize at *; omega)).symm
  refine ⟨⟨hi.writable, hi.written_le, hi.num_le, hi.resident, hi.cached, hi.cur_lt,
    show h.namelistWrittenEntries ≤ h.namelistNumEntries + 1 by omega,
    show h.namelistNumEntries + 1 ≤ h.header.namelistAllocatedEntries by omega, hA.1, hA.2.1, hA.2.2,
    by simp only [List.length_set]; exact hLlen, ?_, ?_, ?_, hi.size_eq, hi.file, hi.payloads,
    fun j (hj : j < namelistEntrySize * h.namelistWrittenEntries) =>
      (hi.disk_namelist j hj).trans (hstore j ?_).symm⟩, by rw [hid, hmod], rfl⟩
  · show ((L.set h.namelistNumEntries _).take (h.namelistNumEntries + 1)).Perm _
    rw [List.take_succ, take_set_self, htake, List.getElem?_set_self hnL, hmod, List.range_succ,
      List.map_append, Option.toList_some, List.map_singleton]
    exact hi.names_perm.append (List.Perm.refl _)
  · intro i j hij (hj : j < h.namelistWrittenEntries)
    rw [hname i (by omega), hname j (by omega)]
    exact hi.names_sorted i j hij hj
  · intro i (hi' : i < h.namelistNumEntries + 1)
    rcases Nat.lt_succ_iff_lt_or_eq.1 hi' with hlt | rfl
    · obtain ⟨t, ht, hz⟩ := hi.names_terminated i hlt
      exact ⟨t, ht, by rw [← hz]; exact hstore _ (by unfold namelistEntrySize at *; omega)⟩
    · exact ⟨namelistEntrySize - 1, by decide, hlast⟩
  · unfold namelistEntrySize at *
    omega

end AppendName

section Payload

variable {s : Sys} {h : GsdHandle} {E : Nat → GsdIndexEntry}

theorem Inv.namelist_view {s : Sys} {h : GsdHandle} {E : Nat → GsdIndexEntry} (hi : Inv s h E)
    {j : Nat} (hj : j < namelistEntrySize * h.namelistWrittenEntries) :
    h.header.namelistLocation + j < s.disk.size := by
  obtain ⟨k, -, -, -, hf⟩ := hi.file
  have := hf.image.namelist_le
  have := hi.names_written_le
  have := hi.names_le_alloc
  unfold namelistEntrySize at *
  omega

theorem Inv.payload (hi : Inv s h E) {data : Nat → UInt8} {n : Nat}
    (hw : (gsdPwriteRetry s data n h.fileSize).2 = n) :
    Inv (gsdPwriteRetry s data n h.fileSize).1 { h with fileSize := h.fileSize + n } E ∧
      Kept s h (gsdPwriteRetry s data n h.fileSize).1 { h with fileSize := h.fileSize + n } := by
  rw [gsdPwriteRetry_fst hw]
  split_ifs with hn
  · subst hn
    exact ⟨hi, Kept.of_header rfl⟩
  have hle := (gsdPwriteRetry_eq_count hw).resolve_left hn
  have hsz := hi.size_eq
  have he : s.disk.Extends (s.issue (.pwrite h.fileSize n data)).disk :=
    Disk.extends_write_end _ _ _ hsz.le
  have hsize : (s.issue (.pwrite h.fileSize n data)).disk.size = h.fileSize + n := by
    simp only [Sys.disk_issue, Disk.apply_pwrite, Disk.size_write _ _ _ hn]; omega
  obtain ⟨k, hk1, hk2, hk3, hf⟩ := hi.file
  exact ⟨{ hi with
    size_eq := hsize
    file := ⟨k, hk1, hk2, hk3, hf.extend he (by omega) (Disk.clean_apply _ _)⟩
    payloads := hi.payloads.extend he
    disk_namelist := fun j hj => by rw [he.view (hi.namelist_view hj)]; exact hi.disk_namelist j hj },
    Kept.issue_end hsz.le rfl⟩

end Payload

/-- The file after `gsd_expand_index`: the new block `B` at the end, then the header pointing
at it. -/
def relocatedDisk (d : Disk) (hdr : GsdHeader) (B : Nat → UInt8) : Disk :=
  (d.write d.size (entrySize * (hdr.indexAllocatedEntries * 2)) B).write 0 headerSize
    (listBuf (relocatedHeader hdr d.size).toBytes)

section Relocate

variable {d : Disk} {hdr : GsdHeader} {B : Nat → UInt8}

theorem relocatedDisk_size (hpos : 0 < hdr.indexAllocatedEntries) (hh : headerSize ≤ d.size) :
    (relocatedDisk d hdr B).size = d.size + entrySize * (hdr.indexAllocatedEntries * 2) := by
  have hn : entrySize * (hdr.indexAllocatedEntries * 2) ≠ 0 := by unfold entrySize; omega
  rw [relocatedDisk, Disk.size_write _ _ _ (by decide), Disk.size_write _ _ _ hn]
  omega

theorem relocatedDisk_byte_old {x : Nat} (hx : headerSize ≤ x) (hxs : x < d.size) :
    (relocatedDisk d hdr B).byte x = d.byte x := by
  rw [relocatedDisk, Disk.byte_write_outside _ _ (.inr (by omega)) (by
      by_cases hn : entrySize * (hdr.indexAllocatedEntries * 2) = 0
      · rw [hn]; simpa using hxs
      · rw [Disk.size_write _ _ _ hn]; omega),
    Disk.byte_write_outside _ _ (.inl hxs) hxs]

theorem relocatedDisk_byte_new {j : Nat} (hj : j < entrySize * (hdr.indexAllocatedEntries * 2))
    (hh : headerSize ≤ d.size) : (relocatedDisk d hdr B).byte (d.size + j) = B j := by
  have hn : entrySize * (hdr.indexAllocatedEntries * 2) ≠ 0 := by omega
  rw [relocatedDisk, Disk.byte_write_outside _ _ (.inr (by omega))
      (by rw [Disk.size_write _ _ _ hn]; omega),
    Disk.byte_write_inside _ _ (by omega) (by omega), Nat.add_sub_cancel_left]

theorem relocatedDisk_view_new {j : Nat} (hj : j < entrySize * (hdr.indexAllocatedEntries * 2))
    (hh : headerSize ≤ d.size) : (relocatedDisk d hdr B).view d.size j = B j := by
  have hpos : 0 < hdr.indexAllocatedEntries := Nat.pos_of_ne_zero fun h0 => by simp [h0] at hj
  rw [Disk.view_of_lt _ (by rw [relocatedDisk_size hpos hh]; omega), relocatedDisk_byte_new hj hh]

theorem relocatedHeader_wf (hw : hdr.Wf) (hs : d.size < 2 ^ 64)
    (ha : hdr.indexAllocatedEntries * 2 < 2 ^ 64) : (relocatedHeader hdr d.size).Wf :=
  { hw with indexLocation_lt := hs, indexAllocatedEntries_lt := ha }

/-- A relocation to the end of a file in the writer's shape leaves a file in the writer's
shape, its block holding the first `k'` entries. -/
theorem FileInv.relocate {E : Nat → GsdIndexEntry} {k n k' : Nat} (hf : FileInv d hdr E k)
    (hp : Payloads d hdr E n) (hka : k' ≤ hdr.indexAllocatedEntries * 2)
    (hB : ∀ j < entrySize * (hdr.indexAllocatedEntries * 2), B j = entriesBuf (blockEntries E k') j)
    (hmax : d.size + entrySize * (hdr.indexAllocatedEntries * 2) ≤ maxFileSize) :
    FileInv (relocatedDisk d hdr B) (relocatedHeader hdr d.size) E k' ∧
      Payloads (relocatedDisk d hdr B) (relocatedHeader hdr d.size) E n := by
  have hi := hf.image
  have hh := hi.header_le
  have hpos := hi.index_pos
  have hsize := relocatedDisk_size (B := B) hpos hh
  have hnl := hi.namelist_le
  have hold : ∀ off j, headerSize ≤ off → off + j < d.size →
      (relocatedDisk d hdr B).view off j = d.view off j := fun off j h1 h2 => by
    rw [Disk.view_of_lt _ (by omega), Disk.view_of_lt _ h2, relocatedDisk_byte_old (by omega) h2]
  unfold maxFileSize at hmax
  refine ⟨⟨Disk.clean_write _ _ _ _, ⟨relocatedHeader_wf hi.wf (by omega) (by unfold entrySize at hmax; omega),
    hi.magic, hi.version, fun x hx => ?_, by rw [hsize]; unfold maxFileSize; omega, by omega,
    by simp only [relocatedHeader]; omega, by simp only [relocatedHeader]; omega,
    by simp only [relocatedHeader]; omega⟩, hf.namelist_alloc, hh, hf.namelist_after,
    .inr (by simp only [relocatedHeader]; omega), by simpa only [relocatedHeader] using hka,
    fun j hj => ?_, fun i hi' => ?_⟩, ⟨hp.wf, hp.after_header, fun i hi' => ?_, fun i hi' => .inl ?_,
    hp.apart_namelist, hp.apart⟩⟩
  · rw [relocatedDisk, Disk.byte_write_inside _ _ (Nat.zero_le _) hx, Nat.sub_zero]; rfl
  · simp only [relocatedHeader] at hj ⊢
    rw [Disk.view_of_lt _ (by omega), relocatedDisk_byte_new hj hh]
    exact hB j hj
  · simp only [relocatedHeader] at hi' ⊢
    obtain ⟨t, ht, hz⟩ := hf.names_terminated i hi'
    refine ⟨t, ht, ?_⟩
    rw [hold _ _ hf.namelist_after (by unfold namelistEntrySize at *; omega)]
    exact hz
  · exact (hp.inside i hi').trans (by omega)
  · simpa only [relocatedHeader] using hp.inside i hi'

end Relocate

theorem entriesBuf_zeroExtended_of_lt {h : GsdHandle} {k : Nat}
    (hk : k < entrySize * h.header.indexAllocatedEntries) :
    entriesBuf (zeroExtended h) k = entriesBuf h.index k := by
  unfold entriesBuf zeroExtended
  rw [if_pos (by rwa [Nat.div_lt_iff_lt_mul (by decide), Nat.mul_comm])]

section ExpandResult

variable {s : Sys} {h : GsdHandle}

/-- What a successful `gsd_expand_index` leaves, in either writing mode, on a file that holds
its header, when the doubled block's byte count fits in 64 bits and, in `append` mode, the old
block lies inside the file: the header doubles the block and points at the old end of the
file; the new block there holds the old index (the in-memory entries, or the old block's bytes
written one copy buffer at a time) and then zeros; `file_size` is the new end of the file; and
below the old end only the header changed. -/
theorem gsdExpandIndex_relocates (hf : h.openFlags ≠ .readonly)
    (hpos : 0 < h.header.indexAllocatedEntries)
    (hw : entrySize * (h.header.indexAllocatedEntries * 2) < 2 ^ 64)
    (hh : headerSize ≤ s.disk.size) (hc : s.disk.Clean)
    (hsrc : h.openFlags = .append →
      h.header.indexLocation + entrySize * h.header.indexAllocatedEntries ≤ s.disk.size)
    (ho : (gsdExpandIndex s h).status = .ok ()) :
    (gsdExpandIndex s h).handle.header.indexAllocatedEntries = 2 * h.header.indexAllocatedEntries ∧
      (gsdExpandIndex s h).handle.header.indexLocation = s.disk.size ∧
      (h.openFlags = .readwrite → ∀ k < entrySize * h.header.indexAllocatedEntries,
        (gsdExpandIndex s h).sys.disk.view s.disk.size k = entriesBuf h.index k) ∧
      (h.openFlags = .append →
        (∀ k < entrySize * h.header.indexAllocatedEntries,
          (gsdExpandIndex s h).sys.disk.view s.disk.size k = s.disk.view h.header.indexLocation k) ∧
        ∃ ops, (∀ op ∈ ops, op.FitsBuffer) ∧ (gsdExpandIndex s h).sys.log =
          s.log ++ ops ++ [.pwrite 0 headerSize (listBuf (gsdExpandIndex s h).handle.header.toBytes)]) ∧
      (∀ k, entrySize * h.header.indexAllocatedEntries ≤ k →
        k < entrySize * (2 * h.header.indexAllocatedEntries) →
        (gsdExpandIndex s h).sys.disk.view s.disk.size k = 0) ∧
      (gsdExpandIndex s h).handle.fileSize = (gsdExpandIndex s h).sys.disk.size ∧
      (gsdExpandIndex s h).sys.disk.size =
        s.disk.size + entrySize * (2 * h.header.indexAllocatedEntries) ∧
      ∀ x, headerSize ≤ x → x < s.disk.size → (gsdExpandIndex s h).sys.disk.byte x = s.disk.byte x := by
  have h2 : 2 * h.header.indexAllocatedEntries = h.header.indexAllocatedEntries * 2 := Nat.mul_comm _ _
  -- both branches write a block `B` at the end of the file and then the header
  obtain ⟨B, hdisk, hhdr, hfs, hzero, hrw, happ⟩ : ∃ B,
      (gsdExpandIndex s h).sys.disk = relocatedDisk s.disk h.header B ∧
      (gsdExpandIndex s h).handle.header = relocatedHeader h.header s.disk.size ∧
      (gsdExpandIndex s h).handle.fileSize =
        s.disk.size + entrySize * (h.header.indexAllocatedEntries * 2) ∧
      (∀ k, entrySize * h.header.indexAllocatedEntries ≤ k → B k = 0) ∧
      (h.openFlags = .readwrite → ∀ k < entrySize * h.header.indexAllocatedEntries,
        B k = entriesBuf h.index k) ∧
      (h.openFlags = .append → ∀ k < entrySize * h.header.indexAllocatedEntries,
        B k = s.disk.view h.header.indexLocation k) := by
    cases hflags : h.openFlags with
    | readonly => exact absurd hflags hf
    | readwrite =>
      rw [(gsdExpandIndex_readwrite hflags hpos hw ho).2]
      exact ⟨_, rfl, rfl, rfl, fun k hk => entriesBuf_blockEntries_of_le h.index hk,
        fun _ k hk => entriesBuf_zeroExtended_of_lt hk, nofun⟩
    | append =>
      obtain ⟨-, ops, -, heq⟩ := gsdExpandIndex_append hflags hpos hw (hsrc hflags) hc ho
      rw [heq]
      exact ⟨_, rfl, rfl, rfl, fun k hk => if_neg (by omega), nofun, fun _ k hk => if_pos hk⟩
  have hnew : ∀ k < entrySize * (2 * h.header.indexAllocatedEntries),
      (gsdExpandIndex s h).sys.disk.view s.disk.size k = B k := fun k hk => by
    rw [hdisk, relocatedDisk_view_new (by rwa [← h2]) hh]
  have hlt : ∀ k < entrySize * h.header.indexAllocatedEntries,
      k < entrySize * (2 * h.header.indexAllocatedEntries) := fun k hk => by
    unfold entrySize at hk ⊢; omega
  refine ⟨by rw [hhdr, relocatedHeader, h2], by rw [hhdr]; rfl,
    fun hm k hk => by rw [hnew k (hlt k hk), hrw hm k hk],
    fun hm => ⟨fun k hk => by rw [hnew k (hlt k hk), happ hm k hk], gsdExpandIndex_append_pieces hm ho⟩,
    fun k hk1 hk2 => by rw [hnew k hk2, hzero k hk1], ?_, ?_,
    fun x hx hxs => by rw [hdisk, relocatedDisk_byte_old hx hxs]⟩
  · rw [hfs, hdisk, relocatedDisk_size hpos hh]
  · rw [hdisk, relocatedDisk_size hpos hh, h2]

end ExpandResult

theorem Kept.relocate {s s' : Sys} {h h' : GsdHandle} {B : Nat → UInt8}
    (hdisk : s'.disk = relocatedDisk s.disk h.header B)
    (hlog : ∃ ops, s'.log = s.log ++ ops ∧ ∀ op ∈ ops,
      op.Within s.disk.size (s.disk.size + entrySize * (h.header.indexAllocatedEntries * 2)) ∨
        op.Within 0 headerSize)
    (hh : h'.header = relocatedHeader h.header s.disk.size) (hpos : 0 < h.header.indexAllocatedEntries)
    (hhs : headerSize ≤ s.disk.size) : Kept s h s' h' := by
  obtain ⟨ops, hl, hw⟩ := hlog
  refine ⟨⟨ops, hl, fun op hop => ?_⟩, fun j hj => ?_, fun j hj => ?_⟩
  · rcases op with ⟨off, n, buf⟩ | len
    · intro j hj
      rcases hw _ hop with ⟨h1, -⟩ | ⟨-, h2⟩
      · exact .inl (by have := hj.2.1; omega)
      · exact .inr (by have := hj.1; omega)
    · rcases hw _ hop with h | h <;> exact h.elim
  · rw [hdisk]; exact relocatedDisk_byte_old hj.1 hj.2.1
  · obtain ⟨h1, h2, -, h4⟩ := hj
    refine ⟨h1, ?_, ?_, ?_⟩
    · rw [hdisk, relocatedDisk_size hpos hhs]; omega
    · rw [hh]; exact .inl (by simp only [relocatedHeader]; omega)
    · rw [hh]; exact h4

/-- What `gsd_expand_index` leaves, in both modes: the counts and the frame as they were, the
block doubled at the old end of the file, which grew by the new block. -/
structure Relocated (h h' : GsdHandle) : Prop where
  header : h'.header = relocatedHeader h.header h.fileSize
  num : h'.indexNumEntries = h.indexNumEntries
  written : h'.indexWrittenEntries = h.indexWrittenEntries
  cur : h'.curFrame = h.curFrame
  flags : h'.openFlags = h.openFlags
  fileSize : h'.fileSize = h.fileSize + entrySize * (h.header.indexAllocatedEntries * 2)

section Expand

variable {s : Sys} {h : GsdHandle} {E : Nat → GsdIndexEntry}

theorem Inv.block_bound (hi : Inv s h E) :
    entrySize * (h.header.indexAllocatedEntries * 2) < 2 ^ 64 := by
  obtain ⟨k, -, -, -, hf⟩ := hi.file
  have := hf.image.index_le
  have := hf.image.size_le
  unfold maxFileSize entrySize at *
  omega

/-- `gsd_expand_index` keeps the invariant in both modes. -/
theorem Inv.expand (hi : Inv s h E) (ho : (gsdExpandIndex s h).status = .ok ()) :
    Inv (gsdExpandIndex s h).sys (gsdExpandIndex s h).handle E ∧
      Kept s h (gsdExpandIndex s h).sys (gsdExpandIndex s h).handle ∧
      Relocated h (gsdExpandIndex s h).handle := by
  obtain ⟨k, hk1, hk2, hk3, hf⟩ := hi.file
  have hpos := hf.image.index_pos
  have hhs := hf.image.header_le
  have hS := hi.size_eq
  have hw := hi.block_bound
  have hview : ∀ {B : Nat → UInt8} {j : Nat}, j < namelistEntrySize * h.namelistWrittenEntries →
      (relocatedDisk s.disk h.header B).view h.header.namelistLocation j = h.namelist j :=
    fun {B j} hj => by
      rw [Disk.view_of_lt _ (by rw [relocatedDisk_size hpos hhs]; have := hi.namelist_view hj; omega),
        relocatedDisk_byte_old (by have := hf.namelist_after; omega) (hi.namelist_view hj),
        ← Disk.view_of_lt _ (hi.namelist_view hj)]
      exact hi.disk_namelist j hj
  cases hflags : h.openFlags with
  | readonly => exact absurd hflags hi.writable
  | readwrite =>
    -- the in-memory block, staged entries included, goes out whole
    obtain ⟨hle, heq⟩ := gsdExpandIndex_readwrite hflags hpos hw ho
    rw [heq]
    have hz : zeroExtended h = blockEntries E h.indexNumEntries := funext fun i => by
      unfold zeroExtended
      split_ifs with h1
      · exact (hi.resident hflags).2 i h1
      · unfold blockEntries; rw [if_neg (by have := hi.num_le; omega)]
    obtain ⟨hfile, hpay⟩ := hf.relocate (B := entriesBuf (zeroExtended h)) hi.payloads
      (show h.indexNumEntries ≤ _ by have := hi.num_le; omega) (fun j _ => by rw [hz]) hle
    refine ⟨⟨hi.writable, hi.written_le,
      show h.indexNumEntries ≤ h.header.indexAllocatedEntries * 2 by have := hi.num_le; omega,
      fun _ => ⟨rfl, fun i _ => congrFun hz i⟩,
      fun happ => absurd (happ.symm.trans hflags) (by decide), hi.cur_lt, hi.names_written_le,
      hi.names_le_alloc, hi.names_le_size, hi.names_size_pos, hi.names_size_le, hi.names_length,
      hi.names_perm, hi.names_sorted, hi.names_terminated, relocatedDisk_size hpos hhs,
      ⟨h.indexNumEntries, hi.written_le, le_rfl,
        fun happ => absurd (happ.symm.trans hflags) (by decide), hfile⟩, hpay, fun j hj => hview hj⟩,
      Kept.relocate rfl ⟨[.pwrite s.disk.size (entrySize * (h.header.indexAllocatedEntries * 2))
          (entriesBuf (zeroExtended h)),
        .pwrite 0 headerSize (listBuf (relocatedHeader h.header s.disk.size).toBytes)],
        by simp, fun op hop => ?_⟩ rfl hpos hhs,
      ⟨by rw [hS], rfl, rfl, rfl, rfl, by rw [hS]⟩⟩
    simp only [List.mem_cons, List.mem_singleton, List.not_mem_nil, or_false] at hop
    rcases hop with rfl | rfl
    · exact .inl ⟨le_rfl, le_rfl⟩
    · exact .inr ⟨le_rfl, (Nat.zero_add _).le⟩
  | append =>
    -- the block is copied from the file and zero-extended; the cache stays in memory
    obtain ⟨hle, ops, hops, heq⟩ := gsdExpandIndex_append hflags hpos hw hf.image.index_le hf.clean ho
    rw [heq]
    have hB : ∀ j < entrySize * (h.header.indexAllocatedEntries * 2),
        relocatedBlock s.disk h.header.indexLocation (entrySize * h.header.indexAllocatedEntries) j =
          entriesBuf (blockEntries E h.indexWrittenEntries) j := fun j _ => by
      unfold relocatedBlock
      rw [← hk3 hflags]
      split_ifs with h1
      · exact hf.block j h1
      · exact (entriesBuf_blockEntries_of_le _ (by
          have := hf.le_alloc; unfold entrySize at *; omega)).symm
    obtain ⟨hfile, hpay⟩ := hf.relocate hi.payloads
      (show h.indexWrittenEntries ≤ _ by have := hi.num_le; have := hi.written_le; omega) hB hle
    obtain ⟨hc1, hc2, hc3, hc4, hc5⟩ := hi.cached hflags
    refine ⟨⟨hi.writable, hi.written_le,
      show h.indexNumEntries ≤ h.header.indexAllocatedEntries * 2 by have := hi.num_le; omega,
      fun hrw => absurd (hrw.symm.trans hflags) (by decide),
      fun _ => ⟨hc1, hc2, show h.appendIndexSize ≤ 2 * (h.header.indexAllocatedEntries * 2) by omega,
        hc4, hc5⟩, hi.cur_lt, hi.names_written_le,
      hi.names_le_alloc, hi.names_le_size, hi.names_size_pos, hi.names_size_le, hi.names_length,
      hi.names_perm, hi.names_sorted, hi.names_terminated, relocatedDisk_size hpos hhs,
      ⟨h.indexWrittenEntries, le_rfl, hi.written_le, fun _ => rfl, hfile⟩, hpay,
      fun j hj => hview hj⟩,
      Kept.relocate rfl ⟨ops ++ [.pwrite 0 headerSize (listBuf (relocatedHeader h.header s.disk.size).toBytes)],
        by simp, fun op hop => ?_⟩ rfl hpos hhs,
      ⟨by rw [hS], rfl, rfl, rfl, rfl, by rw [hS]⟩⟩
    rcases List.mem_append.1 hop with hop | hop
    · exact .inl (hops op hop)
    · rw [List.mem_singleton.1 hop]; exact .inr ⟨le_rfl, (Nat.zero_add _).le⟩

end Expand

end Gsd
