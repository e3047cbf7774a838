import Gsd.Preserve

/-!
The two calls of a writer's session keep `Inv`, and `FrameInv` while `cur_frame + 1` does not
wrap. `gsd_write_chunk` is assembled from the lemmas of its stages: the id, the payload at the
end of the file, the relocation when the block is full, and the store, where the ghost entries
gain the new entry at slot `index_num_entries`. `gsd_end_frame` writes the unwritten entries to
their slots of the block and the new names to the namelist, and re-sorts the name cache.
-/

namespace Gsd

theorem blockEntries_setEntry {E : Nat → GsdIndexEntry} {k n : Nat} (e : GsdIndexEntry) (hk : k ≤ n) :
    blockEntries (setEntry E n e) k = blockEntries E k := funext fun i => by
  unfold blockEntries setEntry
  split_ifs <;> first | rfl | omega

theorem blockEntries_succ_setEntry (E : Nat → GsdIndexEntry) (n : Nat) (e : GsdIndexEntry) :
    blockEntries (setEntry E n e) (n + 1) = setEntry (blockEntries E n) n e := funext fun i => by
  by_cases hi : i = n
  · simp [blockEntries, setEntry, hi]
  · simp only [blockEntries, setEntry, if_neg hi]
    split_ifs <;> first | rfl | omega

theorem FileInv.setEntry {d : Disk} {hdr : GsdHeader} {E : Nat → GsdIndexEntry} {k n : Nat}
    (hf : FileInv d hdr E k) (e : GsdIndexEntry) (hk : k ≤ n) : FileInv d hdr (setEntry E n e) k :=
  { hf with block := fun j hj => by rw [blockEntries_setEntry e hk]; exact hf.block j hj }

theorem Payloads.push {d : Disk} {hdr : GsdHeader} {E : Nat → GsdIndexEntry} {n : Nat}
    {e : GsdIndexEntry} (hp : Payloads d hdr E n) (he : e.Wf) (hh : headerSize ≤ e.location)
    (hin : e.location + e.size ≤ d.size)
    (hidx : Apart e.location e.size hdr.indexLocation (entrySize * hdr.indexAllocatedEntries))
    (hnl : Apart e.location e.size hdr.namelistLocation
      (namelistEntrySize * hdr.namelistAllocatedEntries))
    (hold : ∀ i < n, (E i).location + (E i).size ≤ e.location) :
    Payloads d hdr (setEntry E n e) (n + 1) := by
  refine ⟨fun i hi => ?_, fun i hi => ?_, fun i hi => ?_, fun i hi => ?_, fun i hi => ?_,
    fun i j hij hj => ?_⟩ <;> unfold setEntry
  · split_ifs; exacts [he, hp.wf i (by omega)]
  · split_ifs; exacts [hh, hp.after_header i (by omega)]
  · split_ifs; exacts [hin, hp.inside i (by omega)]
  · split_ifs; exacts [hidx, hp.apart_index i (by omega)]
  · split_ifs; exacts [hnl, hp.apart_namelist i (by omega)]
  · split_ifs with h1 h2
    · omega
    · omega
    · exact .inl (hold i (by omega))
    · exact hp.apart i j hij (by omega)

section Store

variable {s : Sys} {h : GsdHandle} {e : GsdIndexEntry} {E : Nat → GsdIndexEntry}

@[simp] theorem storeEntry_header : (storeEntry h e).header = h.header := by
  unfold storeEntry; dsimp only; split_ifs <;> rfl

@[simp] theorem storeEntry_indexNumEntries : (storeEntry h e).indexNumEntries = h.indexNumEntries + 1 := by
  unfold storeEntry; dsimp only; split_ifs <;> rfl

@[simp] theorem storeEntry_indexWrittenEntries :
    (storeEntry h e).indexWrittenEntries = h.indexWrittenEntries := by
  unfold storeEntry; dsimp only; split_ifs <;> rfl

@[simp] theorem storeEntry_curFrame : (storeEntry h e).curFrame = h.curFrame := by
  unfold storeEntry; dsimp only; split_ifs <;> rfl

@[simp] theorem storeEntry_openFlags : (storeEntry h e).openFlags = h.openFlags := by
  unfold storeEntry; dsimp only; split_ifs <;> rfl

theorem storeEntry_of_ne_append (hf : h.openFlags ≠ .append) :
    storeEntry h e = { h with
      index := setEntry h.index h.indexNumEntries e, indexNumEntries := h.indexNumEntries + 1 } := by
  simp only [storeEntry, if_neg hf]

theorem storeEntry_of_append (hf : h.openFlags = .append)
    (hw : h.indexWrittenEntries ≤ h.indexNumEntries)
    (hb : h.indexNumEntries * 2 * entrySize < 2 ^ 64)
    (hc : h.indexNumEntries - h.indexWrittenEntries ≤ h.appendIndexSize) :
    storeEntry h e = { h with
      appendIndexSize := if h.appendIndexSize ≤ h.indexNumEntries - h.indexWrittenEntries then
        h.appendIndexSize * 2 else h.appendIndexSize
      indexSlots := if h.appendIndexSize ≤ h.indexNumEntries - h.indexWrittenEntries then
        h.appendIndexSize * 2 else h.indexSlots
      index := setEntry h.index (h.indexNumEntries - h.indexWrittenEntries) e
      indexNumEntries := h.indexNumEntries + 1 } := by
  unfold entrySize at hb
  simp only [storeEntry, if_pos hf, sub64_of_le hw (by omega)]
  split_ifs with hg
  · have h1 : h.appendIndexSize * 2 % 2 ^ 64 = h.appendIndexSize * 2 := Nat.mod_eq_of_lt (by omega)
    have h2 : h.appendIndexSize * 2 * entrySize % 2 ^ 64 = h.appendIndexSize * 2 * entrySize :=
      Nat.mod_eq_of_lt (by unfold entrySize; omega)
    simp only [h1, h2, Nat.mul_div_cancel _ (show 0 < entrySize by decide)]
  · rfl

theorem Inv.store (hi : Inv s h E) (hnum : h.indexNumEntries < h.header.indexAllocatedEntries)
    (he : e.Wf) (hh : headerSize ≤ e.location) (hin : e.location + e.size ≤ s.disk.size)
    (hidx : Apart e.location e.size h.header.indexLocation
      (entrySize * h.header.indexAllocatedEntries))
    (hnl : Apart e.location e.size h.header.namelistLocation
      (namelistEntrySize * h.header.namelistAllocatedEntries))
    (hold : ∀ i < h.indexNumEntries, (E i).location + (E i).size ≤ e.location) :
    Inv s (storeEntry h e) (setEntry E h.indexNumEntries e) := by
  obtain ⟨k, hk1, hk2, hk3, hf⟩ := hi.file
  have hp := hi.payloads.push he hh hin hidx hnl hold
  have hwle := hi.written_le
  by_cases happ : h.openFlags = .append
  · obtain ⟨hc1, hc2, hc3, hc4, hc5⟩ := hi.cached happ
    have hb : h.indexNumEntries * 2 * entrySize < 2 ^ 64 := by
      have := hi.block_bound; unfold entrySize at *; omega
    rw [storeEntry_of_append happ hwle hb hc1]
    exact { hi with
      written_le := Nat.le_succ_of_le hwle
      num_le := hnum
      resident := fun hrw => absurd (hrw.symm.trans happ) (by decide)
      cached := fun _ => by
        refine ⟨?_, ?_, ?_, ?_, fun i hi' => ?_⟩ <;> dsimp only
        · split <;> omega
        · split <;> omega
        · split <;> omega
        · split
          · rfl
          · exact hc4
        · dsimp only at hi'
          unfold setEntry
          split_ifs with h1 h2 h2
          · rfl
          · omega
          · omega
          · exact hc5 i (by omega)
      file := ⟨k, hk1, by dsimp only; omega, hk3, hf.setEntry e hk2⟩
      payloads := hp }
  · rw [storeEntry_of_ne_append happ]
    exact { hi with
      written_le := Nat.le_succ_of_le hwle
      num_le := hnum
      resident := fun hrw => ⟨(hi.resident hrw).1, fun i hi' => by
        show setEntry h.index h.indexNumEntries e i =
          blockEntries (setEntry E h.indexNumEntries e) (h.indexNumEntries + 1) i
        rw [blockEntries_succ_setEntry]
        unfold setEntry
        split_ifs
        · rfl
        · exact (hi.resident hrw).2 i hi'⟩
      cached := fun h' => absurd h' happ
      file := ⟨k, hk1, by dsimp only; omega, fun h' => absurd h' happ, hf.setEntry e hk2⟩
      payloads := hp }

end Store

theorem FrameInv.push {h h' : GsdHandle} {E : Nat → GsdIndexEntry} {e : GsdIndexEntry}
    (hfr : FrameInv h E) (hwle : h.indexWrittenEntries ≤ h.indexNumEntries)
    (hn : h'.indexNumEntries = h.indexNumEntries + 1)
    (hw : h'.indexWrittenEntries = h.indexWrittenEntries) (hc : h'.curFrame = h.curFrame)
    (he : e.frame = h.curFrame) : FrameInv h' (setEntry E h.indexNumEntries e) := by
  have hle : ∀ i < h.indexNumEntries, (E i).frame ≤ h.curFrame := fun i hi' => by
    by_cases hiw : i < h.indexWrittenEntries
    · exact (hfr.committed_lt i hiw).le
    · exact (hfr.staged_eq i (by omega) hi').le
  refine ⟨fun i j hij hj => ?_, fun i hi' => ?_, fun i h1 h2 => ?_⟩ <;> unfold setEntry
  · rw [hn] at hj
    split_ifs with h1 h2
    · exact le_rfl
    · omega
    · rw [he]; exact hle i (by omega)
    · exact hfr.mono i j hij (by omega)
  · rw [hw] at hi'
    rw [hc, if_neg (by omega)]
    exact hfr.committed_lt i hi'
  · rw [hw] at h1
    rw [hn] at h2
    rw [hc]
    split_ifs with h3
    · exact he
    · exact hfr.staged_eq i h1 (by omega)

theorem le_gsdTypeDouble_of_gsdSizeofType_ne_zero {type : Nat} (ht : gsdSizeofType type ≠ 0) :
    type ≤ gsdTypeDouble := by
  -- past `GSD_TYPE_DOUBLE` every test of `gsd_sizeof_type` fails
  by_contra hgt
  simp only [gsdTypeDouble] at hgt
  simp only [gsdSizeofType, gsdTypeUint8, gsdTypeUint16, gsdTypeUint32, gsdTypeUint64, gsdTypeInt8,
    gsdTypeInt16, gsdTypeInt32, gsdTypeInt64, gsdTypeFloat, gsdTypeDouble] at ht
  repeat rw [if_neg (by omega)] at ht
  exact ht rfl

theorem chunkEntry_size {h : GsdHandle} {type id : Nat} {N : UInt64} {M : UInt32}
    (ht : gsdSizeofType type ≠ 0) : (chunkEntry h type N M id).size = chunkSize N.toNat M.toNat type := by
  have htype : type % 256 = type :=
    Nat.mod_eq_of_lt (by have := le_gsdTypeDouble_of_gsdSizeofType_ne_zero ht; unfold gsdTypeDouble at this; omega)
  simp only [GsdIndexEntry.size, chunkEntry, htype]

theorem chunkEntry_wf {h : GsdHandle} {type id : Nat} {N : UInt64} {M : UInt32}
    (hc : h.curFrame < 2 ^ 64) (hf : h.fileSize < 2 ^ 64) (ht : gsdSizeofType type ≠ 0)
    (hid : id < 2 ^ 16) :
    (chunkEntry h type N M id).Wf ∧ (chunkEntry h type N M id).size = chunkSize N.toNat M.toNat type :=
  ⟨⟨hc, N.val.isLt, hf, M.val.isLt, Nat.mod_lt _ (by norm_num),
    show 0 < 2 ^ 8 by decide, hid, show 0 < 2 ^ 256 by decide⟩, chunkEntry_size ht⟩

section WriteChunk

variable {s s' : Sys} {h h₁ h' : GsdHandle} {E : Nat → GsdIndexEntry} {name : CStr} {id : Nat}

theorem Inv.chunkId (hi : Inv s h E) (hc : chunkId h name = (h₁, .ok id)) (hid : id ≠ uint16Max) :
    Inv s h₁ E ∧ id < 2 ^ 16 ∧
      h₁ = { h with
        namelist := h₁.namelist, namesAllocatedSize := h₁.namesAllocatedSize, names := h₁.names
        namelistNumEntries := h₁.namelistNumEntries } := by
  have hna : h.namelistNumEntries < 2 ^ 16 := by
    obtain ⟨k, -, -, -, hf⟩ := hi.file
    have := hi.names_le_alloc
    rw [hf.namelist_alloc] at this
    unfold gsdInitialNamelistSize at this; omega
  rcases chunkId_ok hc with ⟨hg, hh, rfl⟩ | ⟨-, ha⟩
  · rw [hh]
    refine ⟨hi, ?_, rfl⟩
    have hfind : gsdFindName h name ≠ uint16Max := fun h0 => hg (by simp [gsdGetId, h0])
    rcases gsdFindName_spec h name hi.names_sorted with ⟨m, hm, -, hfm⟩ | ⟨h0, -⟩
    · have hw := hi.names_written_le
      have hm' : m % 2 ^ 16 = m := Nat.mod_eq_of_lt (by omega)
      have hmu : m ≠ uint16Max := by unfold uint16Max; omega
      obtain ⟨hslot, hpid⟩ := pair_of_perm hi.names_perm
        (by have := hi.names_le_size; have := hi.names_length; omega) (show m < h.namelistNumEntries by omega)
      simp only [gsdGetId, hfm, hm', if_pos hmu, hpid]
      omega
    · exact absurd h0 hfind
  · obtain ⟨hi₁, rfl, heq⟩ := hi.appendName ha
    have hn : h₁.namelistNumEntries = h.namelistNumEntries + 1 := by rw [heq]
    exact ⟨hi₁, hna, by rw [hn]; exact heq⟩

/-- What the index growth inside `gsd_write_chunk` leaves: the counters and the frame as they
were, room for one more entry, and the block where it was or at the old end of the file. -/
structure Grown (h h' : GsdHandle) : Prop where
  num : h'.indexNumEntries = h.indexNumEntries
  written : h'.indexWrittenEntries = h.indexWrittenEntries
  cur : h'.curFrame = h.curFrame
  flags : h'.openFlags = h.openFlags
  room : h'.indexNumEntries < h'.header.indexAllocatedEntries
  header : h'.header = h.header ∨ h'.header = relocatedHeader h.header h.fileSize
  fileSize : h.fileSize ≤ h'.fileSize

theorem Inv.grow (hi : Inv s h E) {o : Outcome}
    (hdef : o = if h.header.indexAllocatedEntries ≤ h.indexNumEntries then gsdExpandIndex s h
      else ⟨s, h, .ok ()⟩)
    (ho : o.status = .ok ()) : Inv o.sys o.handle E ∧ Kept s h o.sys o.handle ∧ Grown h o.handle := by
  subst hdef
  split_ifs at ho ⊢ with hx
  · obtain ⟨hi', hk, hr⟩ := hi.expand ho
    have := hi.num_le
    have := (hi.file.choose_spec).2.2.2.image.index_pos
    exact ⟨hi', hk, ⟨hr.num, hr.written, hr.cur, hr.flags,
      by rw [hr.num, hr.header]; simp only [relocatedHeader]; omega, .inr hr.header,
      by rw [hr.fileSize]; omega⟩⟩
  · exact ⟨hi, Kept.of_header rfl, ⟨rfl, rfl, rfl, rfl,
      show h.indexNumEntries < h.header.indexAllocatedEntries by omega, .inl rfl, le_rfl⟩⟩

/-- A successful `gsd_write_chunk` keeps the invariant, the ghost entries gaining the entry it
staged at `cur_frame`, and writes no frozen byte. -/
theorem Inv.writeChunk (hi : Inv s h E) {type : Nat} {N : UInt64} {M : UInt32} {flags : UInt8}
    {data : Nat → UInt8} (ho : gsdWriteChunk s h name type N M flags data = ⟨s', h', .ok ()⟩) :
    ∃ h₁ id, Gsd.chunkId h name = (h₁, .ok id) ∧
      Inv s' h' (setEntry E h.indexNumEntries (chunkEntry h₁ type N M id)) ∧ Kept s h s' h' ∧
      (FrameInv h E → FrameInv h' (setEntry E h.indexNumEntries (chunkEntry h₁ type N M id))) := by
  obtain ⟨h₁, id, o, -, -, ht, -, -, hc, hid, hw, hodef, hok, heq⟩ :=
    gsdWriteChunk_ok (show (gsdWriteChunk s h name type N M flags data).status = .ok () by rw [ho])
  rw [ho] at heq
  obtain ⟨hi₁, hid', hh₁⟩ := hi.chunkId hc hid
  obtain ⟨hi₂, hk₂⟩ := hi₁.payload hw
  obtain ⟨hi₃, hk₃, hg⟩ := hi₂.grow hodef hok
  simp only [Outcome.mk.injEq, and_true] at heq
  obtain ⟨rfl, rfl⟩ := heq
  have hf₁ : h₁.fileSize = h.fileSize := by rw [hh₁]
  have hhd₁ : h₁.header = h.header := by rw [hh₁]
  have hnum := hg.num.trans (show h₁.indexNumEntries = h.indexNumEntries by rw [hh₁])
  have hcur := hg.cur.trans (show h₁.curFrame = h.curFrame by rw [hh₁])
  obtain ⟨k, -, -, -, hf⟩ := hi.file
  have hsz := hi.size_eq
  have hhs := hf.image.header_le
  have hsl := hf.image.size_le
  obtain ⟨hwf, hsize⟩ := chunkEntry_wf (N := N) (M := M) hi₁.cur_lt
    (by rw [hf₁]; unfold maxFileSize at hsl; omega) ht hid'
  refine ⟨h₁, id, hc, ?_, ?_, fun hfr => ?_⟩
  · rw [← hnum]
    refine hi₃.store hg.room hwf (by simp only [chunkEntry]; omega) ?_ ?_ ?_ fun i hi' => ?_
    · rw [hsize, hi₃.size_eq]
      exact hg.fileSize
    · rcases hg.header with hh | hh <;> rw [hh]
      · have := hf.image.index_le
        exact .inr (by simp only [chunkEntry, hhd₁]; omega)
      · exact .inl (by rw [hsize]; exact le_rfl)
    · have := hf.image.namelist_le
      rcases hg.header with hh | hh <;> rw [hh] <;>
        exact .inr (by simp only [chunkEntry, relocatedHeader, hhd₁]; omega)
    · have := hi.payloads.inside i (by omega)
      simp only [chunkEntry]
      omega
  · exact (Kept.of_header hhd₁).trans (hk₂.trans (hk₃.trans (Kept.of_header storeEntry_header)))
  · exact hfr.push hi.written_le (by rw [storeEntry_indexNumEntries, hnum])
      (by rw [storeEntry_indexWrittenEntries, hg.written]; rw [hh₁])
      (by rw [storeEntry_curFrame, hcur]) (show h₁.curFrame = h.curFrame by rw [hh₁])

end WriteChunk

section Inside

variable {d : Disk} {hdr : GsdHeader} {E : Nat → GsdIndexEntry} {k n off len : Nat}
  {buf : Nat → UInt8}

theorem HeaderImage.write_inside (hi : HeaderImage d hdr) (hh : headerSize ≤ off)
    (hin : off + len ≤ d.size) : HeaderImage (d.write off len buf) hdr := by
  have hs := d.size_write_of_le buf hin
  exact { hi with
    bytes := fun x hx => by
      rw [Disk.byte_write_outside _ _ (.inl (by omega)) (by have := hi.header_le; omega)]
      exact hi.bytes x hx
    size_le := hs ▸ hi.size_le
    header_le := hs ▸ hi.header_le
    index_le := hs ▸ hi.index_le
    namelist_le := hs ▸ hi.namelist_le }

theorem Payloads.of_size_le {d' : Disk} (hp : Payloads d hdr E n) (hs : d.size ≤ d'.size) :
    Payloads d' hdr E n :=
  { hp with inside := fun i hi => (hp.inside i hi).trans hs }

theorem entriesBuf_shift (f : Nat → GsdIndexEntry) (w j : Nat) (hj : entrySize * w ≤ j) :
    entriesBuf f (j - entrySize * w) = entriesBuf (fun i => f (i - w)) j := by
  unfold entrySize at hj
  have h1 : (j - 64 * w) / 64 = j / 64 - w := by omega
  have h2 : (j - 64 * w) % 64 = j % 64 := by omega
  simp only [entriesBuf, entrySize, h1, h2]

theorem FileInv.indexTail {w num : Nat} {f : Nat → GsdIndexEntry} (hf : FileInv d hdr E k)
    (hwk : w ≤ k) (hkn : k ≤ num) (hna : num ≤ hdr.indexAllocatedEntries)
    (hbuf : ∀ i < num - w, f i = E (w + i)) :
    FileInv (d.write (hdr.indexLocation + entrySize * w) (entrySize * (num - w)) (entriesBuf f))
      hdr E num := by
  have hL := hf.image.index_le
  have hin : hdr.indexLocation + entrySize * w + entrySize * (num - w) ≤ d.size := by
    unfold entrySize at *; omega
  have hs := d.size_write_of_le (entriesBuf f) hin
  refine { hf with
    clean := Disk.clean_write _ _ _ _
    image := hf.image.write_inside (by have := hf.index_after; omega) hin
    le_alloc := hna
    block := fun j hj => ?_
    names_terminated := fun i hi => ?_ }
  · rw [Disk.view_of_lt _ (by rw [hs]; omega)]
    by_cases hj' : entrySize * w ≤ j ∧ j < entrySize * num
    · rw [Disk.byte_write_inside _ _ (by omega) (by unfold entrySize at *; omega),
        show hdr.indexLocation + j - (hdr.indexLocation + entrySize * w) = j - entrySize * w by omega,
        entriesBuf_shift _ _ _ hj'.1]
      have hq : j / entrySize < num := by unfold entrySize at *; omega
      have hq' : w ≤ j / entrySize := by unfold entrySize at *; omega
      simp only [entriesBuf, blockEntries, if_pos hq]
      rw [hbuf (j / entrySize - w) (by omega), Nat.add_sub_cancel' hq']
    · rw [Disk.byte_write_outside _ _ (by unfold entrySize at *; omega) (by omega),
        ← Disk.view_of_lt _ (by omega), hf.block j hj]
      unfold entriesBuf blockEntries
      by_cases hlo : j < entrySize * w
      · have hq : j / entrySize < w := by unfold entrySize at *; omega
        rw [if_pos (show j / entrySize < k by omega), if_pos (show j / entrySize < num by omega)]
      · have hq : num ≤ j / entrySize := by unfold entrySize at *; omega
        rw [if_neg (show ¬ j / entrySize < k by omega), if_neg (show ¬ j / entrySize < num by omega)]
  · obtain ⟨t, ht, hz⟩ := hf.names_terminated i hi
    refine ⟨t, ht, ?_⟩
    have := hf.image.namelist_le
    have hab := hf.blocks_apart
    unfold Apart namelistEntrySize entrySize at *
    rw [Disk.view_write_outside]
    · exact hz
    · omega
    · omega

theorem FileInv.namelistTail {w m : Nat} (hf : FileInv d hdr E k) (B : Nat → UInt8) (hwm : w ≤ m)
    (hm : m ≤ hdr.namelistAllocatedEntries)
    (hterm : ∀ i, w ≤ i → i < m → ∃ t < namelistEntrySize, B (namelistEntrySize * (i - w) + t) = 0) :
    FileInv (d.write (hdr.namelistLocation + namelistEntrySize * w) (namelistEntrySize * (m - w)) B)
      hdr E k := by
  have hN := hf.image.namelist_le
  have hL := hf.image.index_le
  have hab := hf.blocks_apart
  have hin : hdr.namelistLocation + namelistEntrySize * w + namelistEntrySize * (m - w) ≤ d.size := by
    unfold namelistEntrySize at *; omega
  have hs := d.size_write_of_le B hin
  refine { hf with
    clean := Disk.clean_write _ _ _ _
    image := hf.image.write_inside (by have := hf.namelist_after; omega) hin
    block := fun j hj => ?_
    names_terminated := fun i hi => ?_ }
  · unfold Apart namelistEntrySize entrySize at *
    rw [Disk.view_write_outside]
    · exact hf.block j hj
    · omega
    · omega
  · by_cases hi' : w ≤ i ∧ i < m
    · obtain ⟨t, ht, hz⟩ := hterm i hi'.1 hi'.2
      refine ⟨t, ht, ?_⟩
      unfold namelistEntrySize at *
      rw [Disk.view_of_lt _ (by omega), Disk.byte_write_inside _ _ (by omega) (by omega),
        show hdr.namelistLocation + (64 * i + t) - (hdr.namelistLocation + 64 * w) = 64 * (i - w) + t by
          omega]
      exact hz
    · obtain ⟨t, ht, hz⟩ := hf.names_terminated i hi
      refine ⟨t, ht, ?_⟩
      unfold namelistEntrySize at *
      rw [Disk.view_write_outside]
      · exact hz
      · omega
      · omega

end Inside

theorem Kept.issue_inside {s : Sys} {h h' : GsdHandle} {off len : Nat} {buf : Nat → UInt8}
    (hm : ∀ j, Frozen s h j → j < off ∨ off + len ≤ j) (hin : off + len ≤ s.disk.size)
    (hh : h'.header = h.header) : Kept s h (s.issue (.pwrite off len buf)) h' := by
  have hs : (s.issue (.pwrite off len buf)).disk.size = s.disk.size := by
    rw [Sys.disk_issue, Disk.apply_pwrite, Disk.size_write_of_le _ _ hin]
  refine ⟨⟨_, Sys.log_issue s _, fun op hop => ?_⟩, fun j hj => ?_, fun j hj => ?_⟩
  · rw [List.mem_singleton.1 hop]; exact hm
  · rw [Sys.disk_issue, Disk.apply_pwrite]; exact Disk.byte_write_outside _ _ (hm j hj) hj.2.1
  · obtain ⟨h1, h2, h3, h4⟩ := hj
    exact ⟨h1, hs ▸ h2, hh ▸ h3, hh ▸ h4⟩

section EndFrame

variable {s s' : Sys} {h h' : GsdHandle} {E : Nat → GsdIndexEntry}

theorem Inv.committed (hi : Inv s h E) (hf : FileInv s'.disk h.header E h.indexNumEntries)
    (hs : s'.disk.size = s.disk.size)
    (hnl : ∀ j < namelistEntrySize * h.namelistWrittenEntries,
      s'.disk.view h.header.namelistLocation j = s.disk.view h.header.namelistLocation j) :
    Inv s' { h with indexWrittenEntries := h.indexNumEntries } E :=
  { hi with
    written_le := le_rfl
    cached := fun happ => by
      obtain ⟨-, hc2, hc3, hc4, -⟩ := hi.cached happ
      exact ⟨by simp, hc2, hc3, hc4, fun i hi' => absurd hi' (by simp)⟩
    size_eq := hs.trans hi.size_eq
    file := ⟨h.indexNumEntries, le_rfl, le_rfl, fun _ => rfl, hf⟩
    payloads := hi.payloads.of_size_le hs.ge
    disk_namelist := fun j hj => (hnl j hj).trans (hi.disk_namelist j hj) }

theorem Inv.tail_entries (hi : Inv s h E) {i : Nat} (hi' : i < h.indexNumEntries - h.indexWrittenEntries) :
    h.index ((if h.openFlags = .append then 0 else h.indexWrittenEntries) + i) = E (h.indexWrittenEntries + i) := by
  by_cases happ : h.openFlags = .append
  · rw [if_pos happ, Nat.zero_add]; exact (hi.cached happ).2.2.2.2 i hi'
  · have hrw : h.openFlags = .readwrite := by
      have := hi.writable; cases hf : h.openFlags <;> simp_all
    rw [if_neg happ, (hi.resident hrw).2 (h.indexWrittenEntries + i) (by have := hi.num_le; omega),
      blockEntries, if_pos (by omega)]

theorem Inv.indexTail (hi : Inv s h E) (ho : (writeIndexTail s h).status = .ok ()) :
    Inv (writeIndexTail s h).sys (writeIndexTail s h).handle E ∧
      Kept s h (writeIndexTail s h).sys (writeIndexTail s h).handle ∧
      (writeIndexTail s h).handle = { h with indexWrittenEntries := h.indexNumEntries } := by
  obtain ⟨k, hk1, hk2, -, hf⟩ := hi.file
  have hnum := hi.num_le
  have hL := hf.image.index_le
  have hb : h.header.indexLocation + entrySize * h.indexNumEntries < 2 ^ 64 := by
    have := hf.image.size_le; unfold maxFileSize entrySize at *; omega
  rw [writeIndexTail_ok hi.written_le hb ho]
  by_cases hc : h.indexWrittenEntries = h.indexNumEntries
  · rw [if_pos hc]
    exact ⟨hi.committed (by rwa [show h.indexNumEntries = k by omega]) rfl fun _ _ => rfl,
      Kept.of_header rfl, rfl⟩
  rw [if_neg hc]
  have hin : h.header.indexLocation + entrySize * h.indexWrittenEntries +
      entrySize * (h.indexNumEntries - h.indexWrittenEntries) ≤ s.disk.size := by
    unfold entrySize at *; omega
  refine ⟨hi.committed (hf.indexTail hk1 hk2 hnum fun i hi' => hi.tail_entries hi')
    (Disk.size_write_of_le _ _ hin) fun j hj => ?_, Kept.issue_inside (fun j hj => ?_) hin rfl, rfl⟩
  · have := hi.namelist_view hj
    have hab := hf.blocks_apart
    have := hf.image.namelist_le
    have := hi.names_written_le
    have := hi.names_le_alloc
    unfold Apart namelistEntrySize entrySize at *
    rw [Sys.disk_issue, Disk.apply_pwrite, Disk.view_write_outside]
    · omega
    · omega
  · have := hj.2.2.1
    unfold Apart entrySize at *
    omega

theorem Inv.namelistTail (hi : Inv s h E) (ho : (writeNamelistTail s h).status = .ok ()) :
    Inv (writeNamelistTail s h).sys (writeNamelistTail s h).handle E ∧
      Kept s h (writeNamelistTail s h).sys (writeNamelistTail s h).handle ∧
      (writeNamelistTail s h).handle.indexNumEntries = h.indexNumEntries ∧
      (writeNamelistTail s h).handle.indexWrittenEntries = h.indexWrittenEntries ∧
      (writeNamelistTail s h).handle.curFrame = h.curFrame := by
  obtain ⟨k, hk1, hk2, hk3, hf⟩ := hi.file
  have hw := hi.names_written_le
  have hm := hi.names_le_alloc
  have hN := hf.image.namelist_le
  have hb : h.header.namelistLocation + namelistEntrySize * h.namelistNumEntries < 2 ^ 64 := by
    have := hf.image.size_le; unfold maxFileSize namelistEntrySize at *; omega
  have hin : h.header.namelistLocation + namelistEntrySize * h.namelistWrittenEntries +
      namelistEntrySize * (h.namelistNumEntries - h.namelistWrittenEntries) ≤ s.disk.size := by
    unfold namelistEntrySize at *; omega
  rw [writeNamelistTail_ok hw hb ho]
  split_ifs with hc
  · exact ⟨hi, Kept.of_header rfl, rfl, rfl, rfl⟩
  have hlen : h.namelistNumEntries ≤ h.names.length := hi.names_length ▸ hi.names_le_size
  have hs := s.disk.size_write_of_le
    (fun k => h.namelist (namelistEntrySize * h.namelistWrittenEntries + k)) hin
  have hlen' : ({ h with namelistWrittenEntries := h.namelistNumEntries } : GsdHandle).namelistNumEntries ≤
      ({ h with namelistWrittenEntries := h.namelistNumEntries } : GsdHandle).names.length := hlen
  refine ⟨{ hi with
    names_written_le := le_rfl
    names_length := (length_names_gsdSortNameIdPairs _ hlen').trans hi.names_length
    names_perm := (perm_take_gsdSortNameIdPairs _ hlen').trans hi.names_perm
    names_sorted := namesSorted_gsdSortNameIdPairs _ hlen'
    size_eq := hs.trans hi.size_eq
    file := ⟨k, hk1, hk2, hk3, hf.namelistTail
      (fun k => h.namelist (namelistEntrySize * h.namelistWrittenEntries + k)) hw hm fun i h1 h2 => ?_⟩
    payloads := hi.payloads.of_size_le hs.ge
    disk_namelist := fun j hj => ?_ }, ?_, rfl, rfl, rfl⟩
  · obtain ⟨t, ht, hz⟩ := hi.names_terminated i h2
    refine ⟨t, ht, ?_⟩
    have : namelistEntrySize * h.namelistWrittenEntries + (namelistEntrySize * (i - h.namelistWrittenEntries) + t) =
        namelistEntrySize * i + t := by unfold namelistEntrySize; omega
    dsimp only
    rw [this]
    exact hz
  · change j < namelistEntrySize * h.namelistNumEntries at hj
    change (s.disk.write _ _ _).view h.header.namelistLocation j = h.namelist j
    by_cases hj' : j < namelistEntrySize * h.namelistWrittenEntries
    · have := hi.namelist_view hj'
      rw [Disk.view_write_outside]
      · exact hi.disk_namelist j hj'
      · omega
      · omega
    · unfold namelistEntrySize at *
      rw [Disk.view_of_lt _ (by omega), Disk.byte_write_inside _ _ (by omega) (by omega)]
      congr 1; omega
  · refine Kept.issue_inside (fun j hj => ?_) hin rfl
    have := hj.2.2.2
    unfold Apart namelistEntrySize at *
    omega

/-- A successful `gsd_end_frame` keeps the invariant: every entry is written, the frame
counter advanced, and no frozen byte was written. -/
theorem Inv.endFrame (hi : Inv s h E) (ho : gsdEndFrame s h = ⟨s', h', .ok ()⟩) :
    Inv s' h' E ∧ Kept s h s' h' ∧ h'.indexNumEntries = h.indexNumEntries ∧
      h'.indexWrittenEntries = h.indexNumEntries ∧ h'.curFrame = (h.curFrame + 1) % 2 ^ 64 := by
  obtain ⟨-, hok, heq⟩ := gsdEndFrame_ok (show (gsdEndFrame s h).status = .ok () by rw [ho])
  have hi₀ : Inv s { h with curFrame := (h.curFrame + 1) % 2 ^ 64 } E :=
    { hi with cur_lt := Nat.mod_lt _ (by norm_num) }
  obtain ⟨hi₁, hk₁, hh₁⟩ := hi₀.indexTail hok
  rw [ho] at heq
  have hok₂ : (writeNamelistTail (writeIndexTail s { h with curFrame := (h.curFrame + 1) % 2 ^ 64 }).sys
      (writeIndexTail s { h with curFrame := (h.curFrame + 1) % 2 ^ 64 }).handle).status = .ok () := by
    rw [← heq]
  obtain ⟨hi₂, hk₂, hn₂, hw₂, hc₂⟩ := hi₁.namelistTail hok₂
  rw [← heq] at hi₂ hk₂ hn₂ hw₂ hc₂
  rw [hh₁] at hn₂ hw₂ hc₂
  have hk₀ : Kept s h s { h with curFrame := (h.curFrame + 1) % 2 ^ 64 } := Kept.of_header rfl
  exact ⟨hi₂, hk₀.trans (hk₁.trans hk₂), hn₂, hw₂, hc₂⟩

theorem FrameInv.endFrame (hfr : FrameInv h E) (hc : h.curFrame + 1 < 2 ^ 64)
    (hn : h'.indexNumEntries = h.indexNumEntries) (hw : h'.indexWrittenEntries = h.indexNumEntries)
    (hcur : h'.curFrame = (h.curFrame + 1) % 2 ^ 64) :
    FrameInv h' E := by
  refine ⟨fun i j hij hj => hfr.mono i j hij (hn ▸ hj), fun i hi' => ?_, fun i h1 h2 => by omega⟩
  rw [hw] at hi'
  rw [hcur, Nat.mod_eq_of_lt hc, Nat.lt_succ_iff]
  by_cases hiw : i < h.indexWrittenEntries
  · exact (hfr.committed_lt i hiw).le
  · exact (hfr.staged_eq i (by omega) hi').le

end EndFrame

end Gsd
