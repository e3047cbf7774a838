import Gsd.Reach

/-!
The two writing modes implement one session. A `readwrite` handle keeps the whole index block
in memory and relocates it by writing that copy; an `append` handle keeps only the unwritten
entries, in a cache, and relocates the block by copying it on disk. Everything else a handle
holds (the header, the counters, the frame, the file size and the names) is its session
view, `GsdHandle.session`, and each call changes it in the same way in both modes. Run from
one file the library left, the two modes therefore leave, after every `gsd_end_frame`, the
same session and the same bytes in the header, the index block, the namelist block and every
payload; only index blocks that a relocation left behind may differ.

The restriction to files the library left is needed: a file whose namelist block overlaps
its index block passes `gsd_open` in both modes, and there the `append` relocation copies
namelist bytes where `readwrite` mode writes its entries.
-/

namespace Gsd

/-- The handle without what belongs to its mode: the flags, the index buffer (the resident
block or the cache), its allocated size and `append_index_size`. -/
def GsdHandle.session (h : GsdHandle) : GsdHandle :=
  { h with openFlags := .readwrite, index := fun _ => default, indexSlots := 0, appendIndexSize := 0 }

theorem GsdHandle.session_eq_iff {h₁ h₂ : GsdHandle} :
    h₁.session = h₂.session ↔ h₁.header = h₂.header ∧ h₁.namelist = h₂.namelist ∧
      h₁.namelistNumEntries = h₂.namelistNumEntries ∧
      h₁.indexWrittenEntries = h₂.indexWrittenEntries ∧ h₁.indexNumEntries = h₂.indexNumEntries ∧
      h₁.curFrame = h₂.curFrame ∧ h₁.fileSize = h₂.fileSize ∧ h₁.names = h₂.names ∧
      h₁.namelistWrittenEntries = h₂.namelistWrittenEntries ∧
      h₁.namesAllocatedSize = h₂.namesAllocatedSize := by
  simp only [GsdHandle.session, GsdHandle.mk.injEq, and_true, true_and]

@[simp] theorem GsdHandle.session_openFlags (h : GsdHandle) : h.session.openFlags = .readwrite := rfl

theorem gsdGetId_session (h : GsdHandle) (name : CStr) : gsdGetId h.session name = gsdGetId h name := rfl

theorem chunkEntry_session (h : GsdHandle) : chunkEntry h.session = chunkEntry h := rfl

theorem gsdAppendName_session {h : GsdHandle} (hf : h.openFlags ≠ .readonly) (name : CStr) :
    Prod.map GsdHandle.session id (gsdAppendName h name) =
      Prod.map GsdHandle.session id (gsdAppendName h.session name) := by
  unfold gsdAppendName
  simp only [GsdHandle.session, if_neg hf, reduceCtorEq, if_false]
  split_ifs <;> rfl

theorem chunkId_session {h : GsdHandle} (hf : h.openFlags ≠ .readonly) (name : CStr) :
    Prod.map GsdHandle.session id (chunkId h name) =
      Prod.map GsdHandle.session id (chunkId h.session name) := by
  dsimp only [chunkId]
  rw [gsdGetId_session]
  split_ifs
  · exact gsdAppendName_session hf name
  · rfl

theorem chunkId_keeps {h h₁ : GsdHandle} {name : CStr} {r : Except GsdError Nat}
    (hc : chunkId h name = (h₁, r)) : h₁.header = h.header ∧ h₁.indexNumEntries = h.indexNumEntries := by
  have : (chunkId h name).1.header = h.header ∧ (chunkId h name).1.indexNumEntries = h.indexNumEntries := by
    dsimp only [chunkId, gsdAppendName]
    split_ifs <;> exact ⟨rfl, rfl⟩
  rwa [hc] at this

theorem storeEntry_session (h : GsdHandle) (e : GsdIndexEntry) :
    (storeEntry h e).session = { h.session with indexNumEntries := h.session.indexNumEntries + 1 } := by
  unfold storeEntry
  dsimp only
  split_ifs <;> rfl

/-- `gsd_write_chunk` on the session, once the name has its id: the payload extends the file,
a full block doubles at the end of the file, and one more entry is staged. -/
def sessionWriteChunk (g : GsdHandle) (size : Nat) : GsdHandle :=
  let g := { g with fileSize := g.fileSize + size }
  let g := if g.header.indexAllocatedEntries ≤ g.indexNumEntries then
      { g with
        header := relocatedHeader g.header g.fileSize
        fileSize := g.fileSize + entrySize * (g.header.indexAllocatedEntries * 2) }
    else g
  { g with indexNumEntries := g.indexNumEntries + 1 }

/-- `gsd_end_frame` on the session: every entry written, the next frame, and the new names
written and sorted into the cache. -/
def sessionEndFrame (g : GsdHandle) : GsdHandle :=
  let g := { g with curFrame := (g.curFrame + 1) % 2 ^ 64, indexWrittenEntries := g.indexNumEntries }
  if g.namelistWrittenEntries = g.namelistNumEntries then g
  else gsdSortNameIdPairs { g with namelistWrittenEntries := g.namelistNumEntries }

theorem sessionWriteChunk_fields (g : GsdHandle) (size : Nat) :
    (sessionWriteChunk g size).indexNumEntries = g.indexNumEntries + 1 ∧
      (sessionWriteChunk g size).header.namelistLocation = g.header.namelistLocation ∧
      (sessionWriteChunk g size).header.namelistAllocatedEntries = g.header.namelistAllocatedEntries := by
  dsimp only [sessionWriteChunk]
  split_ifs <;> exact ⟨rfl, rfl, rfl⟩

theorem sessionEndFrame_header (g : GsdHandle) : (sessionEndFrame g).header = g.header := by
  dsimp only [sessionEndFrame]
  split_ifs <;> rfl

theorem Sys.disk_pwriteRetry {s : Sys} {buf : Nat → UInt8} {count offset : Nat} (hc : s.disk.Clean)
    (h : (gsdPwriteRetry s buf count offset).2 = count) :
    (gsdPwriteRetry s buf count offset).1.disk = s.disk.write offset count buf := by
  rw [gsdPwriteRetry_fst h]
  split_ifs with h0
  · rw [h0, Disk.write_zero hc]
  · rfl

section Calls

variable {s s' : Sys} {h h' : GsdHandle} {E : Nat → GsdIndexEntry}

theorem Inv.expand_session (hi : Inv s h E) (ho : (gsdExpandIndex s h).status = .ok ()) :
    (gsdExpandIndex s h).handle.session = { h.session with
      header := relocatedHeader h.header h.fileSize
      fileSize := h.fileSize + entrySize * (h.header.indexAllocatedEntries * 2) } ∧
    ∃ B, (gsdExpandIndex s h).sys.disk = relocatedDisk s.disk h.header B := by
  obtain ⟨k, -, -, -, hf⟩ := hi.file
  rw [← hi.size_eq]
  cases hflags : h.openFlags with
  | readonly => exact absurd hflags hi.writable
  | readwrite =>
    rw [(gsdExpandIndex_readwrite hflags hf.image.index_pos hi.block_bound ho).2]
    exact ⟨rfl, _, rfl⟩
  | append =>
    obtain ⟨-, ops, -, heq⟩ := gsdExpandIndex_append hflags hf.image.index_pos hi.block_bound
      hf.image.index_le hf.clean ho
    rw [heq]
    exact ⟨rfl, _, rfl⟩

theorem Inv.writeChunk_session {name : CStr} {type : Nat} {N : UInt64} {M : UInt32} {flags : UInt8}
    {data : Nat → UInt8} (hi : Inv s h E)
    (ho : gsdWriteChunk s h name type N M flags data = ⟨s', h', .ok ()⟩) :
    ∃ h₁ id, Gsd.chunkId h name = (h₁, .ok id) ∧
      Inv s' h' (setEntry E h.indexNumEntries (chunkEntry h₁ type N M id)) ∧
      (chunkEntry h₁ type N M id).location = h.fileSize ∧
      (chunkEntry h₁ type N M id).size = chunkSize N.toNat M.toNat type ∧
      h'.session = sessionWriteChunk h₁.session (chunkSize N.toNat M.toNat type) ∧
      ∀ x, headerSize ≤ x → x < h.fileSize + chunkSize N.toNat M.toNat type →
        s'.disk.byte x = (s.disk.write h.fileSize (chunkSize N.toNat M.toNat type) data).byte x := by
  obtain ⟨h₁, id, o, -, -, ht, -, -, hc, hid, hw, hodef, hok, heq⟩ :=
    gsdWriteChunk_ok (show (gsdWriteChunk s h name type N M flags data).status = .ok () by rw [ho])
  obtain ⟨h₁', id', hc', hinv, -⟩ := hi.writeChunk ho
  obtain ⟨rfl, rfl⟩ : h₁ = h₁' ∧ id = id' := by
    rw [hc] at hc'
    simpa only [Prod.mk.injEq, Except.ok.injEq] using hc'
  rw [ho] at heq
  obtain ⟨hi₁, -, hh₁⟩ := hi.chunkId hc hid
  obtain ⟨hi₂, -⟩ := hi₁.payload hw
  simp only [Outcome.mk.injEq, and_true] at heq
  obtain ⟨rfl, rfl⟩ := heq
  have hf₁ : h₁.fileSize = h.fileSize := by rw [hh₁]
  have hd₁ := Sys.disk_pwriteRetry hi.file.choose_spec.2.2.2.clean hw
  refine ⟨h₁, id, hc, hinv, hf₁, chunkEntry_size ht, ?_, fun x hx hxs => ?_⟩
  all_goals subst hodef; dsimp only at hok ⊢; split_ifs at hok ⊢ with hg
  · rw [storeEntry_session, (hi₂.expand_session hok).1]
    dsimp only [sessionWriteChunk, GsdHandle.session]
    rw [if_pos hg]
  · rw [storeEntry_session]
    dsimp only [sessionWriteChunk, GsdHandle.session]
    rw [if_neg hg]
  · have hlt : x < (s.disk.write h.fileSize (chunkSize N.toNat M.toNat type) data).size := by
      have := hi.size_eq; simp only [Disk.write]; split <;> omega
    obtain ⟨B, hB⟩ := (hi₂.expand_session hok).2
    rw [hB, relocatedDisk_byte_old hx (by rwa [hd₁, hf₁]), hd₁, hf₁]
  · rw [hd₁, hf₁]

theorem Inv.tail_buf (hi : Inv s h E) {j : Nat}
    (hj : j < entrySize * (h.indexNumEntries - h.indexWrittenEntries)) :
    entriesBuf (fun i => h.index ((if h.openFlags = .append then 0 else h.indexWrittenEntries) + i)) j =
      entriesBuf (fun i => E (h.indexWrittenEntries + i)) j := by
  unfold entriesBuf
  dsimp only
  rw [hi.tail_entries (Nat.div_lt_of_lt_mul hj)]

theorem Inv.endFrame_session (hi : Inv s h E) (ho : gsdEndFrame s h = ⟨s', h', .ok ()⟩) :
    h'.session = sessionEndFrame h.session ∧
      s'.disk = (s.disk.write (h.header.indexLocation + entrySize * h.indexWrittenEntries)
          (entrySize * (h.indexNumEntries - h.indexWrittenEntries))
          (entriesBuf fun i => E (h.indexWrittenEntries + i))).write
        (h.header.namelistLocation + namelistEntrySize * h.namelistWrittenEntries)
        (namelistEntrySize * (h.namelistNumEntries - h.namelistWrittenEntries))
        (fun k => h.namelist (namelistEntrySize * h.namelistWrittenEntries + k)) := by
  obtain ⟨-, hok, heq⟩ := gsdEndFrame_ok (show (gsdEndFrame s h).status = .ok () by rw [ho])
  rw [ho] at heq
  have hi₀ : Inv s { h with curFrame := (h.curFrame + 1) % 2 ^ 64 } E :=
    { hi with cur_lt := Nat.mod_lt _ (by norm_num) }
  obtain ⟨k, -, -, -, hf⟩ := hi.file
  have hb : h.header.indexLocation + entrySize * h.indexNumEntries < 2 ^ 64 := by
    have := hf.image.size_le; have := hf.image.index_le; have := hi.num_le
    unfold maxFileSize entrySize at *; omega
  have hb' : h.header.namelistLocation + namelistEntrySize * h.namelistNumEntries < 2 ^ 64 := by
    have := hf.image.size_le; have := hf.image.namelist_le; have := hi.names_le_alloc
    unfold maxFileSize namelistEntrySize at *; omega
  rw [writeIndexTail_ok hi₀.written_le hb hok] at heq
  have hst := congrArg Outcome.status heq
  rw [writeNamelistTail_ok (by exact hi.names_written_le) (by exact hb') hst.symm] at heq
  dsimp only at heq
  have hD₁ : (if h.indexWrittenEntries = h.indexNumEntries then s
      else s.issue (.pwrite (h.header.indexLocation + entrySize * h.indexWrittenEntries)
        (entrySize * (h.indexNumEntries - h.indexWrittenEntries))
        (entriesBuf fun i => h.index ((if h.openFlags = .append then 0 else h.indexWrittenEntries) + i)))).disk =
      s.disk.write (h.header.indexLocation + entrySize * h.indexWrittenEntries)
        (entrySize * (h.indexNumEntries - h.indexWrittenEntries))
        (entriesBuf fun i => E (h.indexWrittenEntries + i)) := by
    by_cases hc : h.indexWrittenEntries = h.indexNumEntries
    · rw [if_pos hc, hc, Nat.sub_self, Nat.mul_zero, Disk.write_zero hf.clean]
    · rw [if_neg hc, Sys.disk_issue, Disk.apply_pwrite]
      exact Disk.write_congr _ _ _ fun j hj => hi.tail_buf hj
  by_cases hn : h.namelistWrittenEntries = h.namelistNumEntries
  all_goals
    simp only [hn, if_true, if_false, Outcome.mk.injEq, and_true] at heq
    obtain ⟨rfl, rfl⟩ := heq
  · refine ⟨by dsimp only [sessionEndFrame, GsdHandle.session]; rw [if_pos hn, hn], ?_⟩
    rw [hD₁, hn, Nat.sub_self, Nat.mul_zero, Disk.write_zero (Disk.clean_write _ _ _ _)]
  · refine ⟨by dsimp only [sessionEndFrame, GsdHandle.session]; rw [if_neg hn]; rfl, ?_⟩
    rw [Sys.disk_issue, Disk.apply_pwrite, hD₁]

end Calls

/-- `d₁` and `d₂` hold the same bytes in `[lo, lo + n)`. -/
def Disk.Agree (d₁ d₂ : Disk) (lo n : Nat) : Prop :=
  ∀ x, lo ≤ x → x < lo + n → d₁.byte x = d₂.byte x

section Agree

variable {d₁ d₂ : Disk} {lo n : Nat}

theorem Disk.size_write_congr (hs : d₁.size = d₂.size) (off m : Nat) (b : Nat → UInt8) :
    (d₁.write off m b).size = (d₂.write off m b).size := by
  simp only [Disk.write, hs]

theorem Disk.Agree.write (ha : d₁.Agree d₂ lo n) (hs : d₁.size = d₂.size) (off m : Nat)
    (b : Nat → UInt8) : (d₁.write off m b).Agree (d₂.write off m b) lo n := fun x h1 h2 => by
  simp only [Disk.write, hs, ha x h1 h2]

theorem Disk.agree_write_self (d₁ d₂ : Disk) (off m : Nat) (b : Nat → UInt8) :
    (d₁.write off m b).Agree (d₂.write off m b) off m := fun x h1 h2 => by
  rw [Disk.byte_write_inside _ _ h1 h2, Disk.byte_write_inside _ _ h1 h2]

theorem Disk.Agree.view (ha : d₁.Agree d₂ lo n) (hs : d₁.size = d₂.size) {j : Nat} (hj : j < n) :
    d₁.view lo j = d₂.view lo j := by
  unfold Disk.view
  rw [hs]
  split
  · exact ha _ (Nat.le_add_right _ _) (by omega)
  · rfl

end Agree

/-- A `readwrite`-mode and an `append`-mode state of one session: both keep the invariant over
the same entries, share the session, and their files agree on the namelist block and on every
payload. -/
structure ModesAgree (s₁ : Sys) (h₁ : GsdHandle) (s₂ : Sys) (h₂ : GsdHandle)
    (E : Nat → GsdIndexEntry) : Prop where
  inv₁ : Inv s₁ h₁ E
  inv₂ : Inv s₂ h₂ E
  session : h₁.session = h₂.session
  namelist : s₁.disk.Agree s₂.disk h₁.header.namelistLocation
    (namelistEntrySize * h₁.header.namelistAllocatedEntries)
  payloads : ∀ i < h₁.indexNumEntries, s₁.disk.Agree s₂.disk (E i).location (E i).size

section Simulation

variable {s₁ s₂ s₁' s₂' : Sys} {h₁ h₂ h₁' h₂' : GsdHandle} {E : Nat → GsdIndexEntry}

theorem ModesAgree.size (hm : ModesAgree s₁ h₁ s₂ h₂ E) : s₁.disk.size = s₂.disk.size := by
  rw [hm.inv₁.size_eq, hm.inv₂.size_eq]
  exact (GsdHandle.session_eq_iff.1 hm.session).2.2.2.2.2.2.1

theorem ModesAgree.writeChunk (hm : ModesAgree s₁ h₁ s₂ h₂ E) {name : CStr} {type : Nat}
    {N : UInt64} {M : UInt32} {data : Nat → UInt8}
    (ho₁ : gsdWriteChunk s₁ h₁ name type N M 0 data = ⟨s₁', h₁', .ok ()⟩)
    (ho₂ : gsdWriteChunk s₂ h₂ name type N M 0 data = ⟨s₂', h₂', .ok ()⟩) :
    ∃ E', ModesAgree s₁' h₁' s₂' h₂' E' := by
  obtain ⟨a₁, id₁, hc₁, hi₁, hl, hz, hs₁, hb₁⟩ := hm.inv₁.writeChunk_session ho₁
  obtain ⟨a₂, id₂, hc₂, hi₂, -, -, hs₂, hb₂⟩ := hm.inv₂.writeChunk_session ho₂
  -- the two modes resolve the name alike
  have hcs := chunkId_session hm.inv₁.writable name
  rw [hm.session, ← chunkId_session hm.inv₂.writable name, hc₁, hc₂] at hcs
  simp only [Prod.map, id, Prod.mk.injEq, Except.ok.injEq] at hcs
  obtain ⟨ha, rfl⟩ := hcs
  have he : chunkEntry a₂ type N M id₁ = chunkEntry a₁ type N M id₁ := by
    rw [← chunkEntry_session a₁, ← chunkEntry_session a₂, ha]
  obtain ⟨-, -, -, -, hn, -, hfs, -⟩ := GsdHandle.session_eq_iff.1 hm.session
  rw [he, ← hn] at hi₂
  -- below the end of the payload, both files are the old ones with the payload written
  have hagree : ∀ {lo m}, headerSize ≤ lo → lo + m ≤ h₁.fileSize + chunkSize N.toNat M.toNat type →
      (s₁.disk.write h₁.fileSize (chunkSize N.toNat M.toNat type) data).Agree
        (s₂.disk.write h₁.fileSize (chunkSize N.toNat M.toNat type) data) lo m →
      s₁'.disk.Agree s₂'.disk lo m := fun h1 h2 ha' x hx1 hx2 => by
    rw [hb₁ x (by omega) (by omega), hb₂ x (by omega) (by rw [← hfs]; omega), ← hfs]
    exact ha' x hx1 hx2
  obtain ⟨k, -, -, -, hf⟩ := hm.inv₁.file
  have hS := hm.inv₁.size_eq
  obtain ⟨hkh, hkn⟩ := chunkId_keeps hc₁
  obtain ⟨fn, fl, fa⟩ := sessionWriteChunk_fields a₁.session (chunkSize N.toNat M.toNat type)
  rw [← hs₁] at fn fl fa
  have hnum : h₁'.indexNumEntries = h₁.indexNumEntries + 1 := by rw [← hkn]; exact fn
  refine ⟨_, hi₁, hi₂, by rw [hs₁, hs₂, ha], ?_, fun i hi => ?_⟩
  · have hfl : h₁'.header.namelistLocation = h₁.header.namelistLocation := by rw [← hkh]; exact fl
    have hfa : h₁'.header.namelistAllocatedEntries = h₁.header.namelistAllocatedEntries := by
      rw [← hkh]; exact fa
    rw [hfl, hfa]
    have := hf.image.namelist_le
    exact hagree hf.namelist_after (by omega) (hm.namelist.write hm.size _ _ _)
  · rw [hnum] at hi
    have hp := hm.inv₁.payloads
    unfold setEntry
    split_ifs with hie
    · rw [hl, hz]
      exact hagree (by have := hf.image.header_le; omega) le_rfl (Disk.agree_write_self _ _ _ _ _)
    · exact hagree (hp.after_header i (by omega)) (by have := hp.inside i (by omega); omega)
        ((hm.payloads i (by omega)).write hm.size _ _ _)

theorem ModesAgree.endFrame (hm : ModesAgree s₁ h₁ s₂ h₂ E)
    (ho₁ : gsdEndFrame s₁ h₁ = ⟨s₁', h₁', .ok ()⟩)
    (ho₂ : gsdEndFrame s₂ h₂ = ⟨s₂', h₂', .ok ()⟩) :
    ModesAgree s₁' h₁' s₂' h₂' E ∧ h₁'.indexWrittenEntries = h₁'.indexNumEntries := by
  obtain ⟨hi₁, -, hn₁, hw₁, -⟩ := hm.inv₁.endFrame ho₁
  obtain ⟨hi₂, -⟩ := hm.inv₂.endFrame ho₂
  obtain ⟨hs₁, hd₁⟩ := hm.inv₁.endFrame_session ho₁
  obtain ⟨hs₂, hd₂⟩ := hm.inv₂.endFrame_session ho₂
  obtain ⟨hh, hnl, hnn, hiw, hnum, -, -, -, hnw, -⟩ := GsdHandle.session_eq_iff.1 hm.session
  rw [← hh, ← hiw, ← hnum, ← hnl, ← hnw, ← hnn] at hd₂
  have hS := hm.size
  have hhd : h₁'.header = h₁.header := (congrArg GsdHandle.header hs₁).trans (sessionEndFrame_header _)
  refine ⟨⟨hi₁, hi₂, by rw [hs₁, hs₂, hm.session], ?_, fun i hi => ?_⟩, by rw [hw₁, hn₁]⟩
  · rw [hd₁, hd₂, hhd]
    exact (hm.namelist.write hS _ _ _).write (Disk.size_write_congr hS _ _ _) _ _ _
  · rw [hd₁, hd₂]
    rw [hn₁] at hi
    exact ((hm.payloads i hi).write hS _ _ _).write (Disk.size_write_congr hS _ _ _) _ _ _

theorem ModesAgree.step (hm : ModesAgree s₁ h₁ s₂ h₂ E) (c : Call)
    (ho₁ : c.run s₁ h₁ = ⟨s₁', h₁', .ok ()⟩) (ho₂ : c.run s₂ h₂ = ⟨s₂', h₂', .ok ()⟩) :
    ∃ E', ModesAgree s₁' h₁' s₂' h₂' E' := by
  cases c with
  | writeChunk name type N M data => exact hm.writeChunk ho₁ ho₂
  | endFrame => exact ⟨E, (hm.endFrame ho₁ ho₂).1⟩

/-- The same calls, succeeding in both modes, keep the two states of the session agreeing. -/
theorem ModesAgree.runCalls (hm : ModesAgree s₁ h₁ s₂ h₂ E) (cs : List Call)
    (ho₁ : (Gsd.runCalls cs s₁ h₁).status = .ok ()) (ho₂ : (Gsd.runCalls cs s₂ h₂).status = .ok ()) :
    ∃ E', ModesAgree (Gsd.runCalls cs s₁ h₁).sys (Gsd.runCalls cs s₁ h₁).handle
      (Gsd.runCalls cs s₂ h₂).sys (Gsd.runCalls cs s₂ h₂).handle E' := by
  induction cs generalizing s₁ h₁ s₂ h₂ E with
  | nil => exact ⟨E, hm⟩
  | cons c cs ih =>
    obtain ⟨hok₁, heq₁⟩ := Outcome.andThen_eq_ok ho₁
    obtain ⟨hok₂, heq₂⟩ := Outcome.andThen_eq_ok ho₂
    obtain ⟨E', hm'⟩ := hm.step c (Outcome.eq_of_status hok₁) (Outcome.eq_of_status hok₂)
    simp only [Gsd.runCalls, heq₁, heq₂] at ho₁ ho₂ ⊢
    exact ih hm' ho₁ ho₂

end Simulation

theorem runCalls_singleton (c : Call) (s : Sys) (h : GsdHandle) : runCalls [c] s h = c.run s h := by
  show (c.run s h).andThen (fun s h => ⟨s, h, .ok ()⟩) = c.run s h
  cases c.run s h with
  | mk s' h' st => cases st <;> rfl

end Gsd
