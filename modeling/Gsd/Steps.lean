import Gsd.Write

/-!
What each successful step of the write path did, stated once so that the invariants never
unfold the step functions: the operations it issued on the file, in order, and the handle it
left. `gsd_expand_index` is stated for its two branches, with the two copy loops of the
`append` branch summed up as one write of the old block followed by zeros. The statements
assume what every state the library reaches satisfies: the block is not empty and its doubled
size does not overflow 64 bits.
-/

namespace Gsd

theorem writeHeader_eq (s : Sys) (h : GsdHandle) :
    writeHeader s h = ⟨s.issue (.pwrite 0 headerSize (listBuf h.header.toBytes)), h, .ok ()⟩ := by
  simp [writeHeader, gsdPwriteRetry_of_le s _ (show headerSize ≠ 0 by decide)
    (show 0 + headerSize ≤ maxFileSize by decide)]

/-- The header `gsd_expand_index` writes: the block doubled and moved to `loc`. -/
def relocatedHeader (hdr : GsdHeader) (loc : Nat) : GsdHeader :=
  { hdr with indexAllocatedEntries := hdr.indexAllocatedEntries * 2, indexLocation := loc }

/-- The in-memory index of the `readwrite` branch, its new half zeroed. -/
def zeroExtended (h : GsdHandle) : Nat → GsdIndexEntry :=
  fun i => if i < h.header.indexAllocatedEntries then h.index i else default

/-- The new block of the `append` branch: the old block's bytes, then zeros. -/
def relocatedBlock (d : Disk) (loc oldBytes : Nat) : Nat → UInt8 :=
  fun k => if k < oldBytes then d.view loc k else 0

theorem zeroFill_eq {a : Nat} (hw : entrySize * (a * 2) < 2 ^ 64) :
    entrySize * ((a * 2 + 2 ^ 64 - a) % 2 ^ 64) % 2 ^ 64 = entrySize * a := by
  unfold entrySize at *
  rw [show a * 2 + 2 ^ 64 - a = a + 2 ^ 64 by omega, Nat.add_mod_right, Nat.mod_eq_of_lt (by omega),
    Nat.mod_eq_of_lt (by omega)]

section Expand

variable {s : Sys} {h : GsdHandle}

/-- The `readwrite` branch: the whole in-memory index, zero-extended to the doubled size, goes
to the end of the file, then the header is rewritten. -/
theorem gsdExpandIndex_readwrite (hf : h.openFlags = .readwrite)
    (hpos : 0 < h.header.indexAllocatedEntries)
    (hw : entrySize * (h.header.indexAllocatedEntries * 2) < 2 ^ 64)
    (ho : (gsdExpandIndex s h).status = .ok ()) :
    s.disk.size + entrySize * (h.header.indexAllocatedEntries * 2) ≤ maxFileSize ∧
      gsdExpandIndex s h =
        ⟨(s.issue (.pwrite s.disk.size (entrySize * (h.header.indexAllocatedEntries * 2))
            (entriesBuf (zeroExtended h)))).issue
            (.pwrite 0 headerSize (listBuf (relocatedHeader h.header s.disk.size).toBytes)),
          { h with
            header := relocatedHeader h.header s.disk.size
            index := zeroExtended h
            indexSlots := h.header.indexAllocatedEntries * 2
            fileSize := s.disk.size + entrySize * (h.header.indexAllocatedEntries * 2) }, .ok ()⟩ := by
  have h2 : h.header.indexAllocatedEntries * 2 % 2 ^ 64 = h.header.indexAllocatedEntries * 2 :=
    Nat.mod_eq_of_lt (by unfold entrySize at hw; omega)
  have hc := Nat.mod_eq_of_lt hw
  have hn : entrySize * (h.header.indexAllocatedEntries * 2) ≠ 0 := by unfold entrySize; omega
  simp only [gsdExpandIndex, hf, h2, hc, zeroFill_eq hw] at ho ⊢
  have hp : ¬ (entrySize * (h.header.indexAllocatedEntries * 2) = 0 ∨
      ptrdiffMax < entrySize * (h.header.indexAllocatedEntries * 2)) := fun hx => by
    rw [if_pos hx] at ho; cases ho
  rw [if_neg hp, if_neg (by unfold entrySize; omega)] at ho ⊢
  by_cases hle : s.disk.size + entrySize * (h.header.indexAllocatedEntries * 2) ≤ maxFileSize
  · rw [gsdPwriteRetry_of_le s _ hn hle] at ho ⊢
    rw [if_neg (by omega), writeHeader_eq]
    refine ⟨hle, ?_⟩
    simp only [Nat.mul_div_cancel_left _ (show 0 < entrySize by decide)]
    rfl
  · have hw' : (gsdPwriteRetry s (entriesBuf (zeroExtended h))
        (entrySize * (h.header.indexAllocatedEntries * 2)) s.disk.size).2 = -1 := by
      rw [gsdPwriteRetry_of_gt s _ hn (by omega)]
    unfold zeroExtended at hw'
    simp [hw'] at ho

end Expand

/-- The operation is a `pwrite` of at most one copy buffer. -/
def DiskOp.FitsBuffer : DiskOp → Prop
  | .pwrite _ n _ => n ≤ gsdCopyBufferSize
  | .ftruncate _ => False

section CopyLoops

variable {oldLoc newLoc oldBytes newBytes : Nat}

theorem copyPiece_pos {r : Nat} (h : 0 < r) : 0 < copyPiece r := by
  unfold copyPiece gsdCopyBufferSize; split <;> omega

theorem copyPiece_le (r : Nat) : copyPiece r ≤ r ∨ r = 0 := by
  unfold copyPiece; split <;> omega

theorem copyPiece_le_buffer (r : Nat) : copyPiece r ≤ gsdCopyBufferSize := by
  unfold copyPiece; split <;> omega

theorem copyIndexLoop_ok (hsrc : oldLoc + oldBytes ≤ newLoc) :
    ∀ fuel (s : Sys) total s' t, copyIndexLoop oldLoc newLoc oldBytes fuel s total = (s', .ok t) →
      oldBytes - total ≤ fuel → total ≤ oldBytes → s.disk.size = newLoc + total → s.disk.Clean →
      t = oldBytes ∧ ∃ ops, s'.log = s.log ++ ops ∧ (∀ op ∈ ops, op.Within newLoc (newLoc + oldBytes)) ∧
        s'.disk = s.disk.write (newLoc + total) (oldBytes - total)
          (fun k => s.disk.view oldLoc (total + k)) := by
  intro fuel
  induction fuel with
  | zero =>
    intro s total s' t hl hf _ _ hc
    simp only [copyIndexLoop, Prod.mk.injEq, Except.ok.injEq] at hl
    obtain ⟨rfl, rfl⟩ := hl
    exact ⟨by omega, [], by simp, by simp, by rw [Nat.le_zero.1 hf, Disk.write_zero hc]⟩
  | succ fuel ih =>
    intro s total s' t hl hf ht hs hc
    by_cases hlt : total < oldBytes
    swap
    · simp only [copyIndexLoop, if_neg hlt, Prod.mk.injEq, Except.ok.injEq] at hl
      obtain ⟨rfl, rfl⟩ := hl
      refine ⟨by omega, [], by simp, by simp, ?_⟩
      rw [Nat.sub_eq_zero_of_le (Nat.le_of_not_lt hlt), Disk.write_zero hc]
    simp only [copyIndexLoop, if_pos hlt, gsdPreadRetry_snd] at hl
    have hn0 : 0 < copyPiece (oldBytes - total) := copyPiece_pos (by omega)
    have hn : copyPiece (oldBytes - total) ≤ oldBytes - total := by
      have := copyPiece_le (oldBytes - total); omega
    split_ifs at hl with hr hw
    · simp at hl
    · simp at hl
    obtain ⟨hs₁, -⟩ := gsdPwriteRetry_of_checked (by omega) hw
    rw [hs₁] at hl
    set n := copyPiece (oldBytes - total)
    set s₁ := s.issue (.pwrite (newLoc + total) n (s.disk.view (oldLoc + total)))
    obtain ⟨ht', ops, hlog, hops, hdisk⟩ := ih s₁ (total + n) s' t hl (by omega) (by omega)
      (by rw [Sys.disk_issue, Disk.apply_pwrite, Disk.size_write _ _ _ (by omega)]; omega) (Disk.clean_apply _ _)
    refine ⟨ht', .pwrite (newLoc + total) n (s.disk.view (oldLoc + total)) :: ops, ?_, ?_, ?_⟩
    · rw [hlog]; simp [s₁, Sys.issue]
    · intro op hop
      rcases List.mem_cons.1 hop with rfl | hop
      · exact ⟨by omega, by omega⟩
      · exact hops op hop
    · have hsame : ∀ k < oldBytes - (total + n),
          s₁.disk.view oldLoc (total + n + k) = s.disk.view oldLoc (total + n + k) := fun k hk =>
        Disk.view_write_outside _ _ (.inl (by omega)) (by omega)
      rw [hdisk, Disk.write_congr _ _ _ hsame, Sys.disk_issue, Disk.apply_pwrite, ← Nat.add_assoc, Disk.write_append,
        show n + (oldBytes - (total + n)) = oldBytes - total by omega]
      refine Disk.write_congr _ _ _ fun k _ => ?_
      split_ifs with hkn
      · rw [Disk.view_eq, Disk.view_eq s.disk oldLoc, Nat.add_assoc]
      · rw [show total + n + (k - n) = total + k by omega]

theorem zeroIndexLoop_ok :
    ∀ fuel (s : Sys) total s' t, zeroIndexLoop newLoc newBytes fuel s total = (s', .ok t) →
      newBytes - total ≤ fuel → total ≤ newBytes → s.disk.size = newLoc + total → s.disk.Clean →
      t = newBytes ∧ (total < newBytes → newLoc + newBytes ≤ maxFileSize) ∧
        ∃ ops, s'.log = s.log ++ ops ∧ (∀ op ∈ ops, op.Within newLoc (newLoc + newBytes)) ∧
        s'.disk = s.disk.write (newLoc + total) (newBytes - total) (fun _ => 0) := by
  intro fuel
  induction fuel with
  | zero =>
    intro s total s' t hl hf _ _ hc
    simp only [zeroIndexLoop, Prod.mk.injEq, Except.ok.injEq] at hl
    obtain ⟨rfl, rfl⟩ := hl
    exact ⟨by omega, by omega, [], by simp, by simp, by rw [Nat.le_zero.1 hf, Disk.write_zero hc]⟩
  | succ fuel ih =>
    intro s total s' t hl hf ht hs hc
    by_cases hlt : total < newBytes
    swap
    · simp only [zeroIndexLoop, if_neg hlt, Prod.mk.injEq, Except.ok.injEq] at hl
      obtain ⟨rfl, rfl⟩ := hl
      refine ⟨by omega, by omega, [], by simp, by simp, ?_⟩
      rw [Nat.sub_eq_zero_of_le (Nat.le_of_not_lt hlt), Disk.write_zero hc]
    simp only [zeroIndexLoop, if_pos hlt] at hl
    have hn0 : 0 < copyPiece (newBytes - total) := copyPiece_pos (by omega)
    have hn : copyPiece (newBytes - total) ≤ newBytes - total := by
      have := copyPiece_le (newBytes - total); omega
    split_ifs at hl with hw
    · simp at hl
    obtain ⟨hs₁, hmax⟩ := gsdPwriteRetry_of_checked (by omega) hw
    rw [hs₁] at hl
    set n := copyPiece (newBytes - total)
    obtain ⟨ht', hmax', ops, hlog, hops, hdisk⟩ := ih _ (total + n) s' t hl (by omega) (by omega)
      (by rw [Sys.disk_issue, Disk.apply_pwrite, Disk.size_write _ _ _ (by omega)]; omega) (Disk.clean_apply _ _)
    refine ⟨ht', fun _ => ?_, .pwrite (newLoc + total) n (fun _ => 0) :: ops, ?_, ?_, ?_⟩
    · by_cases hlast : total + n < newBytes
      · exact hmax' hlast
      · omega
    · rw [hlog]; simp [Sys.issue]
    · intro op hop
      rcases List.mem_cons.1 hop with rfl | hop
      · exact ⟨by omega, by omega⟩
      · exact hops op hop
    · rw [hdisk, Sys.disk_issue, Disk.apply_pwrite, ← Nat.add_assoc, Disk.write_append,
        show n + (newBytes - (total + n)) = newBytes - total by omega]
      exact Disk.write_congr _ _ _ fun k _ => by split_ifs <;> rfl

theorem copyIndexLoop_pieces : ∀ fuel (s : Sys) total s' t,
    copyIndexLoop oldLoc newLoc oldBytes fuel s total = (s', .ok t) →
      ∃ ops, s'.log = s.log ++ ops ∧ ∀ op ∈ ops, op.FitsBuffer := by
  intro fuel
  induction fuel with
  | zero =>
    intro s total s' t hl
    simp only [copyIndexLoop, Prod.mk.injEq] at hl
    exact ⟨[], by rw [← hl.1, List.append_nil], by simp⟩
  | succ fuel ih =>
    intro s total s' t hl
    by_cases hlt : total < oldBytes
    swap
    · simp only [copyIndexLoop, if_neg hlt, Prod.mk.injEq] at hl
      exact ⟨[], by rw [← hl.1, List.append_nil], by simp⟩
    simp only [copyIndexLoop, if_pos hlt, gsdPreadRetry_snd] at hl
    split_ifs at hl with hr hw
    · simp at hl
    · simp at hl
    obtain ⟨hs₁, -⟩ := gsdPwriteRetry_of_checked (copyPiece_pos (by omega)).ne' hw
    rw [hs₁] at hl
    obtain ⟨ops, hlog, hops⟩ := ih _ _ s' t hl
    refine ⟨_ :: ops, by rw [hlog, Sys.log_issue, List.append_assoc, List.singleton_append], ?_⟩
    rintro op (_ | ⟨_, hop⟩)
    · exact copyPiece_le_buffer _
    · exact hops op hop

theorem zeroIndexLoop_pieces : ∀ fuel (s : Sys) total s' t,
    zeroIndexLoop newLoc newBytes fuel s total = (s', .ok t) →
      ∃ ops, s'.log = s.log ++ ops ∧ ∀ op ∈ ops, op.FitsBuffer := by
  intro fuel
  induction fuel with
  | zero =>
    intro s total s' t hl
    simp only [zeroIndexLoop, Prod.mk.injEq] at hl
    exact ⟨[], by rw [← hl.1, List.append_nil], by simp⟩
  | succ fuel ih =>
    intro s total s' t hl
    by_cases hlt : total < newBytes
    swap
    · simp only [zeroIndexLoop, if_neg hlt, Prod.mk.injEq] at hl
      exact ⟨[], by rw [← hl.1, List.append_nil], by simp⟩
    simp only [zeroIndexLoop, if_pos hlt] at hl
    split_ifs at hl with hw
    · simp at hl
    obtain ⟨hs₁, -⟩ := gsdPwriteRetry_of_checked (copyPiece_pos (by omega)).ne' hw
    rw [hs₁] at hl
    obtain ⟨ops, hlog, hops⟩ := ih _ _ s' t hl
    refine ⟨_ :: ops, by rw [hlog, Sys.log_issue, List.append_assoc, List.singleton_append], ?_⟩
    rintro op (_ | ⟨_, hop⟩)
    · exact copyPiece_le_buffer _
    · exact hops op hop

end CopyLoops

section ExpandAppend

variable {s : Sys} {h : GsdHandle}

/-- The `append` branch: the old block, copied from the file, then zeros, go to the end of the
file, then the header is rewritten; the cache of unwritten entries is untouched. -/
theorem gsdExpandIndex_append (hf : h.openFlags = .append)
    (hpos : 0 < h.header.indexAllocatedEntries)
    (hw : entrySize * (h.header.indexAllocatedEntries * 2) < 2 ^ 64)
    (hsrc : h.header.indexLocation + entrySize * h.header.indexAllocatedEntries ≤ s.disk.size)
    (hc : s.disk.Clean) (ho : (gsdExpandIndex s h).status = .ok ()) :
    s.disk.size + entrySize * (h.header.indexAllocatedEntries * 2) ≤ maxFileSize ∧
    ∃ ops, (∀ op ∈ ops,
        op.Within s.disk.size (s.disk.size + entrySize * (h.header.indexAllocatedEntries * 2))) ∧
      gsdExpandIndex s h =
        ⟨(Sys.mk (s.disk.write s.disk.size (entrySize * (h.header.indexAllocatedEntries * 2))
              (relocatedBlock s.disk h.header.indexLocation (entrySize * h.header.indexAllocatedEntries)))
            (s.log ++ ops)).issue
            (.pwrite 0 headerSize (listBuf (relocatedHeader h.header s.disk.size).toBytes)),
          { h with
            header := relocatedHeader h.header s.disk.size
            fileSize := s.disk.size + entrySize * (h.header.indexAllocatedEntries * 2) }, .ok ()⟩ := by
  set a := h.header.indexAllocatedEntries
  have h2 : a * 2 % 2 ^ 64 = a * 2 := Nat.mod_eq_of_lt (by unfold entrySize at hw; omega)
  have hold : a * entrySize % 2 ^ 64 = entrySize * a := by
    rw [Nat.mul_comm]; exact Nat.mod_eq_of_lt (by unfold entrySize at hw ⊢; omega)
  have hnew : a * 2 * entrySize % 2 ^ 64 = entrySize * (a * 2) := by
    rw [Nat.mul_comm]; exact Nat.mod_eq_of_lt hw
  have hpos' : 0 < entrySize * a := Nat.mul_pos (by decide) hpos
  have hle : entrySize * a ≤ entrySize * (a * 2) := Nat.mul_le_mul_left _ (by omega)
  simp only [gsdExpandIndex, hf, h2, hold, hnew] at ho ⊢
  rcases hcopy : copyIndexLoop h.header.indexLocation s.disk.size (entrySize * a) (entrySize * a) s 0
    with ⟨s₁, e | t₁⟩
  · rw [hcopy] at ho; cases ho
  obtain ⟨rfl, ops₁, hlog₁, hops₁, hdisk₁⟩ :=
    copyIndexLoop_ok hsrc _ _ _ _ _ hcopy (by omega) (by omega) (by omega) hc
  simp only [hcopy] at ho ⊢
  rcases hzero : zeroIndexLoop s.disk.size (entrySize * (a * 2)) (entrySize * (a * 2)) s₁
    (entrySize * a) with ⟨⟨d₂, l₂⟩, e | t₂⟩
  · rw [hzero] at ho; cases ho
  obtain ⟨rfl, hmax, ops₂, hlog₂, hops₂, hdisk₂⟩ := zeroIndexLoop_ok _ _ _ _ _ hzero (by omega) (by omega)
    (by rw [hdisk₁, Disk.size_write _ _ _ (by omega)]; omega) (by rw [hdisk₁]; exact Disk.clean_write _ _ _ _)
  simp only [hzero, writeHeader_eq]
  dsimp only at hlog₂ hdisk₂
  subst hlog₂ hdisk₂
  have hblock : (s₁.disk).write (s.disk.size + entrySize * a) (entrySize * (a * 2) - entrySize * a)
      (fun _ => 0) = s.disk.write s.disk.size (entrySize * (a * 2))
        (relocatedBlock s.disk h.header.indexLocation (entrySize * a)) := by
    rw [hdisk₁, Nat.add_zero, Nat.sub_zero, Disk.write_append, Nat.add_sub_cancel' hle]
    exact Disk.write_congr _ _ _ fun k _ => by simp only [relocatedBlock, Nat.sub_zero, Nat.zero_add]
  refine ⟨hmax (by unfold entrySize at hpos' ⊢; omega), ops₁ ++ ops₂, fun op hop => ?_, ?_⟩
  · rcases List.mem_append.1 hop with hop | hop
    · exact (hops₁ op hop).mono le_rfl (by omega)
    · exact hops₂ op hop
  · rw [hblock, hlog₁, List.append_assoc]
    rfl

theorem gsdExpandIndex_append_pieces (hf : h.openFlags = .append)
    (ho : (gsdExpandIndex s h).status = .ok ()) :
    ∃ ops, (∀ op ∈ ops, op.FitsBuffer) ∧ (gsdExpandIndex s h).sys.log =
      s.log ++ ops ++ [.pwrite 0 headerSize (listBuf (gsdExpandIndex s h).handle.header.toBytes)] := by
  simp only [gsdExpandIndex, hf] at ho ⊢
  generalize h.header.indexAllocatedEntries * entrySize % 2 ^ 64 = oldBytes at ho ⊢
  generalize h.header.indexAllocatedEntries * 2 % 2 ^ 64 * entrySize % 2 ^ 64 = newBytes at ho ⊢
  rcases hcopy : copyIndexLoop h.header.indexLocation s.disk.size oldBytes oldBytes s 0 with ⟨s₁, e | t₁⟩
  · rw [hcopy] at ho; cases ho
  rcases hzero : zeroIndexLoop s.disk.size newBytes newBytes s₁ t₁ with ⟨s₂, e | t₂⟩
  · simp only [hcopy, hzero] at ho; cases ho
  obtain ⟨ops₁, hlog₁, hops₁⟩ := copyIndexLoop_pieces _ _ _ _ _ hcopy
  obtain ⟨ops₂, hlog₂, hops₂⟩ := zeroIndexLoop_pieces _ _ _ _ _ hzero
  simp only [hcopy, hzero, writeHeader_eq, Sys.log_issue, hlog₂, hlog₁, List.append_assoc]
  exact ⟨ops₁ ++ ops₂, fun op hop => (List.mem_append.1 hop).elim (hops₁ op) (hops₂ op),
    by rw [List.append_assoc]⟩

end ExpandAppend

section NamesAndTails

variable {s : Sys} {h h₁ : GsdHandle} {name : CStr} {id : Nat}

theorem gsdAppendName_ok (ha : gsdAppendName h name = (h₁, .ok id)) :
    h.openFlags ≠ .readonly ∧ h.namelistNumEntries ≠ h.header.namelistAllocatedEntries ∧
      id = h.namelistNumEntries % 2 ^ 16 ∧
      h₁ = { h with
        namelist := storeBytes h.namelist (namelistEntrySize * h.namelistNumEntries)
          (namelistEntryBytes name.bytes)
        namesAllocatedSize := if h.namesAllocatedSize < h.namelistNumEntries + 1
          then h.namesAllocatedSize * 2 % 2 ^ 64 else h.namesAllocatedSize
        names := (if h.namesAllocatedSize < h.namelistNumEntries + 1 then
            h.names ++ List.replicate (h.namesAllocatedSize * 2 % 2 ^ 64 - h.names.length) default
          else h.names).set h.namelistNumEntries
            ⟨h.namelistNumEntries, h.namelistNumEntries % 2 ^ 16⟩
        namelistNumEntries := h.namelistNumEntries + 1 } := by
  unfold gsdAppendName at ha
  split_ifs at ha with h1 h2
  · simp at ha
  · simp at ha
  · simp only [Prod.mk.injEq, Except.ok.injEq] at ha
    refine ⟨h1, h2, ha.2.symm, ?_⟩
    rw [← ha.1]
    split_ifs <;> rfl

theorem chunkId_ok (hc : chunkId h name = (h₁, .ok id)) :
    (gsdGetId h name ≠ uint16Max ∧ h₁ = h ∧ id = gsdGetId h name) ∨
      (gsdGetId h name = uint16Max ∧ gsdAppendName h name = (h₁, .ok id)) := by
  dsimp only [chunkId] at hc
  split_ifs at hc with hg
  · exact .inr ⟨hg, hc⟩
  · simp only [Prod.mk.injEq, Except.ok.injEq] at hc
    exact .inl ⟨hg, hc.1.symm, hc.2.symm⟩

theorem writeIndexTail_ok (hw : h.indexWrittenEntries ≤ h.indexNumEntries)
    (hb : h.header.indexLocation + entrySize * h.indexNumEntries < 2 ^ 64)
    (ho : (writeIndexTail s h).status = .ok ()) :
    writeIndexTail s h =
      ⟨if h.indexWrittenEntries = h.indexNumEntries then s
        else s.issue (.pwrite (h.header.indexLocation + entrySize * h.indexWrittenEntries)
          (entrySize * (h.indexNumEntries - h.indexWrittenEntries))
          (entriesBuf fun i =>
            h.index ((if h.openFlags = .append then 0 else h.indexWrittenEntries) + i))),
        { h with indexWrittenEntries := h.indexNumEntries }, .ok ()⟩ := by
  have he : entrySize = 64 := rfl
  have hsub : sub64 h.indexNumEntries h.indexWrittenEntries = h.indexNumEntries - h.indexWrittenEntries :=
    sub64_of_le hw (by rw [he] at hb; omega)
  unfold writeIndexTail at ho ⊢
  simp only [hsub] at ho ⊢
  by_cases h0 : h.indexNumEntries - h.indexWrittenEntries = 0
  · rw [if_pos h0, if_pos (by omega)]
    cases h
    simp only [Outcome.mk.injEq, GsdHandle.mk.injEq, true_and, and_true] at h0 hw ⊢
    omega
  rw [if_neg h0] at ho ⊢
  rw [if_neg (show ¬ h.indexWrittenEntries = h.indexNumEntries by omega)]
  have hpos : (h.header.indexLocation + entrySize * h.indexWrittenEntries) % 2 ^ 64 =
      h.header.indexLocation + entrySize * h.indexWrittenEntries :=
    Nat.mod_eq_of_lt (by rw [he] at hb ⊢; omega)
  have hcount : entrySize * (h.indexNumEntries - h.indexWrittenEntries) % 2 ^ 64 =
      entrySize * (h.indexNumEntries - h.indexWrittenEntries) :=
    Nat.mod_eq_of_lt (by rw [he] at hb ⊢; omega)
  simp only [hpos, hcount] at ho ⊢
  generalize (entriesBuf fun i =>
    h.index ((if h.openFlags = .append then 0 else h.indexWrittenEntries) + i)) = buf at ho ⊢
  split_ifs at ho ⊢ with hc
  obtain ⟨hs, -⟩ := gsdPwriteRetry_of_checked (by rw [he]; omega) hc
  rw [hs, show h.indexWrittenEntries + (h.indexNumEntries - h.indexWrittenEntries) =
    h.indexNumEntries by omega, Nat.mod_eq_of_lt (by rw [he] at hb; omega)]

theorem writeNamelistTail_ok (hw : h.namelistWrittenEntries ≤ h.namelistNumEntries)
    (hb : h.header.namelistLocation + namelistEntrySize * h.namelistNumEntries < 2 ^ 64)
    (ho : (writeNamelistTail s h).status = .ok ()) :
    writeNamelistTail s h =
      if h.namelistWrittenEntries = h.namelistNumEntries then ⟨s, h, .ok ()⟩
      else ⟨s.issue (.pwrite (h.header.namelistLocation + namelistEntrySize * h.namelistWrittenEntries)
          (namelistEntrySize * (h.namelistNumEntries - h.namelistWrittenEntries))
          fun k => h.namelist (namelistEntrySize * h.namelistWrittenEntries + k)),
        gsdSortNameIdPairs { h with namelistWrittenEntries := h.namelistNumEntries }, .ok ()⟩ := by
  have he : namelistEntrySize = 64 := rfl
  have hsub : sub64 h.namelistNumEntries h.namelistWrittenEntries =
      h.namelistNumEntries - h.namelistWrittenEntries :=
    sub64_of_le hw (by rw [he] at hb; omega)
  unfold writeNamelistTail at ho ⊢
  simp only [hsub] at ho ⊢
  by_cases h0 : h.namelistNumEntries - h.namelistWrittenEntries = 0
  · rw [if_pos h0, if_pos (by omega)]
  rw [if_neg h0] at ho ⊢
  rw [if_neg (show ¬ h.namelistWrittenEntries = h.namelistNumEntries by omega)]
  have hpos : (h.header.namelistLocation + namelistEntrySize * h.namelistWrittenEntries) % 2 ^ 64 =
      h.header.namelistLocation + namelistEntrySize * h.namelistWrittenEntries :=
    Nat.mod_eq_of_lt (by rw [he] at hb ⊢; omega)
  have hcount : namelistEntrySize * (h.namelistNumEntries - h.namelistWrittenEntries) % 2 ^ 64 =
      namelistEntrySize * (h.namelistNumEntries - h.namelistWrittenEntries) :=
    Nat.mod_eq_of_lt (by rw [he] at hb ⊢; omega)
  simp only [hpos, hcount] at ho ⊢
  split_ifs at ho ⊢ with hc
  have h2 := gsdPwriteRetry_fst (by simpa using hc)
  rw [h2, if_neg (by rw [he]; omega)]

end NamesAndTails

end Gsd
