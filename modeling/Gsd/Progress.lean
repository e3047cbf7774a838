import Gsd.Footprint

/-!
When the calls of a session succeed, on the ideal system of `Gsd.Disk`, whose `pwrite` writes
all it is asked for below the largest `off_t` (`Gsd.Retry` relates it to every other system). In
every state a session reaches, `gsd_end_frame` cannot fail: both of its writes land inside blocks
the file already holds. `gsd_write_chunk` fails exactly when the library refuses its arguments (a
zero `N` or `M`, a type of no size, nonzero flags), when the name is not a committed one and the
namelist is full, or when the payload, with the index block that `gsd_expand_index` moves to the
end of the file when the index is full, would take the file past the largest `off_t`.
-/

namespace Gsd

section EndFrame

variable {s : Sys} {g : GsdHandle}

theorem writeIndexTail_status (hw : g.indexWrittenEntries ≤ g.indexNumEntries)
    (hb : g.header.indexLocation + entrySize * g.indexNumEntries ≤ maxFileSize) :
    (writeIndexTail s g).status = .ok () := by
  unfold entrySize maxFileSize at hb
  have hsub : sub64 g.indexNumEntries g.indexWrittenEntries = g.indexNumEntries - g.indexWrittenEntries :=
    sub64_of_le hw (by omega)
  unfold writeIndexTail
  simp only [hsub]
  by_cases h0 : g.indexNumEntries - g.indexWrittenEntries = 0
  · rw [if_pos h0]
  have hpos : (g.header.indexLocation + entrySize * g.indexWrittenEntries) % 2 ^ 64 =
      g.header.indexLocation + entrySize * g.indexWrittenEntries :=
    Nat.mod_eq_of_lt (by unfold entrySize; omega)
  have hcount : entrySize * (g.indexNumEntries - g.indexWrittenEntries) % 2 ^ 64 =
      entrySize * (g.indexNumEntries - g.indexWrittenEntries) :=
    Nat.mod_eq_of_lt (by unfold entrySize; omega)
  rw [if_neg h0, hpos, hcount, gsdPwriteRetry_of_le _ _ (by unfold entrySize; omega)
    (by unfold entrySize maxFileSize; omega)]
  dsimp only
  rw [if_neg (by omega)]

theorem writeNamelistTail_status (hw : g.namelistWrittenEntries ≤ g.namelistNumEntries)
    (hb : g.header.namelistLocation + namelistEntrySize * g.namelistNumEntries ≤ maxFileSize) :
    (writeNamelistTail s g).status = .ok () := by
  unfold namelistEntrySize maxFileSize at hb
  have hsub : sub64 g.namelistNumEntries g.namelistWrittenEntries =
      g.namelistNumEntries - g.namelistWrittenEntries :=
    sub64_of_le hw (by omega)
  unfold writeNamelistTail
  simp only [hsub]
  by_cases h0 : g.namelistNumEntries - g.namelistWrittenEntries = 0
  · rw [if_pos h0]
  have hpos : (g.header.namelistLocation + namelistEntrySize * g.namelistWrittenEntries) % 2 ^ 64 =
      g.header.namelistLocation + namelistEntrySize * g.namelistWrittenEntries :=
    Nat.mod_eq_of_lt (by unfold namelistEntrySize; omega)
  have hcount : namelistEntrySize * (g.namelistNumEntries - g.namelistWrittenEntries) % 2 ^ 64 =
      namelistEntrySize * (g.namelistNumEntries - g.namelistWrittenEntries) :=
    Nat.mod_eq_of_lt (by unfold namelistEntrySize; omega)
  rw [if_neg h0, hpos, hcount, gsdPwriteRetry_of_le _ _ (by unfold namelistEntrySize; omega)
    (by unfold namelistEntrySize maxFileSize; omega)]
  dsimp only
  rw [if_neg (by omega)]

end EndFrame

theorem Inv.endFrame_status {s : Sys} {h : GsdHandle} {E : Nat → GsdIndexEntry} (hi : Inv s h E) :
    (gsdEndFrame s h).status = .ok () := by
  obtain ⟨k, -, -, -, hf⟩ := hi.file
  have := hf.image.size_le
  have := hf.image.index_le
  have := hf.image.namelist_le
  have := hi.num_le
  have := hi.names_le_alloc
  have hidx : (writeIndexTail s { h with curFrame := (h.curFrame + 1) % 2 ^ 64 }).status = .ok () :=
    writeIndexTail_status hi.written_le
      (show h.header.indexLocation + entrySize * h.indexNumEntries ≤ maxFileSize by unfold entrySize at *; omega)
  unfold gsdEndFrame
  rw [if_neg hi.writable, Outcome.eq_of_status hidx, Outcome.andThen_ok,
    writeIndexTail_ok (h := { h with curFrame := (h.curFrame + 1) % 2 ^ 64 }) hi.written_le
      (show h.header.indexLocation + entrySize * h.indexNumEntries < 2 ^ 64 by
        unfold entrySize maxFileSize at *; omega) hidx]
  exact writeNamelistTail_status hi.names_written_le
    (show h.header.namelistLocation + namelistEntrySize * h.namelistNumEntries ≤ maxFileSize by
      unfold namelistEntrySize at *; omega)

/-- In every state a session reached, `gsd_end_frame` succeeds on the ideal system: it never
reports an error. -/
theorem Reach.endFrame_succeeds {guard : GsdHandle → Prop} {s : Sys} {h : GsdHandle}
    (hr : Reach guard s h) : (gsdEndFrame s h).status = .ok () := by
  obtain ⟨E, hi, -⟩ := hr.inv
  exact hi.endFrame_status

theorem writeA_endFrame_succeeds :
    ∃ s h, Reach (fun _ => True) s h ∧ h.indexWrittenEntries < h.indexNumEntries ∧
      (gsdEndFrame s h).status = .ok () :=
  have hr := @Reach.runCalls _ _
    (@Reach.createAndOpen (fun _ => True) emptySys _ _ false nameA nameA 0 .readwrite false rfl) [writeA] rfl
  ⟨_, _, hr, by decide, Reach.endFrame_succeeds hr⟩

section CopyLoops

variable {oldLoc newLoc oldBytes newBytes : Nat}

theorem copyIndexLoop_status (hsrc : oldLoc + oldBytes ≤ newLoc) (hmax : newLoc + oldBytes ≤ maxFileSize) :
    ∀ fuel (s : Sys) total, oldBytes - total ≤ fuel → total ≤ oldBytes → s.disk.size = newLoc + total →
      (copyIndexLoop oldLoc newLoc oldBytes fuel s total).2 = .ok oldBytes := by
  intro fuel
  induction fuel with
  | zero =>
    intro s total hf ht _
    simp only [copyIndexLoop, Except.ok.injEq]
    omega
  | succ fuel ih =>
    intro s total hf ht hs
    by_cases hlt : total < oldBytes
    swap
    · simp only [copyIndexLoop, if_neg hlt, Except.ok.injEq]
      omega
    have hn0 : 0 < copyPiece (oldBytes - total) := copyPiece_pos (by omega)
    have hn : copyPiece (oldBytes - total) ≤ oldBytes - total := by
      have := copyPiece_le (oldBytes - total); omega
    simp only [copyIndexLoop, if_pos hlt,
      gsdPreadRetry_of_le s.disk (show oldLoc + total + copyPiece (oldBytes - total) ≤ s.disk.size by omega)
        (by omega)]
    rw [if_neg (by omega), gsdPwriteRetry_of_le _ _ (by omega) (by omega)]
    dsimp only
    rw [if_neg (by omega)]
    exact ih _ _ (by omega) (by omega)
      (by rw [Sys.disk_issue, Disk.apply_pwrite, Disk.size_write _ _ _ (by omega)]; omega)

theorem zeroIndexLoop_status (hmax : newLoc + newBytes ≤ maxFileSize) :
    ∀ fuel (s : Sys) total, newBytes - total ≤ fuel → total ≤ newBytes →
      (zeroIndexLoop newLoc newBytes fuel s total).2 = .ok newBytes := by
  intro fuel
  induction fuel with
  | zero =>
    intro s total hf ht
    simp only [zeroIndexLoop, Except.ok.injEq]
    omega
  | succ fuel ih =>
    intro s total hf ht
    by_cases hlt : total < newBytes
    swap
    · simp only [zeroIndexLoop, if_neg hlt, Except.ok.injEq]
      omega
    have hn0 : 0 < copyPiece (newBytes - total) := copyPiece_pos (by omega)
    have hn : copyPiece (newBytes - total) ≤ newBytes - total := by
      have := copyPiece_le (newBytes - total); omega
    simp only [zeroIndexLoop, if_pos hlt]
    rw [gsdPwriteRetry_of_le _ _ (by omega) (by omega)]
    dsimp only
    rw [if_neg (by omega)]
    exact ih _ _ (by omega) (by omega)

end CopyLoops

section Expand

variable {s : Sys} {h : GsdHandle} {E : Nat → GsdIndexEntry}

/-- On a writer's handle, `gsd_expand_index` succeeds exactly when the doubled block, at the end
of the file, ends below the size limit. -/
theorem Inv.expand_status_iff (hi : Inv s h E) :
    (gsdExpandIndex s h).status = .ok () ↔
      s.disk.size + entrySize * (h.header.indexAllocatedEntries * 2) ≤ maxFileSize := by
  obtain ⟨k, -, -, -, hf⟩ := hi.file
  have hpos := hf.image.index_pos
  have hw := hi.block_bound
  have hsrc := hf.image.index_le
  set a := h.header.indexAllocatedEntries
  have h2 : a * 2 % 2 ^ 64 = a * 2 := Nat.mod_eq_of_lt (by unfold entrySize at hw; omega)
  cases hflags : h.openFlags with
  | readonly => exact absurd hflags hi.writable
  | readwrite =>
    refine ⟨fun ho => (gsdExpandIndex_readwrite hflags hpos hw ho).1, fun hmax => ?_⟩
    have hcount : entrySize * (a * 2) % 2 ^ 64 = entrySize * (a * 2) := Nat.mod_eq_of_lt hw
    simp only [gsdExpandIndex, hflags, h2, hcount, zeroFill_eq hw]
    have ha : a = h.header.indexAllocatedEntries := rfl
    rw [if_neg (by unfold entrySize maxFileSize ptrdiffMax at *; omega),
      if_neg (by unfold entrySize at *; omega),
      gsdPwriteRetry_of_le _ _ (by unfold entrySize; omega) hmax]
    dsimp only
    rw [if_neg (by omega), writeHeader_eq]
  | append =>
    refine ⟨fun ho => (gsdExpandIndex_append hflags hpos hw hsrc hf.clean ho).1, fun hmax => ?_⟩
    have hold : a * entrySize % 2 ^ 64 = entrySize * a := by
      rw [Nat.mul_comm]; exact Nat.mod_eq_of_lt (by unfold entrySize at hw ⊢; omega)
    have hnew : a * 2 * entrySize % 2 ^ 64 = entrySize * (a * 2) := by
      rw [Nat.mul_comm]; exact Nat.mod_eq_of_lt hw
    have hle : entrySize * a ≤ entrySize * (a * 2) := Nat.mul_le_mul_left _ (by omega)
    simp only [gsdExpandIndex, hflags, h2, hold, hnew]
    have hc := copyIndexLoop_status hsrc (show s.disk.size + entrySize * a ≤ maxFileSize by
      unfold entrySize at hmax ⊢; omega) (entrySize * a) s 0 (by omega) (by omega) (by omega)
    rw [show copyIndexLoop h.header.indexLocation s.disk.size (entrySize * a) (entrySize * a) s 0 =
      (_, .ok (entrySize * a)) from Prod.ext rfl hc]
    dsimp only
    rw [show zeroIndexLoop s.disk.size (entrySize * (a * 2)) (entrySize * (a * 2)) _ (entrySize * a) =
      (_, .ok (entrySize * (a * 2))) from Prod.ext rfl (zeroIndexLoop_status hmax _ _ _ (by omega) hle)]
    dsimp only
    rw [writeHeader_eq]

end Expand

section WriteChunk

variable {s : Sys} {h : GsdHandle} {E : Nat → GsdIndexEntry}

theorem Inv.chunkId_of_room (hi : Inv s h E) {name : CStr}
    (hroom : gsdGetId h name ≠ uint16Max ∨ h.namelistNumEntries < h.header.namelistAllocatedEntries) :
    ∃ h₁ id, Gsd.chunkId h name = (h₁, .ok id) ∧ id ≠ uint16Max := by
  obtain ⟨k, -, -, -, hf⟩ := hi.file
  have hna := hf.namelist_alloc
  unfold Gsd.chunkId
  by_cases hg : gsdGetId h name = uint16Max
  · have hroom' := hroom.resolve_left (not_not_intro hg)
    rw [if_pos hg]
    unfold gsdAppendName
    rw [if_neg hi.writable, if_neg (by omega)]
    exact ⟨_, _, rfl, by rw [hna] at hroom'; unfold gsdInitialNamelistSize uint16Max at *; omega⟩
  · rw [if_neg hg]
    exact ⟨_, _, rfl, hg⟩

/-- On a writer's handle, `gsd_write_chunk` succeeds exactly when its arguments pass the checks,
the name is committed or the namelist has room for it, and the payload, with the doubled index
block when the index is full, ends below the size limit. -/
theorem Inv.writeChunk_status_iff (hi : Inv s h E) {name : CStr} {type : Nat} {N : UInt64}
    {M : UInt32} {flags : UInt8} {data : Nat → UInt8} :
    (gsdWriteChunk s h name type N M flags data).status = .ok () ↔
      N ≠ 0 ∧ M ≠ 0 ∧ gsdSizeofType type ≠ 0 ∧ flags = 0 ∧
      (gsdGetId h name ≠ uint16Max ∨ h.namelistNumEntries < h.header.namelistAllocatedEntries) ∧
      h.fileSize + chunkSize N.toNat M.toNat type +
        (if h.header.indexAllocatedEntries ≤ h.indexNumEntries then
          entrySize * (h.header.indexAllocatedEntries * 2) else 0) ≤ maxFileSize := by
  constructor
  · intro ho
    obtain ⟨h₁, id, o, hN, hM, ht, -, hfl, hc, hid, hw, hodef, hok, -⟩ := gsdWriteChunk_ok ho
    obtain ⟨hi₁, -, -⟩ := hi.chunkId hc hid
    obtain ⟨hhd, hnum⟩ := chunkId_keeps hc
    refine ⟨hN, hM, ht, hfl, ?_, ?_⟩
    · rcases chunkId_ok hc with ⟨hg, -⟩ | ⟨-, ha⟩
      · exact .inl hg
      · exact .inr (lt_of_le_of_ne hi.names_le_alloc (gsdAppendName_ok ha).2.1)
    -- after the payload the file ends at the new file size, and a moved block ends past it
    obtain ⟨hi₂, -⟩ := hi₁.payload hw
    have hsize := hi₂.size_eq
    obtain ⟨k, -, -, -, hf₂⟩ := hi₂.file
    have hmax₂ := hf₂.image.size_le
    rw [← hhd, ← hnum, ← (chunkId_counts hc).2.1]
    subst hodef
    dsimp only at hok hsize
    split_ifs at hok ⊢
    · have := hi₂.expand_status_iff.1 hok
      dsimp only at this
      omega
    · omega
  · rintro ⟨hN, hM, ht, hfl, hroom, hmax⟩
    obtain ⟨h₁, id, hc, hid⟩ := hi.chunkId_of_room hroom
    obtain ⟨hi₁, -, -⟩ := hi.chunkId hc hid
    obtain ⟨hhd, hnum⟩ := chunkId_keeps hc
    rw [← hhd, ← hnum, ← (chunkId_counts hc).2.1] at hmax
    have hfit : h₁.fileSize + chunkSize N.toNat M.toNat type ≤ maxFileSize := by split_ifs at hmax <;> omega
    have hw : (gsdPwriteRetry s data (chunkSize N.toNat M.toNat type) h₁.fileSize).2 =
        chunkSize N.toNat M.toNat type := by
      by_cases h0 : chunkSize N.toNat M.toNat type = 0
      · simp [gsdPwriteRetry, h0]
      · rw [gsdPwriteRetry_of_le _ _ h0 hfit]
    obtain ⟨hi₂, -⟩ := hi₁.payload hw
    have hsize := hi₂.size_eq
    -- the growth step succeeds, and the entry is stored
    have hgrow : (if h₁.header.indexAllocatedEntries ≤ h₁.indexNumEntries then
        gsdExpandIndex (gsdPwriteRetry s data (chunkSize N.toNat M.toNat type) h₁.fileSize).1
          { h₁ with fileSize := h₁.fileSize + chunkSize N.toNat M.toNat type }
      else ⟨(gsdPwriteRetry s data (chunkSize N.toNat M.toNat type) h₁.fileSize).1,
        { h₁ with fileSize := h₁.fileSize + chunkSize N.toNat M.toNat type }, .ok ()⟩).status = .ok () := by
      split_ifs with hx
      · refine hi₂.expand_status_iff.2 ?_
        rw [if_pos hx] at hmax
        dsimp only at hsize ⊢
        omega
      · rfl
    unfold gsdWriteChunk
    rw [if_neg (by simp [hN, hM, ht]), if_neg hi.writable, if_neg (by simpa using hfl), hc]
    dsimp only
    rw [if_neg hid, show gsdPwriteRetry s data (chunkSize N.toNat M.toNat type) h₁.fileSize =
      (_, (chunkSize N.toNat M.toNat type : Int)) from Prod.ext rfl hw]
    dsimp only
    rw [if_neg (by omega), Outcome.eq_of_status hgrow]
    rfl

end WriteChunk

/-- In every state a session reached, `gsd_write_chunk` succeeds on the ideal system exactly when
`N`, `M` and the size of the type are nonzero and the flags zero, the name is a committed one or
the namelist has room, and the payload, with the doubled index block when the index is full, ends
below the largest `off_t`; it fails in every other case. -/
theorem Reach.writeChunk_succeeds_iff {guard : GsdHandle → Prop} {s : Sys} {h : GsdHandle}
    (hr : Reach guard s h) {name : CStr} {type : Nat} {N : UInt64} {M : UInt32} {flags : UInt8}
    {data : Nat → UInt8} :
    (gsdWriteChunk s h name type N M flags data).status = .ok () ↔
      N ≠ 0 ∧ M ≠ 0 ∧ gsdSizeofType type ≠ 0 ∧ flags = 0 ∧
      (gsdGetId h name ≠ uint16Max ∨ h.namelistNumEntries < h.header.namelistAllocatedEntries) ∧
      h.fileSize + chunkSize N.toNat M.toNat type +
        (if h.header.indexAllocatedEntries ≤ h.indexNumEntries then
          entrySize * (h.header.indexAllocatedEntries * 2) else 0) ≤ maxFileSize := by
  obtain ⟨E, hi, -⟩ := hr.inv
  exact hi.writeChunk_status_iff

theorem freshHandle_writeChunk_succeeds_iff :
    ∃ s h, Reach (fun _ => True) s h ∧
      ((gsdWriteChunk s h nameA gsdTypeUint8 1 1 0 (fun _ => 7)).status = .ok () ↔
        (1 : UInt64) ≠ 0 ∧ (1 : UInt32) ≠ 0 ∧ gsdSizeofType gsdTypeUint8 ≠ 0 ∧ (0 : UInt8) = 0 ∧
        (gsdGetId h nameA ≠ uint16Max ∨ h.namelistNumEntries < h.header.namelistAllocatedEntries) ∧
        h.fileSize + chunkSize (1 : UInt64).toNat (1 : UInt32).toNat gsdTypeUint8 +
          (if h.header.indexAllocatedEntries ≤ h.indexNumEntries then
            entrySize * (h.header.indexAllocatedEntries * 2) else 0) ≤ maxFileSize) :=
  have hr := @Reach.createAndOpen (fun _ => True) emptySys _ _ false nameA nameA 0 .readwrite false rfl
  ⟨_, _, hr, Reach.writeChunk_succeeds_iff hr⟩

end Gsd
