import Gsd.Read

/-!
Sessions: the calls a writer makes on an open handle, run in order until one fails, starting
from a file `gsd_create_and_open` made. Two runs from a fresh file show where the library's own
files stop passing its reader's checks: frames without chunks push the frame number of a later
entry up to `index_allocated_entries`, and a chunk whose size overflows 64 bits is committed
over fewer bytes than its entry claims. A third shows a relocation in `readwrite` mode in the
middle of a frame publishing that frame's staged entries.
-/

namespace Gsd

/-- A call a writer makes on its handle, with valid arguments (`flags = 0`). -/
inductive Call
  | writeChunk (name : CStr) (type : Nat) (N : UInt64) (M : UInt32) (data : Nat → UInt8)
  | endFrame

def Call.run : Call → Sys → GsdHandle → Outcome
  | .writeChunk name type N M data, s, h => gsdWriteChunk s h name type N M 0 data
  | .endFrame, s, h => gsdEndFrame s h

/-- Run the calls in order; the first failure ends the run. -/
def runCalls : List Call → Sys → GsdHandle → Outcome
  | [], s, h => ⟨s, h, .ok ()⟩
  | c :: cs, s, h => (c.run s h).andThen (runCalls cs)

theorem runCalls_append (xs ys : List Call) (s : Sys) (h : GsdHandle) :
    runCalls (xs ++ ys) s h = (runCalls xs s h).andThen (runCalls ys) := by
  induction xs generalizing s h with
  | nil => rfl
  | cons c cs ih =>
    show (c.run s h).andThen (runCalls (cs ++ ys)) = _
    rw [runCalls, Outcome.andThen_assoc]
    congr 1
    funext s' h'
    exact ih s' h'

theorem gsdEndFrame_of_nothing_staged (s : Sys) {h : GsdHandle} (hw : h.openFlags ≠ .readonly)
    (hi : h.indexNumEntries = h.indexWrittenEntries) (hn : h.namelistNumEntries = h.namelistWrittenEntries) :
    gsdEndFrame s h = ⟨s, { h with curFrame := (h.curFrame + 1) % 2 ^ 64 }, .ok ()⟩ := by
  simp [gsdEndFrame, hw, writeIndexTail, writeNamelistTail, hi, hn, sub64, Outcome.andThen]

theorem runCalls_endFrames (k : Nat) (s : Sys) {h : GsdHandle} (hw : h.openFlags ≠ .readonly)
    (hi : h.indexNumEntries = h.indexWrittenEntries) (hn : h.namelistNumEntries = h.namelistWrittenEntries)
    (hc : h.curFrame < 2 ^ 64) :
    runCalls (List.replicate k .endFrame) s h =
      ⟨s, { h with curFrame := (h.curFrame + k) % 2 ^ 64 }, .ok ()⟩ := by
  induction k generalizing h with
  | zero => rw [Nat.add_zero, Nat.mod_eq_of_lt hc]; rfl
  | succ k ih =>
    rw [List.replicate_succ, runCalls, Call.run, gsdEndFrame_of_nothing_staged s hw hi hn,
      Outcome.andThen_ok, @ih { h with curFrame := (h.curFrame + 1) % 2 ^ 64 } hw hi hn
        (Nat.mod_lt _ (by norm_num))]
    rw [Nat.mod_add_mod, Nat.add_assoc, Nat.add_comm 1 k]

/-- An empty system, before `gsd_create_and_open`. -/
def emptySys : Sys := ⟨⟨0, fun _ => 0⟩, []⟩

/-- The name `"a"`. -/
def nameA : CStr := ⟨[97], by decide⟩

/-- 128 frames without chunks, then one chunk and the end of its frame. -/
def emptyFramesRun : List Call :=
  List.replicate 128 .endFrame ++ [.writeChunk nameA gsdTypeUint8 1 1 (fun _ => 0), .endFrame]

/-- On a fresh file every call of `emptyFramesRun` succeeds, and then `gsd_open` in every mode
finds the file corrupt: the entry's frame, 128, is not below `index_allocated_entries`. -/
theorem emptyFramesRun_reopen_corrupt :
    ∃ s h, gsdCreateAndOpen emptySys false nameA nameA 0 .readwrite false = (s, .ok h) ∧
      (runCalls emptyFramesRun s h).status = .ok () ∧
      ∀ flags, gsdOpen (runCalls emptyFramesRun s h).sys.disk flags = .error .fileCorrupt := by
  refine ⟨_, _, rfl, ?_⟩
  rw [emptyFramesRun, runCalls_append, runCalls_endFrames _ _ (by decide) rfl rfl (by decide),
    Outcome.andThen_ok]
  exact ⟨rfl, fun flags => by cases flags <;> rfl⟩

/-- One chunk of `2 ^ 61 + 1` eight-byte values: `N * M * 8` is `2 ^ 64 + 8`, which `size_t`
holds as 8. -/
def wrappedChunkRun : List Call :=
  [.writeChunk nameA gsdTypeUint64 (UInt64.ofNat (2 ^ 61 + 1)) 1 (fun _ => 5), .endFrame]

/-- On a fresh file the chunk is committed after 8 bytes were written for it; `gsd_open` then
validates its entry and `gsd_read_chunk` reads those 8 bytes, though the entry's extent
`location + N * M * 8` runs far past the end of the file. -/
theorem wrappedChunkRun_accepted :
    ∃ s h, gsdCreateAndOpen emptySys false nameA nameA 0 .readwrite false = (s, .ok h) ∧
      (runCalls wrappedChunkRun s h).status = .ok () ∧
      (runCalls wrappedChunkRun s h).sys.disk.size = h.fileSize + 8 ∧
      ∃ h', gsdOpen (runCalls wrappedChunkRun s h).sys.disk .readonly = .ok h' ∧
        gsdIsEntryValid h' 0 = true ∧
        h'.fileSize < (h'.index 0).location +
          (h'.index 0).N * (h'.index 0).M * gsdSizeofType (h'.index 0).type ∧
        gsdReadChunk (runCalls wrappedChunkRun s h).sys.disk h' (some (h'.index 0)) =
          .ok (List.replicate 8 5) :=
  ⟨_, _, rfl, rfl, rfl, _, rfl, by decide, by decide, rfl⟩

/-- A chunk named `"a"` of `2 ^ 63` bytes, more than any file holds. -/
def oversizedA : Call := .writeChunk nameA gsdTypeUint8 (UInt64.ofNat (2 ^ 63)) 1 (fun _ => 7)

/-- On a fresh file the oversized chunk fails with `GSD_ERROR_IO` after its name was appended,
and the `gsd_end_frame` after it commits the name and opens frame 1 with an empty index.
`gsd_find_chunk(0, "a")` then returns `&index[0]`, the zeroed slot past `index_num_entries`,
which `gsd_read_chunk` rejects as corrupt. -/
theorem failedWrite_findChunk_past_end :
    ∃ s h, gsdCreateAndOpen emptySys false nameA nameA 0 .readwrite false = (s, .ok h) ∧
      (oversizedA.run s h).status = .error .io ∧
      ∃ s' h', gsdEndFrame (oversizedA.run s h).sys (oversizedA.run s h).handle = ⟨s', h', .ok ()⟩ ∧
        h'.indexNumEntries = 0 ∧ gsdGetNframes h' = 1 ∧ gsdGetId h' nameA = 0 ∧
        gsdFindChunk h' 0 nameA = some 0 ∧
        gsdReadChunk s'.disk h' (some (h'.index 0)) = .error .fileCorrupt :=
  ⟨_, _, rfl, rfl, _, _, rfl, rfl, rfl, rfl, rfl, rfl⟩

/-- A one-byte chunk named `"a"`. -/
def writeA : Call := .writeChunk nameA gsdTypeUint8 1 1 (fun _ => 7)

/-- Frame 0 holds one chunk; frame 1, still open, stages 127 more, filling the block of 128. -/
def stagedRelocRun : List Call := [writeA, .endFrame] ++ List.replicate 127 writeA

set_option maxRecDepth 2000 in
/-- The next chunk of frame 1 makes `readwrite` mode relocate the index, and the relocated block
holds the staged entries. A reader opening the file before that call sees one entry and one
frame; after it, with frame 1 still open, 128 entries and two frames. -/
theorem stagedRelocRun_exposes_open_frame :
    ∃ s h, gsdCreateAndOpen emptySys false nameA nameA 0 .readwrite false = (s, .ok h) ∧
      (runCalls stagedRelocRun s h).status = .ok () ∧
      (runCalls stagedRelocRun s h).handle.curFrame = 1 ∧
      (writeA.run (runCalls stagedRelocRun s h).sys (runCalls stagedRelocRun s h).handle).status =
        .ok () ∧
      (∃ h₁, gsdOpen (runCalls stagedRelocRun s h).sys.disk .readonly = .ok h₁ ∧
        h₁.indexNumEntries = 1 ∧ gsdGetNframes h₁ = 1) ∧
      ∃ h₂, gsdOpen (writeA.run (runCalls stagedRelocRun s h).sys
          (runCalls stagedRelocRun s h).handle).sys.disk .readonly = .ok h₂ ∧
        h₂.indexNumEntries = 128 ∧ gsdGetNframes h₂ = 2 ∧ (h₂.index 127).frame = 1 :=
  ⟨_, _, rfl, rfl, rfl, rfl, ⟨_, rfl, rfl, rfl⟩, _, rfl, rfl, rfl, rfl⟩

end Gsd
