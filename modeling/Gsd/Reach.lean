import Gsd.Calls
import Gsd.Run

/-!
The states a writer reaches: a new file made by `gsd_create_and_open`, or by `gsd_create` and
opened in a writing mode, then any sequence of successful calls (`gsd_write_chunk`,
`gsd_end_frame`), closings with reopenings in a writing mode, and `gsd_truncate`. Every
reached state satisfies `Inv` over some ghost list of entries, and `FrameInv` when no handle
on the way reached `cur_frame + 1 = 2 ^ 64`; from every reached state, no later run writes a
byte of a payload already written.
-/

namespace Gsd

/-- One step of a session: a call that succeeded, or closing the handle and opening the file
again in a writing mode. -/
inductive Step : Sys → GsdHandle → Sys → GsdHandle → Prop
  | call {s h s' h'} (c : Call) : c.run s h = ⟨s', h', .ok ()⟩ → Step s h s' h'
  | reopen {s h h'} (flags : GsdOpenFlag) : flags ≠ .readonly → gsdOpen s.disk flags = .ok h' →
      Step s h s h'

/-- Any number of steps. -/
inductive Steps : Sys → GsdHandle → Sys → GsdHandle → Prop
  | refl (s h) : Steps s h s h
  | tail {s h s₁ h₁ s' h'} : Steps s h s₁ h₁ → Step s₁ h₁ s' h' → Steps s h s' h'

/-- The states reached from a new file, `guard` holding of the handle before every step. -/
inductive Reach (guard : GsdHandle → Prop) : Sys → GsdHandle → Prop
  | createAndOpen {s s' h} {fileExists : Bool} {application schema : CStr} {schemaVersion : Nat}
      {flags : GsdOpenFlag} {exclusiveCreate : Bool} :
      gsdCreateAndOpen s fileExists application schema schemaVersion flags exclusiveCreate =
        (s', .ok h) → Reach guard s' h
  | createThenOpen {s s' h} {application schema : CStr} {schemaVersion : Nat} {flags : GsdOpenFlag} :
      gsdCreate s application schema schemaVersion = (s', .ok ()) → flags ≠ .readonly →
      gsdOpen s'.disk flags = .ok h → Reach guard s' h
  | step {s h s' h'} : Reach guard s h → guard h → Step s h s' h' → Reach guard s' h'
  | truncate {s h s' h'} : Reach guard s h → gsdTruncate s h = (s', .ok h') → Reach guard s' h'

section Step

variable {s s' : Sys} {h h' : GsdHandle} {E : Nat → GsdIndexEntry}

/-- Every step keeps the invariant over some ghost entries and writes no frozen byte; it keeps
the frame order while `cur_frame + 1` does not wrap. -/
theorem Inv.step (hi : Inv s h E) (hs : Step s h s' h') :
    ∃ E', Inv s' h' E' ∧ Kept s h s' h' ∧ (FrameInv h E → h.curFrame + 1 < 2 ^ 64 → FrameInv h' E') := by
  cases hs with
  | call c ho =>
    cases c with
    | writeChunk name type N M data =>
      obtain ⟨_, _, -, hi', hk, hfr⟩ := hi.writeChunk ho
      exact ⟨_, hi', hk, fun hf _ => hfr hf⟩
    | endFrame =>
      obtain ⟨hi', hk, hn, hw, hc⟩ := hi.endFrame ho
      exact ⟨E, hi', hk, fun hf hcur => hf.endFrame hcur hn hw hc⟩
  | reopen flags hflags ho =>
    obtain ⟨k, -, hk2, -, hf⟩ := hi.file
    obtain ⟨hi', hh, -⟩ := inv_of_gsdOpen hf (hi.payloads.mono hk2) hflags ho
    exact ⟨E, hi', Kept.of_header hh, fun hf hcur => frameInv_of_gsdOpen hi hf hcur hflags ho⟩

theorem inv_of_initialized {s₀ s : Sys} {application schema : CStr} {schemaVersion : Nat}
    {flags : GsdOpenFlag} (hinit : gsdInitializeFile s₀ application schema schemaVersion = (s, .ok ()))
    (hflags : flags ≠ .readonly) (ho : gsdReadHeader s.disk flags = .ok h) :
    Inv s h (fun _ => default) ∧ FrameInv h (fun _ => default) := by
  have hd := gsdInitializeFile_ok hinit
  have hf := fileInv_initialDisk application schema schemaVersion fun _ => default
  rw [← hd] at hf
  obtain ⟨hi, -, hn, hw, hc⟩ := inv_of_gsdOpen hf
    ⟨nofun, nofun, nofun, nofun, nofun, fun _ _ _ h => absurd h (Nat.not_lt_zero _)⟩ hflags ho
  exact ⟨hi, ⟨fun i j _ hj => absurd hj (by omega), fun i hi' => absurd hi' (by omega),
    fun i _ hi' => absurd hi' (by omega)⟩⟩

theorem gsdCreateAndOpen_ok {fileExists : Bool} {application schema : CStr} {schemaVersion : Nat}
    {flags : GsdOpenFlag} {exclusiveCreate : Bool}
    (ho : gsdCreateAndOpen s fileExists application schema schemaVersion flags exclusiveCreate =
      (s', .ok h)) :
    flags ≠ .readonly ∧
      gsdInitializeFile (s.issue (.ftruncate 0)) application schema schemaVersion = (s', .ok ()) ∧
      gsdReadHeader s'.disk flags = .ok h := by
  unfold gsdCreateAndOpen at ho
  by_cases h1 : flags = .readonly
  · simp [h1] at ho
  by_cases h2 : exclusiveCreate ∧ fileExists
  · simp [h1, h2] at ho
  rw [if_neg h1, if_neg h2] at ho
  rcases hinit : gsdInitializeFile (s.issue (.ftruncate 0)) application schema schemaVersion
    with ⟨s₁, _ | u⟩ <;> rw [hinit] at ho
  · cases ho
  · obtain ⟨rfl, hr⟩ := Prod.mk.inj ho
    exact ⟨h1, rfl, hr⟩

theorem gsdTruncate_ok (ho : gsdTruncate s h = (s', .ok h')) :
    gsdInitializeFile s (arrayCStr h.header.application) (arrayCStr h.header.schema)
      h.header.schemaVersion = (s', .ok ()) ∧ gsdReadHeader s'.disk h.openFlags = .ok h' := by
  unfold gsdTruncate at ho
  by_cases h1 : h.openFlags = .readonly
  · simp [h1] at ho
  rw [if_neg h1] at ho
  rcases hinit : gsdInitializeFile s (arrayCStr h.header.application) (arrayCStr h.header.schema)
    h.header.schemaVersion with ⟨s₁, _ | u⟩ <;> rw [hinit] at ho
  · cases ho
  · obtain ⟨rfl, hr⟩ := Prod.mk.inj ho
    exact ⟨rfl, hr⟩

end Step

/-- Every reached state satisfies the invariant; when the guard keeps `cur_frame + 1` below
`2 ^ 64`, the frame order too. -/
theorem Reach.inv {guard : GsdHandle → Prop} {s : Sys} {h : GsdHandle} (hr : Reach guard s h) :
    ∃ E, Inv s h E ∧ ((∀ h', guard h' → h'.curFrame + 1 < 2 ^ 64) → FrameInv h E) := by
  induction hr with
  | createAndOpen ho =>
    obtain ⟨hflags, hinit, hr⟩ := gsdCreateAndOpen_ok ho
    obtain ⟨hi, hfr⟩ := inv_of_initialized hinit hflags hr
    exact ⟨_, hi, fun _ => hfr⟩
  | createThenOpen hc hflags ho =>
    obtain ⟨hi, hfr⟩ := inv_of_initialized hc hflags ho
    exact ⟨_, hi, fun _ => hfr⟩
  | step _ hg hs ih =>
    obtain ⟨E, hi, hfr⟩ := ih
    obtain ⟨E', hi', -, hfr'⟩ := hi.step hs
    exact ⟨E', hi', fun hguard => hfr' (hfr hguard) (hguard _ hg)⟩
  | truncate _ ho ih =>
    obtain ⟨E, hi, -⟩ := ih
    obtain ⟨hinit, hr⟩ := gsdTruncate_ok ho
    obtain ⟨hi', hfr⟩ := inv_of_initialized hinit hi.writable hr
    exact ⟨_, hi', fun _ => hfr⟩

theorem Steps.kept {s s' : Sys} {h h' : GsdHandle} {E : Nat → GsdIndexEntry} (hi : Inv s h E)
    (hs : Steps s h s' h') : ∃ E', Inv s' h' E' ∧ Kept s h s' h' := by
  induction hs with
  | refl => exact ⟨E, hi, Kept.of_header rfl⟩
  | tail _ hstep ih =>
    obtain ⟨E₁, hi₁, hk₁⟩ := ih
    obtain ⟨E', hi', hk, -⟩ := hi₁.step hstep
    exact ⟨E', hi', hk₁.trans hk⟩

/-- The entries `E` are the handle's: the committed ones are in the file's block, the staged
ones in memory (the whole index in `readwrite` mode, the cache of unwritten entries in `append`
mode). -/
structure Entries (s : Sys) (h : GsdHandle) (E : Nat → GsdIndexEntry) : Prop where
  committed : ∀ i < h.indexWrittenEntries, diskIndex s.disk h.header.indexLocation i = E i
  resident : h.openFlags = .readwrite → ∀ i < h.indexNumEntries, h.index i = E i
  cached : h.openFlags = .append →
    ∀ i < h.indexNumEntries - h.indexWrittenEntries, h.index i = E (h.indexWrittenEntries + i)

/-- The layout of the file: the header, the index block, the namelist block and the payload
`[location, location + size)` of every committed or staged entry pairwise apart and inside
`[0, file_size)`, with `file_size` the length of the file. `size` is `N * M * sizeof(type)` as
`gsd_write_chunk` computed it, in `size_t`. -/
structure Layout (s : Sys) (h : GsdHandle) (E : Nat → GsdIndexEntry) : Prop where
  size_eq : s.disk.size = h.fileSize
  index_after_header : headerSize ≤ h.header.indexLocation
  namelist_after_header : headerSize ≤ h.header.namelistLocation
  blocks_apart : Apart h.header.indexLocation (entrySize * h.header.indexAllocatedEntries)
    h.header.namelistLocation (namelistEntrySize * h.header.namelistAllocatedEntries)
  index_inside : h.header.indexLocation + entrySize * h.header.indexAllocatedEntries ≤ h.fileSize
  namelist_inside :
    h.header.namelistLocation + namelistEntrySize * h.header.namelistAllocatedEntries ≤ h.fileSize
  payload_after_header : ∀ i < h.indexNumEntries, headerSize ≤ (E i).location
  payload_inside : ∀ i < h.indexNumEntries, (E i).location + (E i).size ≤ h.fileSize
  payload_apart_index : ∀ i < h.indexNumEntries, Apart (E i).location (E i).size
    h.header.indexLocation (entrySize * h.header.indexAllocatedEntries)
  payload_apart_namelist : ∀ i < h.indexNumEntries, Apart (E i).location (E i).size
    h.header.namelistLocation (namelistEntrySize * h.header.namelistAllocatedEntries)
  payloads_apart : ∀ i j, i < j → j < h.indexNumEntries →
    Apart (E i).location (E i).size (E j).location (E j).size

/-- From `(s, _)` to `s'`, the log grew only by writes that miss `[loc, loc + n)`, and those
bytes kept their values. -/
def Untouched (s s' : Sys) (loc n : Nat) : Prop :=
  (∃ ops, s'.log = s.log ++ ops ∧ ∀ op ∈ ops, op.Misses fun x => loc ≤ x ∧ x < loc + n) ∧
    ∀ x, loc ≤ x → x < loc + n → s'.disk.byte x = s.disk.byte x

/-- The handle's own bookkeeping in a reached state. -/
structure HandleWf (s : Sys) (h : GsdHandle) (E : Nat → GsdIndexEntry) : Prop where
  entries : Entries s h E
  written_le : h.indexWrittenEntries ≤ h.indexNumEntries
  num_le : h.indexNumEntries ≤ h.header.indexAllocatedEntries
  slots : h.openFlags = .readwrite → h.indexSlots = h.header.indexAllocatedEntries
  frames_mono : h.openFlags = .readwrite → ∀ i j, i ≤ j → j < h.indexNumEntries →
    (h.index i).frame ≤ (h.index j).frame
  committed_lt : h.openFlags = .readwrite → ∀ i < h.indexWrittenEntries,
    (h.index i).frame < h.curFrame
  staged_eq : h.openFlags = .readwrite → ∀ i, h.indexWrittenEntries ≤ i → i < h.indexNumEntries →
    (h.index i).frame = h.curFrame
  cache_le : h.openFlags = .append →
    h.indexNumEntries - h.indexWrittenEntries ≤ h.appendIndexSize
  names_written_le : h.namelistWrittenEntries ≤ h.namelistNumEntries
  names_le : h.namelistNumEntries ≤ min h.header.namelistAllocatedEntries h.namesAllocatedSize
  names_perm : (h.names.take h.namelistNumEntries).Perm
    ((List.range h.namelistNumEntries).map fun i => ⟨i, i⟩)
  names_sorted : h.NamesSorted h.namelistWrittenEntries
  /-- The store that ends `gsd_write_chunk`, once the block has room, stays inside the buffer
  it writes: the index in `readwrite` mode, the cache, doubled if full, in `append` mode. -/
  store_in_bounds : h.indexNumEntries < h.header.indexAllocatedEntries → ∀ e,
    (if h.openFlags = .append then h.indexNumEntries - h.indexWrittenEntries else h.indexNumEntries) <
      (storeEntry h e).indexSlots

section Facts

variable {s : Sys} {h : GsdHandle} {E : Nat → GsdIndexEntry}

theorem Inv.entries (hi : Inv s h E) : Entries s h E := by
  obtain ⟨k, hk1, hk2, -, hf⟩ := hi.file
  have := hi.num_le
  refine ⟨fun i hi' => ?_, fun hrw i hi' => ?_, fun happ i hi' => (hi.cached happ).2.2.2.2 i hi'⟩
  · rw [diskIndex_of_block hf.block (fun j hj => hi.payloads.wf j (by omega)) (by omega),
      blockEntries, if_pos (by omega)]
  · rw [(hi.resident hrw).2 i (by omega), blockEntries, if_pos hi']

theorem Inv.layout (hi : Inv s h E) : Layout s h E := by
  obtain ⟨k, -, -, -, hf⟩ := hi.file
  have hp := hi.payloads
  exact ⟨hi.size_eq, hf.index_after, hf.namelist_after, hf.blocks_apart,
    hi.size_eq ▸ hf.image.index_le, hi.size_eq ▸ hf.image.namelist_le, hp.after_header,
    fun i hi' => hi.size_eq ▸ hp.inside i hi', hp.apart_index, hp.apart_namelist, hp.apart⟩

theorem Inv.store_in_bounds (hi : Inv s h E) (hnum : h.indexNumEntries < h.header.indexAllocatedEntries)
    (e : GsdIndexEntry) :
    (if h.openFlags = .append then h.indexNumEntries - h.indexWrittenEntries else h.indexNumEntries) <
      (storeEntry h e).indexSlots := by
  by_cases happ : h.openFlags = .append
  · obtain ⟨hc1, hc2, -, hc4, -⟩ := hi.cached happ
    have hb : h.indexNumEntries * 2 * entrySize < 2 ^ 64 := by
      have := hi.block_bound; unfold entrySize at *; omega
    rw [if_pos happ, storeEntry_of_append happ hi.written_le hb hc1]
    dsimp only
    split <;> omega
  · have hrw : h.openFlags = .readwrite := by
      have := hi.writable; cases hf : h.openFlags <;> simp_all
    rw [if_neg happ, storeEntry_of_ne_append happ]
    exact (hi.resident hrw).1 ▸ hnum

theorem Inv.toHandleWf (hi : Inv s h E) (hfr : FrameInv h E) : HandleWf s h E := by
  have he := hi.entries
  refine ⟨he, hi.written_le, hi.num_le, fun hrw => (hi.resident hrw).1, fun hrw i j hij hj => ?_,
    fun hrw i hi' => ?_, fun hrw i h1 h2 => ?_, fun happ => (hi.cached happ).1, hi.names_written_le,
    le_min hi.names_le_alloc hi.names_le_size, hi.names_perm, hi.names_sorted,
    hi.store_in_bounds⟩
  · rw [he.resident hrw i (by omega), he.resident hrw j hj]; exact hfr.mono i j hij hj
  · rw [he.resident hrw i (by have := hi.written_le; omega)]; exact hfr.committed_lt i hi'
  · rw [he.resident hrw i h2]; exact hfr.staged_eq i h1 h2

theorem Layout.frozen (hl : Layout s h E) {i : Nat} (hi : i < h.indexNumEntries) {x : Nat}
    (h1 : (E i).location ≤ x) (h2 : x < (E i).location + (E i).size) : Frozen s h x := by
  have := hl.payload_after_header i hi
  have := hl.payload_inside i hi
  have := hl.payload_apart_index i hi
  have := hl.payload_apart_namelist i hi
  have := hl.size_eq
  unfold Apart at *
  refine ⟨by omega, by omega, by unfold Apart; omega, by unfold Apart; omega⟩

theorem Kept.untouched {s' : Sys} {h' : GsdHandle} (hk : Kept s h s' h') (hl : Layout s h E) {i : Nat}
    (hi : i < h.indexNumEntries) : Untouched s s' (E i).location (E i).size := by
  obtain ⟨ops, hlog, hm⟩ := hk.ops
  exact ⟨⟨ops, hlog, fun op hop => (hm op hop).mono fun x hx => hl.frozen hi hx.1 hx.2⟩,
    fun x h1 h2 => hk.bytes x (hl.frozen hi h1 h2)⟩

end Facts

theorem Outcome.eq_of_status {o : Outcome} (ho : o.status = .ok ()) : o = ⟨o.sys, o.handle, .ok ()⟩ := by
  obtain ⟨s, h, st⟩ := o
  cases ho
  rfl

theorem Reach.runCalls {s : Sys} {h : GsdHandle} (hr : Reach (fun _ => True) s h) :
    ∀ {cs : List Call}, (runCalls cs s h).status = .ok () →
      Reach (fun _ => True) (runCalls cs s h).sys (runCalls cs s h).handle := by
  intro cs
  induction cs generalizing s h with
  | nil => exact fun _ => hr
  | cons c cs ih =>
    intro ho
    obtain ⟨hok, heq⟩ := Outcome.andThen_eq_ok ho
    have hstep : Step s h (c.run s h).sys (c.run s h).handle := .call c (Outcome.eq_of_status hok)
    simp only [Gsd.runCalls, heq] at ho ⊢
    exact ih (hr.step trivial hstep) ho

/-- In every state reached while no handle on the way stood at `cur_frame = 2 ^ 64 - 1`, the
handle's bookkeeping holds. -/
theorem Reach.handleWf {s : Sys} {h : GsdHandle} (hr : Reach (fun h => h.curFrame + 1 < 2 ^ 64) s h) :
    ∃ E, HandleWf s h E := by
  obtain ⟨E, hi, hfr⟩ := hr.inv
  exact ⟨E, hi.toHandleWf (hfr fun _ hg => hg)⟩

theorem writeA_endFrame_wf :
    ∃ s h, gsdCreateAndOpen emptySys false nameA nameA 0 .readwrite false = (s, .ok h) ∧
      (runCalls [writeA, .endFrame] s h).status = .ok () ∧
      ∃ E, HandleWf (runCalls [writeA, .endFrame] s h).sys (runCalls [writeA, .endFrame] s h).handle E :=
  have h₀ := @Reach.createAndOpen (fun h => h.curFrame + 1 < 2 ^ 64) emptySys _ _ false nameA nameA 0
    .readwrite false rfl
  have h₁ := h₀.step (by decide) (.call writeA (Outcome.eq_of_status rfl))
  ⟨_, _, rfl, rfl, Reach.handleWf (h₁.step (by decide) (.call .endFrame (Outcome.eq_of_status rfl)))⟩

/-- `2 ^ 64 - 1` frames without chunks, then one chunk and the end of its frame. -/
def wrappedFrameRun : List Call := List.replicate (2 ^ 64 - 1) .endFrame ++ [writeA, .endFrame]

/-- After `2 ^ 64 - 1` empty frames the chunk is staged at frame `2 ^ 64 - 1`; the end of its
frame commits it and wraps `cur_frame` to 0, so a committed entry is not below `cur_frame`. -/
theorem wrappedFrameRun_commits_above_cur :
    ∃ s h, gsdCreateAndOpen emptySys false nameA nameA 0 .readwrite false = (s, .ok h) ∧
      (runCalls wrappedFrameRun s h).status = .ok () ∧
      Reach (fun _ => True) (runCalls wrappedFrameRun s h).sys (runCalls wrappedFrameRun s h).handle ∧
      (runCalls wrappedFrameRun s h).handle.openFlags = .readwrite ∧
      (runCalls wrappedFrameRun s h).handle.indexWrittenEntries = 1 ∧
      (runCalls wrappedFrameRun s h).handle.curFrame = 0 ∧
      ((runCalls wrappedFrameRun s h).handle.index 0).frame = 2 ^ 64 - 1 := by
  refine ⟨_, _, rfl, ?ok,
    Reach.runCalls (@Reach.createAndOpen _ emptySys _ _ false nameA nameA 0 .readwrite false rfl) ?ok, ?_⟩
  all_goals rw [wrappedFrameRun, runCalls_append, runCalls_endFrames _ _ (by decide) rfl rfl (by decide),
    Outcome.andThen_ok]
  exacts [rfl, ⟨rfl, rfl, rfl, rfl⟩]

/-- In every reached state the file has its layout over the handle's entries, and no later run
writes a byte of their payloads. -/
theorem Reach.layout_untouched {guard : GsdHandle → Prop} {s : Sys} {h : GsdHandle}
    (hr : Reach guard s h) :
    ∃ E, Entries s h E ∧ Layout s h E ∧
      ∀ s' h', Steps s h s' h' → ∀ i < h.indexNumEntries, Untouched s s' (E i).location (E i).size := by
  obtain ⟨E, hi, -⟩ := hr.inv
  refine ⟨E, hi.entries, hi.layout, fun s' h' hs i hi' => ?_⟩
  obtain ⟨-, -, hk⟩ := hs.kept hi
  exact hk.untouched hi.layout hi'

theorem writeA_layout_untouched :
    ∃ s h, Reach (fun _ => True) s h ∧ 0 < h.indexWrittenEntries ∧
      ∃ E, Entries s h E ∧ Layout s h E ∧
        ∀ s' h', Steps s h s' h' → ∀ i < h.indexNumEntries, Untouched s s' (E i).location (E i).size :=
  have hr := @Reach.runCalls _ _
    (@Reach.createAndOpen (fun _ => True) emptySys _ _ false nameA nameA 0 .readwrite false rfl)
    [writeA, .endFrame] rfl
  ⟨_, _, hr, by decide, Reach.layout_untouched hr⟩

/-- In every reached state, a successful `gsd_expand_index` doubles the block and moves it to the
old end of the file: the new block holds the old index (the in-memory entries, or the old block's
bytes copied one buffer at a time) and then zeros, `file_size` is the new end of the file, and
below the old end only the header changed. -/
theorem Reach.expand_relocates {guard : GsdHandle → Prop} {s : Sys} {h : GsdHandle}
    (hr : Reach guard s h) (ho : (gsdExpandIndex s h).status = .ok ()) :
    (gsdExpandIndex s h).handle.header.indexAllocatedEntries = 2 * h.header.indexAllocatedEntries ∧
      (gsdExpandIndex s h).handle.header.indexLocation = s.disk.size ∧
      (h.openFlags = .readwrite → ∀ k < entrySize * h.header.indexAllocatedEntries,
        (gsdExpandIndex s h).sys.disk.view s.disk.size k = entriesBuf h.index k) ∧
      (h.openFlags = .append →
        (∀ k < entrySize * h.header.indexAllocatedEntries,
          (gsdExpandIndex s h).sys.disk.view s.disk.size k = s.disk.view h.header.indexLocation k) ∧
        ∃ ops, (∀ op ∈ ops, op.FitsBuffer) ∧ (gsdExpandIndex s h).sys.log =
          s.log ++ ops ++ [.pwrite 0 headerSize (listBuf (gsdExpandIndex s h).handle.header.toBytes)]) ∧
      (∀ k, entrySize * h.header.indexAllocatedEntries ≤ k →
        k < entrySize * (2 * h.header.indexAllocatedEntries) →
        (gsdExpandIndex s h).sys.disk.view s.disk.size k = 0) ∧
      (gsdExpandIndex s h).handle.fileSize = (gsdExpandIndex s h).sys.disk.size ∧
      (gsdExpandIndex s h).sys.disk.size =
        s.disk.size + entrySize * (2 * h.header.indexAllocatedEntries) ∧
      ∀ x, headerSize ≤ x → x < s.disk.size → (gsdExpandIndex s h).sys.disk.byte x = s.disk.byte x := by
  obtain ⟨E, hi, -⟩ := hr.inv
  obtain ⟨k, -, -, -, hf⟩ := hi.file
  exact gsdExpandIndex_relocates hi.writable hf.image.index_pos hi.block_bound hf.image.header_le hf.clean
    (fun _ => hf.image.index_le) ho

theorem freshHandle_relocates :
    ∃ s h, Reach (fun _ => True) s h ∧ (gsdExpandIndex s h).status = .ok () ∧
      (gsdExpandIndex s h).handle.header.indexAllocatedEntries = 2 * h.header.indexAllocatedEntries ∧
      (gsdExpandIndex s h).handle.header.indexLocation = s.disk.size ∧
      (h.openFlags = .readwrite → ∀ k < entrySize * h.header.indexAllocatedEntries,
        (gsdExpandIndex s h).sys.disk.view s.disk.size k = entriesBuf h.index k) ∧
      (h.openFlags = .append →
        (∀ k < entrySize * h.header.indexAllocatedEntries,
          (gsdExpandIndex s h).sys.disk.view s.disk.size k = s.disk.view h.header.indexLocation k) ∧
        ∃ ops, (∀ op ∈ ops, op.FitsBuffer) ∧ (gsdExpandIndex s h).sys.log =
          s.log ++ ops ++ [.pwrite 0 headerSize (listBuf (gsdExpandIndex s h).handle.header.toBytes)]) ∧
      (∀ k, entrySize * h.header.indexAllocatedEntries ≤ k →
        k < entrySize * (2 * h.header.indexAllocatedEntries) →
        (gsdExpandIndex s h).sys.disk.view s.disk.size k = 0) ∧
      (gsdExpandIndex s h).handle.fileSize = (gsdExpandIndex s h).sys.disk.size ∧
      (gsdExpandIndex s h).sys.disk.size =
        s.disk.size + entrySize * (2 * h.header.indexAllocatedEntries) ∧
      ∀ x, headerSize ≤ x → x < s.disk.size → (gsdExpandIndex s h).sys.disk.byte x = s.disk.byte x :=
  have hr := @Reach.createAndOpen (fun _ => True) emptySys _ _ false nameA nameA 0 .readwrite false rfl
  ⟨_, _, hr, rfl, Reach.expand_relocates hr rfl⟩

/-- The committed entry of `wrappedChunkRun` claims `N * M * 8 = 2 ^ 64 + 8` bytes from its
location, past the end of the file. -/
theorem wrappedChunkRun_extent_outside :
    ∃ s h, gsdCreateAndOpen emptySys false nameA nameA 0 .readwrite false = (s, .ok h) ∧
      (runCalls wrappedChunkRun s h).status = .ok () ∧
      Reach (fun _ => True) (runCalls wrappedChunkRun s h).sys (runCalls wrappedChunkRun s h).handle ∧
      (runCalls wrappedChunkRun s h).handle.indexWrittenEntries = 1 ∧
      (runCalls wrappedChunkRun s h).handle.fileSize <
        ((runCalls wrappedChunkRun s h).handle.index 0).location +
          ((runCalls wrappedChunkRun s h).handle.index 0).N *
          ((runCalls wrappedChunkRun s h).handle.index 0).M *
          gsdSizeofType ((runCalls wrappedChunkRun s h).handle.index 0).type :=
  ⟨_, _, rfl, rfl,
    Reach.runCalls (@Reach.createAndOpen _ emptySys _ _ false nameA nameA 0 .readwrite false rfl) rfl,
    rfl, by decide⟩

end Gsd
