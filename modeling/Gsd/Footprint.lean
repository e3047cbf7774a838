import Gsd.Lookup

/-!
What the calls of a session write, and what a run of them keeps. `gsd_write_chunk` writes the
payload, and a relocated index block, past the old end of the file, and rewrites only the header
before it; `gsd_end_frame` writes the index entries and the namelist entries not yet written, and
nothing else. Over a whole run of calls and reopenings, an entry once committed stays in the index
block the header points to, with the value it was committed with, and the header changes only in
the place and size of that block. A reader opening the file meanwhile sees every committed entry
and, beside a `readwrite` writer only, possibly some staged ones; whatever the writer does after,
the block the reader loaded (a live mapping in `readonly` mode) keeps the committed entries, and
their chunks read the same. A file `gsd_create` makes opens
in every mode and reads back what it was created with, and `gsd_truncate` starts the file again
under the header's own application, schema and schema version.
-/

namespace Gsd

/-- `d'` keeps every byte of `d` past the header, and is no shorter. -/
def Disk.KeepsBody (d d' : Disk) : Prop :=
  d.size ≤ d'.size ∧ ∀ x, headerSize ≤ x → x < d.size → d'.byte x = d.byte x

theorem Disk.KeepsBody.view {d d' : Disk} (hk : d.KeepsBody d') {off j : Nat} (hl : headerSize ≤ off)
    (h : off + j < d.size) : d'.view off j = d.view off j := by
  rw [Disk.view_of_lt _ (by have := hk.1; omega), Disk.view_of_lt _ h, hk.2 _ (by omega) h]

theorem chunkId_counts {h h₁ : GsdHandle} {name : CStr} {r : Except GsdError Nat}
    (hc : chunkId h name = (h₁, r)) :
    h₁.indexWrittenEntries = h.indexWrittenEntries ∧ h₁.fileSize = h.fileSize ∧
      h₁.namelistWrittenEntries = h.namelistWrittenEntries := by
  have : (chunkId h name).1.indexWrittenEntries = h.indexWrittenEntries ∧
      (chunkId h name).1.fileSize = h.fileSize ∧
      (chunkId h name).1.namelistWrittenEntries = h.namelistWrittenEntries := by
    dsimp only [chunkId, gsdAppendName]
    split_ifs <;> exact ⟨rfl, rfl, rfl⟩
  rwa [hc] at this

theorem sessionWriteChunk_keeps (g : GsdHandle) (size : Nat) :
    (sessionWriteChunk g size).indexWrittenEntries = g.indexWrittenEntries ∧
      g.fileSize + size ≤ (sessionWriteChunk g size).fileSize ∧
      ((sessionWriteChunk g size).header = g.header ∨
        (sessionWriteChunk g size).header = relocatedHeader g.header (g.fileSize + size)) ∧
      (sessionWriteChunk g size).namelistWrittenEntries = g.namelistWrittenEntries := by
  dsimp only [sessionWriteChunk]
  split_ifs
  · exact ⟨rfl, Nat.le_add_right _ _, .inr rfl, rfl⟩
  · exact ⟨rfl, le_rfl, .inl rfl, rfl⟩

section Calls

variable {s s' : Sys} {h h' : GsdHandle} {E : Nat → GsdIndexEntry}

theorem Inv.writeChunk_keepsBody {name : CStr} {type : Nat} {N : UInt64} {M : UInt32}
    {flags : UInt8} {data : Nat → UInt8} (hi : Inv s h E)
    (ho : gsdWriteChunk s h name type N M flags data = ⟨s', h', .ok ()⟩) : s.disk.KeepsBody s'.disk := by
  obtain ⟨h₁, id, hc, hi', -, -, hsess, hbytes⟩ := hi.writeChunk_session ho
  have hf : h'.fileSize = (sessionWriteChunk h₁.session (chunkSize N.toNat M.toNat type)).fileSize :=
    (congrArg GsdHandle.fileSize hsess).trans rfl
  have hgrow := (sessionWriteChunk_keeps h₁.session (chunkSize N.toNat M.toNat type)).2.1
  have hf₁ : h₁.session.fileSize = h.fileSize := (chunkId_counts hc).2.1
  have hs := hi.size_eq
  have hs' := hi'.size_eq
  refine ⟨by omega, fun x hx hxs => ?_⟩
  rw [hbytes x hx (by omega), Disk.byte_write_outside _ _ (.inl (by omega)) hxs]

theorem Inv.endFrame_tails (hi : Inv s h E) (ho : gsdEndFrame s h = ⟨s', h', .ok ()⟩) :
    s'.disk.size = s.disk.size ∧ ∀ x < s.disk.size,
      (x < h.header.indexLocation + entrySize * h.indexWrittenEntries ∨
        h.header.indexLocation + entrySize * h.indexNumEntries ≤ x) →
      (x < h.header.namelistLocation + namelistEntrySize * h.namelistWrittenEntries ∨
        h.header.namelistLocation + namelistEntrySize * h.namelistNumEntries ≤ x) →
      s'.disk.byte x = s.disk.byte x := by
  obtain ⟨-, hd⟩ := hi.endFrame_session ho
  obtain ⟨k, -, -, -, hf⟩ := hi.file
  have hw := hi.written_le
  have hnw := hi.names_written_le
  have h1 : h.header.indexLocation + entrySize * h.indexWrittenEntries +
      entrySize * (h.indexNumEntries - h.indexWrittenEntries) ≤ s.disk.size := by
    have := hf.image.index_le; have := hi.num_le
    unfold entrySize at *; omega
  have h2 : h.header.namelistLocation + namelistEntrySize * h.namelistWrittenEntries +
      namelistEntrySize * (h.namelistNumEntries - h.namelistWrittenEntries) ≤ s.disk.size := by
    have := hf.image.namelist_le; have := hi.names_le_alloc
    unfold namelistEntrySize at *; omega
  have hs₁ := s.disk.size_write_of_le (entriesBuf fun i => E (h.indexWrittenEntries + i)) h1
  rw [hd]
  refine ⟨by rw [Disk.size_write_of_le _ _ (by omega), hs₁], fun x hx hxi hxn => ?_⟩
  rw [Disk.byte_write_outside _ _ (by unfold namelistEntrySize at *; omega) (by omega),
    Disk.byte_write_outside _ _ (by unfold entrySize at *; omega) hx]

theorem Inv.step_keeps (hi : Inv s h E) (hs : Step s h s' h') :
    ∃ E', Inv s' h' E' ∧ (∀ i < h.indexWrittenEntries, E' i = E i) ∧
      h.indexWrittenEntries ≤ h'.indexWrittenEntries ∧
      ∃ loc alloc, h'.header = { h.header with indexLocation := loc, indexAllocatedEntries := alloc } := by
  cases hs with
  | call c ho =>
    cases c with
    | writeChunk name type N M data =>
      obtain ⟨h₁, id, hc, hi', -, -, hsess, -⟩ := hi.writeChunk_session ho
      obtain ⟨hw, -, hhdr, -⟩ := sessionWriteChunk_keeps h₁.session (chunkSize N.toNat M.toNat type)
      have hw' : h'.indexWrittenEntries = h₁.indexWrittenEntries :=
        (congrArg GsdHandle.indexWrittenEntries hsess).trans hw
      have hh' : h'.header = (sessionWriteChunk h₁.session (chunkSize N.toNat M.toNat type)).header :=
        (congrArg GsdHandle.header hsess).trans rfl
      have hh₁ : h₁.session.header = h.header := (chunkId_keeps hc).1
      refine ⟨_, hi', fun i hi' => if_neg (by have := hi.written_le; omega),
        by rw [hw', (chunkId_counts hc).1], ?_⟩
      rcases hhdr with hh | hh <;> rw [hh', hh, hh₁]
      · exact ⟨_, _, rfl⟩
      · exact ⟨_, _, rfl⟩
    | endFrame =>
      obtain ⟨hi', -, -, hw, -⟩ := hi.endFrame ho
      obtain ⟨hsess, -⟩ := hi.endFrame_session ho
      have hh : h'.header = h.header := (congrArg GsdHandle.header hsess).trans (sessionEndFrame_header _)
      exact ⟨E, hi', fun _ _ => rfl, by rw [hw]; exact hi.written_le, _, _, by rw [hh]⟩
  | reopen flags hflags ho =>
    obtain ⟨k, hk1, hk2, -, hf⟩ := hi.file
    obtain ⟨hi', hh, -, hw, -⟩ := inv_of_gsdOpen hf (hi.payloads.mono hk2) hflags ho
    exact ⟨E, hi', fun _ _ => rfl, hw ▸ hk1, _, _, by rw [hh]⟩

/-- Along a run of steps, the committed entries stay as the index block the header points to
holds them, and the header changes only in the place and size of that block. -/
theorem Inv.steps_keep (hi : Inv s h E) (hs : Steps s h s' h') :
    h.indexWrittenEntries ≤ h'.indexWrittenEntries ∧
      (∀ i < h.indexWrittenEntries,
        diskIndex s'.disk h'.header.indexLocation i = diskIndex s.disk h.header.indexLocation i) ∧
      ∃ loc alloc, h'.header = { h.header with indexLocation := loc, indexAllocatedEntries := alloc } := by
  suffices hE : ∃ E', Inv s' h' E' ∧ (∀ i < h.indexWrittenEntries, E' i = E i) ∧
      h.indexWrittenEntries ≤ h'.indexWrittenEntries ∧
      ∃ loc alloc, h'.header = { h.header with indexLocation := loc, indexAllocatedEntries := alloc } by
    obtain ⟨E', hi', hE, hw, hh⟩ := hE
    exact ⟨hw, fun i hi_ => by
      rw [hi'.entries.committed i (by omega), hi.entries.committed i hi_, hE i hi_], hh⟩
  induction hs with
  | refl => exact ⟨E, hi, fun _ _ => rfl, le_rfl, _, _, rfl⟩
  | tail _ hst ih =>
    obtain ⟨E₁, hi₁, hE₁, hw₁, loc₁, alloc₁, hh₁⟩ := ih
    obtain ⟨E₂, hi₂, hE₂, hw₂, loc, alloc, hh₂⟩ := hi₁.step_keeps hst
    exact ⟨E₂, hi₂, fun i hi' => (hE₂ i (by omega)).trans (hE₁ i hi'), hw₁.trans hw₂, loc, alloc,
      by rw [hh₂, hh₁]⟩

theorem Inv.step_indexLocation (hi : Inv s h E) (hs : Step s h s' h') :
    h'.header.indexLocation = h.header.indexLocation ∨ s.disk.size ≤ h'.header.indexLocation := by
  cases hs with
  | call c ho =>
    cases c with
    | writeChunk name type N M data =>
      obtain ⟨h₁, id, hc, -, -, -, hsess, -⟩ := hi.writeChunk_session ho
      have hh' : h'.header = (sessionWriteChunk h₁.session (chunkSize N.toNat M.toNat type)).header :=
        (congrArg GsdHandle.header hsess).trans rfl
      have hf₁ : h₁.session.fileSize = h.fileSize := (chunkId_counts hc).2.1
      rcases (sessionWriteChunk_keeps h₁.session (chunkSize N.toNat M.toNat type)).2.2.1 with hh | hh <;>
        rw [hh', hh]
      · exact .inl (congrArg GsdHeader.indexLocation
          (show h₁.session.header = h.header from (chunkId_keeps hc).1))
      · exact .inr (by simp only [relocatedHeader]; rw [hf₁, ← hi.size_eq]; omega)
    | endFrame =>
      obtain ⟨hsess, -⟩ := hi.endFrame_session ho
      have hh : h'.header = h.header := (congrArg GsdHandle.header hsess).trans (sessionEndFrame_header _)
      exact .inl (by rw [hh])
  | reopen flags hflags ho =>
    obtain ⟨k, -, hk2, -, hf⟩ := hi.file
    exact .inl (by rw [(inv_of_gsdOpen hf (hi.payloads.mono hk2) hflags ho).2.1])

theorem Inv.step_size_le (hi : Inv s h E) (hs : Step s h s' h') : s.disk.size ≤ s'.disk.size := by
  cases hs with
  | call c ho =>
    cases c with
    | writeChunk => exact (hi.writeChunk_keepsBody ho).1
    | endFrame => exact (hi.endFrame_tails ho).1.ge
  | reopen => exact le_rfl

theorem Inv.step_view {loc n : Nat} (hi : Inv s h E) (hs : Step s h s' h') (hl : headerSize ≤ loc)
    (hn : loc + n ≤ s.disk.size)
    (hnl : Apart loc n h.header.namelistLocation (namelistEntrySize * h.header.namelistAllocatedEntries))
    (hidx : loc + n ≤ h.header.indexLocation + entrySize * h.indexWrittenEntries ∨
      Apart loc n h.header.indexLocation (entrySize * h.header.indexAllocatedEntries)) :
    ∀ j < n, s'.disk.view loc j = s.disk.view loc j := by
  cases hs with
  | call c ho =>
    cases c with
    | writeChunk => exact fun j hj => (hi.writeChunk_keepsBody ho).view hl (by omega)
    | endFrame =>
      obtain ⟨hsz, hb⟩ := hi.endFrame_tails ho
      have := hi.num_le
      have := hi.names_le_alloc
      intro j hj
      rw [Disk.view_of_lt _ (by omega), Disk.view_of_lt _ (by omega)]
      exact hb _ (by omega) (by unfold Apart entrySize at *; omega)
        (by unfold Apart namelistEntrySize at *; omega)
  | reopen => exact fun _ _ => rfl

/-- Along a run of steps the file does not shrink, and the committed part of the index block a
state's header points to keeps its bytes, wherever the writer moves its block later. -/
theorem Inv.steps_block_kept (hi : Inv s h E) (hs : Steps s h s' h') :
    s.disk.size ≤ s'.disk.size ∧ ∀ j < entrySize * h.indexWrittenEntries,
      s'.disk.view h.header.indexLocation j = s.disk.view h.header.indexLocation j := by
  obtain ⟨k, -, -, -, hf⟩ := hi.file
  have hw := hi.written_le
  have hnum := hi.num_le
  have hin := hf.image.index_le
  have hnl : Apart h.header.indexLocation (entrySize * h.indexWrittenEntries) h.header.namelistLocation
      (namelistEntrySize * h.header.namelistAllocatedEntries) := by
    have := hf.blocks_apart; unfold Apart entrySize at *; omega
  suffices H : ∃ E', Inv s' h' E' ∧ s.disk.size ≤ s'.disk.size ∧
      (∃ loc alloc, h'.header = { h.header with indexLocation := loc, indexAllocatedEntries := alloc }) ∧
      ((h'.header.indexLocation = h.header.indexLocation ∧ h.indexWrittenEntries ≤ h'.indexWrittenEntries) ∨
        h.header.indexLocation + entrySize * h.indexWrittenEntries ≤ h'.header.indexLocation) ∧
      ∀ j < entrySize * h.indexWrittenEntries,
        s'.disk.view h.header.indexLocation j = s.disk.view h.header.indexLocation j by
    obtain ⟨-, -, hsz, -, -, hv⟩ := H
    exact ⟨hsz, hv⟩
  induction hs with
  | refl => exact ⟨E, hi, le_rfl, ⟨_, _, rfl⟩, .inl ⟨rfl, le_rfl⟩, fun _ _ => rfl⟩
  | @tail _ h₁ _ _ _ hst ih =>
    obtain ⟨E₁, hi₁, hsz₁, ⟨loc₁, alloc₁, hh₁⟩, hpos₁, hv₁⟩ := ih
    obtain ⟨E₂, hi₂, -, hw₂, loc₂, alloc₂, hh₂⟩ := hi₁.step_keeps hst
    have hidx : h.header.indexLocation + entrySize * h.indexWrittenEntries ≤
        h₁.header.indexLocation + entrySize * h₁.indexWrittenEntries ∨
        Apart h.header.indexLocation (entrySize * h.indexWrittenEntries) h₁.header.indexLocation
          (entrySize * h₁.header.indexAllocatedEntries) := by
      rcases hpos₁ with ⟨he, hle⟩ | hle
      · left; rw [he]; unfold entrySize; omega
      · exact .inr (.inl hle)
    have hv₂ := hi₁.step_view hst hf.index_after (by unfold entrySize at *; omega)
      (by rw [hh₁]; exact hnl) hidx
    refine ⟨E₂, hi₂, hsz₁.trans (hi₁.step_size_le hst), ⟨loc₂, alloc₂, by rw [hh₂, hh₁]⟩, ?_,
      fun j hj => (hv₂ j hj).trans (hv₁ j hj)⟩
    rcases hi₁.step_indexLocation hst with he | hle
    · rcases hpos₁ with ⟨he₁, hle₁⟩ | hle₁
      · exact .inl ⟨he.trans he₁, hle₁.trans hw₂⟩
      · exact .inr (he ▸ hle₁)
    · exact .inr (by have := hi₁.step_size_le hst; unfold entrySize at *; omega)

end Calls

section Reached

variable {guard : GsdHandle → Prop} {s s' : Sys} {h h' : GsdHandle}

/-- In every state a session reached, a successful `gsd_write_chunk` rewrites no byte of the file
past the header, and the file does not shrink: the payload, and a relocated index block, go
past its old end. -/
theorem Reach.writeChunk_keeps_body (hr : Reach guard s h) {name : CStr} {type : Nat} {N : UInt64}
    {M : UInt32} {flags : UInt8} {data : Nat → UInt8}
    (ho : gsdWriteChunk s h name type N M flags data = ⟨s', h', .ok ()⟩) : s.disk.KeepsBody s'.disk := by
  obtain ⟨E, hi, -⟩ := hr.inv
  exact hi.writeChunk_keepsBody ho

theorem writeA_keeps_body :
    ∃ s h, gsdCreateAndOpen emptySys false nameA nameA 0 .readwrite false = (s, .ok h) ∧
      (writeA.run s h).status = .ok () ∧ s.disk.KeepsBody (writeA.run s h).sys.disk :=
  ⟨_, _, rfl, rfl, Reach.writeChunk_keeps_body
    (@Reach.createAndOpen (fun _ => True) emptySys _ _ false nameA nameA 0 .readwrite false rfl)
    (Outcome.eq_of_status rfl)⟩

/-- In every state a session reached, a successful `gsd_end_frame` writes the index entries and
the namelist entries not yet written, inside the file, and no other byte. -/
theorem Reach.endFrame_writes_tails (hr : Reach guard s h) (ho : gsdEndFrame s h = ⟨s', h', .ok ()⟩) :
    s'.disk.size = s.disk.size ∧ ∀ x < s.disk.size,
      (x < h.header.indexLocation + entrySize * h.indexWrittenEntries ∨
        h.header.indexLocation + entrySize * h.indexNumEntries ≤ x) →
      (x < h.header.namelistLocation + namelistEntrySize * h.namelistWrittenEntries ∨
        h.header.namelistLocation + namelistEntrySize * h.namelistNumEntries ≤ x) →
      s'.disk.byte x = s.disk.byte x := by
  obtain ⟨E, hi, -⟩ := hr.inv
  exact hi.endFrame_tails ho

theorem writeA_endFrame_writes_tails :
    ∃ s h s' h', Reach (fun _ => True) s h ∧ h.indexWrittenEntries < h.indexNumEntries ∧
      gsdEndFrame s h = ⟨s', h', .ok ()⟩ ∧
      s'.disk.size = s.disk.size ∧ ∀ x < s.disk.size,
        (x < h.header.indexLocation + entrySize * h.indexWrittenEntries ∨
          h.header.indexLocation + entrySize * h.indexNumEntries ≤ x) →
        (x < h.header.namelistLocation + namelistEntrySize * h.namelistWrittenEntries ∨
          h.header.namelistLocation + namelistEntrySize * h.namelistNumEntries ≤ x) →
        s'.disk.byte x = s.disk.byte x :=
  have hr := @Reach.runCalls _ _
    (@Reach.createAndOpen (fun _ => True) emptySys _ _ false nameA nameA 0 .readwrite false rfl) [writeA] rfl
  ⟨_, _, _, _, hr, by decide, Outcome.eq_of_status rfl,
    Reach.endFrame_writes_tails hr (Outcome.eq_of_status rfl)⟩

/-- Along every run of calls and reopenings from a state a session reached, no committed entry is
lost or altered: `index_written_entries` never falls, each entry committed at the start stays in
the index block the header points to with the value it had, and the header changes only in the
place and size of that block. -/
theorem Reach.steps_keep_committed (hr : Reach guard s h) (hs : Steps s h s' h') :
    h.indexWrittenEntries ≤ h'.indexWrittenEntries ∧
      (∀ i < h.indexWrittenEntries,
        diskIndex s'.disk h'.header.indexLocation i = diskIndex s.disk h.header.indexLocation i) ∧
      ∃ loc alloc, h'.header = { h.header with indexLocation := loc, indexAllocatedEntries := alloc } := by
  obtain ⟨E, hi, -⟩ := hr.inv
  exact hi.steps_keep hs

theorem writeA_steps_keep_committed :
    ∃ s h s' h', Reach (fun _ => True) s h ∧ 0 < h.indexWrittenEntries ∧ Steps s h s' h' ∧
      h.indexWrittenEntries ≤ h'.indexWrittenEntries ∧
      (∀ i < h.indexWrittenEntries,
        diskIndex s'.disk h'.header.indexLocation i = diskIndex s.disk h.header.indexLocation i) ∧
      ∃ loc alloc, h'.header = { h.header with indexLocation := loc, indexAllocatedEntries := alloc } :=
  have hr := @Reach.runCalls _ _
    (@Reach.createAndOpen (fun _ => True) emptySys _ _ false nameA nameA 0 .readwrite false rfl)
    [writeA, .endFrame] rfl
  ⟨_, _, _, _, hr, by decide, .tail (.refl _ _) (.call writeA (Outcome.eq_of_status rfl)),
    Reach.steps_keep_committed hr (.tail (.refl _ _) (.call writeA (Outcome.eq_of_status rfl)))⟩

/-- A reader's view: in a state a session reached, a successful `gsd_open` of the file, in any
mode, reads the writer's header and counts at least the committed entries and at most the
writer's, exactly the committed ones while the writer is in `append` mode; beside a `readwrite`
writer, a reader outside `append` mode holds the writer's own entries. -/
theorem Reach.gsdOpen_sees (hr : Reach guard s h) {flags : GsdOpenFlag}
    (ho : gsdOpen s.disk flags = .ok h') :
    h'.header = h.header ∧ h.indexWrittenEntries ≤ h'.indexNumEntries ∧
      h'.indexNumEntries ≤ h.indexNumEntries ∧
      (h.openFlags = .append → h'.indexNumEntries = h.indexWrittenEntries) ∧
      (h.openFlags = .readwrite → flags ≠ .append → ∀ i < h'.indexNumEntries, h'.index i = h.index i) := by
  obtain ⟨E, hi, -⟩ := hr.inv
  obtain ⟨k, hk1, hk2, hk3, hf⟩ := hi.file
  rw [gsdOpen_of_block hf (hi.payloads.mono hk2) ho]
  refine ⟨by simp, by simpa using hk1, by simpa using hk2, fun happ => by simpa using hk3 happ,
    fun hrw hfl i hik => ?_⟩
  rw [bootstrappedHandle_indexNumEntries] at hik
  rw [(bootstrappedHandle_of_ne_append (by simpa using hfl) k).1, loadedHandle_index,
    diskIndex_of_block hf.block (hi.payloads.mono hk2).wf (by have := hf.le_alloc; omega), blockEntries,
    if_pos hik, hi.entries.resident hrw i (by omega)]

/-- A reader is isolated from the writer: after a reader outside `append` mode opened the file,
whatever run of calls and reopenings the writer makes, the index block the reader loaded, as the
file then holds it, still has each entry the writer had committed as the reader found it, and
`gsd_read_chunk` of that entry reads from the file as it then is what it read at the open. -/
theorem Reach.reader_isolated (hr : Reach guard s h) {flags : GsdOpenFlag} (hflags : flags ≠ .append)
    {h'' : GsdHandle} (ho : gsdOpen s.disk flags = .ok h'') (hs : Steps s h s' h') {i : Nat}
    (hi' : i < h.indexWrittenEntries) :
    diskIndex s'.disk h''.header.indexLocation i = h''.index i ∧
      gsdReadChunk s'.disk h'' (some (h''.index i)) = gsdReadChunk s.disk h'' (some (h''.index i)) := by
  obtain ⟨E, hi, -⟩ := hr.inv
  obtain ⟨k, -, hk2, -, hf⟩ := hi.file
  obtain rfl := gsdOpen_of_block hf (hi.payloads.mono hk2) ho
  obtain ⟨hsz, hv⟩ := hi.steps_block_kept hs
  obtain ⟨E', hi₂, hk⟩ := hs.kept hi
  obtain ⟨_, -, -, -, hf₂⟩ := hi₂.file
  have hw := hi.written_le
  have hin := hi.payloads.inside i (by omega)
  rw [(bootstrappedHandle_of_ne_append (by simpa using hflags) k).1, loadedHandle_index,
    bootstrappedHandle_header, loadedHandle_header, hi.entries.committed i hi']
  refine ⟨(diskIndex_congr hv hi').trans (hi.entries.committed i hi'), gsdReadChunk_congr (by simpa using hin)
    (by simp) (by simpa using hsz) hf.image.size_le hf₂.image.size_le fun j (hj : j < (E i).size) => ?_⟩
  rw [Disk.view_of_lt _ (by omega), Disk.view_of_lt _ (by omega),
    hk.bytes _ (hi.layout.frozen (show i < h.indexNumEntries by omega) (by omega) (by omega))]

theorem writeA_reader_isolated :
    ∃ s h s' h' h'', Reach (fun _ => True) s h ∧ 0 < h.indexWrittenEntries ∧
      gsdOpen s.disk .readonly = .ok h'' ∧ Steps s h s' h' ∧
      diskIndex s'.disk h''.header.indexLocation 0 = h''.index 0 ∧
      gsdReadChunk s'.disk h'' (some (h''.index 0)) = gsdReadChunk s.disk h'' (some (h''.index 0)) :=
  have hr := @Reach.runCalls _ _
    (@Reach.createAndOpen (fun _ => True) emptySys _ _ false nameA nameA 0 .readwrite false rfl)
    [writeA, .endFrame] rfl
  ⟨_, _, _, _, _, hr, by decide, rfl, .tail (.refl _ _) (.call writeA (Outcome.eq_of_status rfl)),
    @Reach.reader_isolated _ _ _ _ _ hr .readonly (by decide) _ rfl
      (.tail (.refl _ _) (.call writeA (Outcome.eq_of_status rfl))) 0 (by decide)⟩

theorem writeA_gsdOpen_sees :
    ∃ s h h', Reach (fun _ => True) s h ∧ h.indexWrittenEntries < h.indexNumEntries ∧
      gsdOpen s.disk .readonly = .ok h' ∧
      h'.header = h.header ∧ h.indexWrittenEntries ≤ h'.indexNumEntries ∧
      h'.indexNumEntries ≤ h.indexNumEntries ∧
      (h.openFlags = .append → h'.indexNumEntries = h.indexWrittenEntries) ∧
      (h.openFlags = .readwrite → GsdOpenFlag.readonly ≠ .append →
        ∀ i < h'.indexNumEntries, h'.index i = h.index i) :=
  have hr := @Reach.runCalls _ _
    (@Reach.createAndOpen (fun _ => True) emptySys _ _ false nameA nameA 0 .readwrite false rfl) [writeA] rfl
  ⟨_, _, _, hr, by decide, rfl, Reach.gsdOpen_sees hr rfl⟩

end Reached

theorem strncpy_take (l : List UInt8) (n : Nat) : strncpy (l.take n) n = strncpy l n := by
  simp only [strncpy, List.take_take, min_self, List.length_take]
  congr 2
  omega

theorem arrayCStr_strncpy (c : CStr) : (arrayCStr (strncpy c.bytes 63 ++ [0])).bytes = c.bytes.take 63 := by
  have hfit : (c.bytes.take 63).length < namelistEntrySize := by
    simp only [List.length_take, namelistEntrySize]; omega
  have hbytes : strncpy c.bytes 63 ++ [0] = namelistEntryBytes (c.bytes.take 63) := by
    rw [namelistEntryBytes, show namelistEntrySize - 1 = 63 from rfl, strncpy_take]
  rw [hbytes]
  refine cstrAt_eq (fun b hb => c.no_nul b (List.mem_of_mem_take hb)) ?_ fun k _ => ?_
  · simp only [namelistEntryBytes, List.length_append, length_strncpy, List.length_singleton]
    unfold namelistEntrySize at *; omega
  · rw [Nat.zero_add, namelistEntryBytes_getD hfit]

/-- The header as `gsd_initialize_file` wrote it, up to the place and size of the index block. -/
def GsdHeader.Initialized (hdr : GsdHeader) : Prop :=
  ∃ (application schema : CStr) (schemaVersion : Nat),
    hdr = { initialHeader application schema schemaVersion with
      indexLocation := hdr.indexLocation, indexAllocatedEntries := hdr.indexAllocatedEntries }

theorem initialized_handle {s₀ s : Sys} {application schema : CStr} {schemaVersion : Nat}
    {flags : GsdOpenFlag} {h : GsdHandle}
    (hinit : gsdInitializeFile s₀ application schema schemaVersion = (s, .ok ()))
    (ho : gsdReadHeader s.disk flags = .ok h) :
    h.header = initialHeader application schema schemaVersion ∧ h.indexNumEntries = 0 ∧
      h.namelistNumEntries = 0 ∧ h.curFrame = 0 := by
  have hd := gsdInitializeFile_ok hinit
  have hf := fileInv_initialDisk application schema schemaVersion fun _ => default
  rw [← hd] at hf
  rw [gsdOpen_of_block hf ⟨nofun, nofun, nofun, nofun, nofun, fun _ _ _ h => absurd h (Nat.not_lt_zero _)⟩ ho]
  refine ⟨by simp, by simp, ?_, by simp⟩
  rw [bootstrappedHandle_namelistNumEntries, loadedHandle_namelistNumEntries]
  exact namelistCount_eq (Nat.zero_le _) (fun i hi => absurd hi (Nat.not_lt_zero i)) fun _ => by
    rw [hd]; exact initialDisk_view (initialHeader_wf _ _ _) (by simp) _

theorem gsdInitializeFile_succeeds (s : Sys) (application schema : CStr) (schemaVersion : Nat) :
    ∃ s', gsdInitializeFile s application schema schemaVersion = (s', .ok ()) := by
  simp only [gsdInitializeFile, gsdPwriteRetry_of_le _ _ (show headerSize ≠ 0 by decide)
      (show 0 + headerSize ≤ maxFileSize by decide),
    gsdPwriteRetry_of_le _ _ (show entrySize * gsdInitialIndexSize ≠ 0 by decide)
      (show headerSize + entrySize * gsdInitialIndexSize ≤ maxFileSize by decide),
    gsdPwriteRetry_of_le _ _ (show namelistEntrySize * gsdInitialNamelistSize ≠ 0 by decide)
      (show headerSize + entrySize * gsdInitialIndexSize + namelistEntrySize * gsdInitialNamelistSize
        ≤ maxFileSize by decide), ne_eq, not_true_eq_false, if_false]
  exact ⟨_, rfl⟩

theorem gsdOpen_initialDisk (application schema : CStr) (schemaVersion : Nat) (flags : GsdOpenFlag) :
    ∃ h, gsdOpen (initialDisk (initialHeader application schema schemaVersion)) flags = .ok h ∧
      h.openFlags = flags := by
  have hf := fileInv_initialDisk application schema schemaVersion fun _ => default
  have hp : Payloads (initialDisk (initialHeader application schema schemaVersion))
      (initialHeader application schema schemaVersion) (fun _ => default) 0 :=
    ⟨nofun, nofun, nofun, nofun, nofun, fun _ _ _ h => absurd h (Nat.not_lt_zero _)⟩
  rw [gsdOpen, hf.image.gsdReadHeader_eq,
    (readIndexNumEntries_spec (hf.densePrefix hp flags) (hf.image.blockResident _ _ _)).2
      fun m hm => absurd hm (Nat.not_lt_zero m)]
  exact ⟨_, rfl, by simp⟩

/-- On the ideal system, a file `gsd_create` makes opens in every mode and reads back what it was
created with: the application and schema names cut to 63 bytes, the schema version in 32 bits
and the file version 1.0, with no entry, no name and no frame. -/
theorem gsdCreate_opens (s : Sys) (application schema : CStr) (schemaVersion : Nat)
    (flags : GsdOpenFlag) :
    ∃ s' h, gsdCreate s application schema schemaVersion = (s', .ok ()) ∧
      gsdOpen s'.disk flags = .ok h ∧ h.openFlags = flags ∧
      (arrayCStr h.header.application).bytes = application.bytes.take 63 ∧
      (arrayCStr h.header.schema).bytes = schema.bytes.take 63 ∧
      h.header.schemaVersion = schemaVersion % 2 ^ 32 ∧ h.header.gsdVersion = gsdMakeVersion 1 0 ∧
      h.indexNumEntries = 0 ∧ h.namelistNumEntries = 0 ∧ gsdGetNframes h = 0 := by
  obtain ⟨s', hinit⟩ := gsdInitializeFile_succeeds (s.issue (.ftruncate 0)) application schema
    schemaVersion
  obtain ⟨h, ho, hfl⟩ := gsdOpen_initialDisk application schema schemaVersion flags
  rw [← gsdInitializeFile_ok hinit] at ho
  obtain ⟨hh, hn, hnn, hc⟩ := initialized_handle hinit ho
  refine ⟨s', h, hinit, ho, hfl, ?_, ?_, ?_, ?_, hn, hnn, hc⟩ <;> rw [hh]
  · exact arrayCStr_strncpy application
  · exact arrayCStr_strncpy schema
  · rfl
  · rfl

/-- Every handle a session reached has a header `gsd_initialize_file` wrote, up to the place and
size of the index block. -/
theorem Reach.initialized {guard : GsdHandle → Prop} {s : Sys} {h : GsdHandle} (hr : Reach guard s h) :
    h.header.Initialized := by
  induction hr with
  | createAndOpen ho =>
    obtain ⟨-, hinit, hrd⟩ := gsdCreateAndOpen_ok ho
    rw [(initialized_handle hinit hrd).1]; exact ⟨_, _, _, rfl⟩
  | createThenOpen hc _ ho => rw [(initialized_handle hc ho).1]; exact ⟨_, _, _, rfl⟩
  | step hr' _ hs ih =>
    obtain ⟨E, hi, -⟩ := hr'.inv
    obtain ⟨-, -, -, -, loc, alloc, hh⟩ := hi.step_keeps hs
    obtain ⟨a, sc, v, ha⟩ := ih
    exact ⟨a, sc, v, by rw [hh, ha]⟩
  | truncate _ ho _ =>
    obtain ⟨hinit, hrd⟩ := gsdTruncate_ok ho
    rw [(initialized_handle hinit hrd).1]; exact ⟨_, _, _, rfl⟩

/-- In every state a session reached, a successful `gsd_truncate` leaves the new file of the
header's own application, schema and schema version: the header is the old one with the index
block back at its first place and size, and the handle holds no entry and no name, at frame 0. -/
theorem Reach.gsdTruncate_resets {guard : GsdHandle → Prop} {s s' : Sys} {h h' : GsdHandle}
    (hr : Reach guard s h) (ho : gsdTruncate s h = (s', .ok h')) :
    h'.header = { h.header with indexLocation := headerSize, indexAllocatedEntries := gsdInitialIndexSize } ∧
      s'.disk = initialDisk h'.header ∧ h'.indexNumEntries = 0 ∧ h'.namelistNumEntries = 0 ∧
      gsdGetNframes h' = 0 := by
  obtain ⟨a, sc, v, ha⟩ := hr.initialized
  obtain ⟨hinit, hrd⟩ := gsdTruncate_ok ho
  obtain ⟨hh, hn, hnn, hc⟩ := initialized_handle hinit hrd
  have key : initialHeader (arrayCStr h.header.application) (arrayCStr h.header.schema)
      h.header.schemaVersion = initialHeader a sc v := by
    rw [ha]
    simp only [initialHeader, arrayCStr_strncpy, strncpy_take, Nat.mod_mod]
  rw [key] at hh
  refine ⟨by rw [hh, ha]; rfl, by rw [gsdInitializeFile_ok hinit, hh, key], hn, hnn, hc⟩

theorem writeA_gsdTruncate_resets :
    ∃ s h s' h', Reach (fun _ => True) s h ∧ 0 < h.indexNumEntries ∧ gsdTruncate s h = (s', .ok h') ∧
      h'.header = { h.header with indexLocation := headerSize, indexAllocatedEntries := gsdInitialIndexSize } ∧
      s'.disk = initialDisk h'.header ∧ h'.indexNumEntries = 0 ∧ h'.namelistNumEntries = 0 ∧
      gsdGetNframes h' = 0 :=
  have hr := @Reach.runCalls _ _
    (@Reach.createAndOpen (fun _ => True) emptySys _ _ false nameA nameA 0 .readwrite false rfl)
    [writeA, .endFrame] rfl
  ⟨_, _, _, _, hr, by decide, rfl, Reach.gsdTruncate_resets hr rfl⟩

end Gsd
