import Gsd.Reopen

/-!
Appending to one file over several sessions. A program that extends a file across runs opens it
in `GSD_OPEN_READWRITE` mode, writes chunks, ends the frame and closes the file; `gsd_close`
writes nothing, so the next `gsd_open` reads the file the last `gsd_end_frame` left. Each such
session resumes the earlier ones: the reopened handle records every earlier write, with every
entry and every name committed, and its frame counter stands after the last frame that has a
chunk. Frames a session ended without a chunk are therefore forgotten, and the next session
numbers its frames from there. After any number of sessions, one included, a reader finds every
write of every session under these numbers, and lists every written name once.
-/

namespace Gsd

/-- A program that appends to one file over the sessions `ss`: each session runs its calls and
`gsd_end_frame`, and before the next one `gsd_close` and `gsd_open` in `GSD_OPEN_READWRITE` mode
reopen the file. -/
def runSessions : List (List Call) → Sys → GsdHandle → Outcome
  | [], s, h => ⟨s, h, .ok ()⟩
  | cs :: ss, s, h => (runCalls (cs ++ [.endFrame]) s h).andThen fun s h =>
    match ss with
    | [] => ⟨s, h, .ok ()⟩
    | _ :: _ =>
      match gsdOpen s.disk .readwrite with
      | .ok h' => runSessions ss s h'
      | .error e => ⟨s, h, .error e⟩

/-- The writes of the sessions `ss` after the writes `W`: each session numbers its frames from
the frame after the last frame with a write. -/
def sessionRecords : List (List Call) → List WriteRecord → List WriteRecord
  | [], W => W
  | cs :: ss, W => sessionRecords ss (W ++ writeRecords cs (nextFrame W))

theorem frame_le_of_mem_writeRecords {cs : List Call} {f : Nat} {r : WriteRecord}
    (hr : r ∈ writeRecords cs f) : r.frame ≤ f + frameCount cs := by
  induction cs generalizing f with
  | nil => simp [writeRecords] at hr
  | cons c cs ih =>
    cases c with
    | writeChunk name type N M data =>
      rcases List.mem_cons.1 hr with rfl | hr
      · exact Nat.le_add_right _ _
      · exact ih hr
    | endFrame =>
      have := ih hr
      simp only [frameCount]
      omega

theorem nextFrame_append_le {W : List WriteRecord} {f : Nat} (hW : nextFrame W ≤ f) (cs : List Call) :
    nextFrame (W ++ writeRecords cs f) ≤ f + frameCount cs + 1 := by
  cases hl : (writeRecords cs f).getLast? with
  | none => rw [List.getLast?_eq_none_iff.1 hl, List.append_nil]; omega
  | some r =>
    have := frame_le_of_mem_writeRecords (List.mem_of_getLast?_eq_some hl)
    rw [nextFrame, List.getLast?_append, hl]
    show r.frame + 1 ≤ f + frameCount cs + 1
    omega

theorem prefix_sessionRecords (ss : List (List Call)) (W : List WriteRecord) : W <+: sessionRecords ss W := by
  induction ss generalizing W with
  | nil => exact List.prefix_refl W
  | cons cs ss ih => exact (List.prefix_append W _).trans (ih _)

theorem WellNamed.of_prefix {A B : List WriteRecord} (hw : WellNamed B) (hp : A <+: B) : WellNamed A := by
  obtain ⟨t, rfl⟩ := hp
  exact hw.append_left

/-- What a writer leaves once it has ended its last frame: a reachable `readwrite` handle that
records the writes `W`, with every entry and every name written, on a file a reader can open. -/
structure Committed (s : Sys) (h : GsdHandle) (W : List WriteRecord) : Prop where
  reach : Reach (fun _ => True) s h
  recorded : ∃ E, Recorded s h E W
  readable : Readable s h
  index_written : h.indexWrittenEntries = h.indexNumEntries
  names_written : h.namelistWrittenEntries = h.namelistNumEntries

section Sessions

variable {s : Sys} {h : GsdHandle} {W : List WriteRecord}

theorem Committed.of_recorded_nil {E : Nat → GsdIndexEntry} (hreach : Reach (fun _ => True) s h)
    (hr : Recorded s h E []) (hrd : Readable s h) : Committed s h [] := by
  have hnum : h.indexNumEntries = 0 := hr.length.symm
  have hnn : h.namelistNumEntries = 0 := Nat.eq_zero_of_not_pos fun hpos => by
    obtain ⟨r, hr', -⟩ := hr.slotName hpos
    cases hr'
  have := hr.inv.written_le
  have := hr.inv.names_written_le
  exact ⟨hreach, ⟨E, hr⟩, hrd, by omega, by omega⟩

theorem Committed.session (hc : Committed s h W) (hcur : h.curFrame = nextFrame W) {cs : List Call}
    (ho : (runCalls (cs ++ [.endFrame]) s h).status = .ok ())
    (hw : WellNamed (W ++ writeRecords cs (nextFrame W))) (hf : nextFrame W + frameCount cs + 1 < 2 ^ 64) :
    Committed (runCalls (cs ++ [.endFrame]) s h).sys (runCalls (cs ++ [.endFrame]) s h).handle
      (W ++ writeRecords cs (nextFrame W)) := by
  obtain ⟨E, hr⟩ := hc.recorded
  have hW : W ++ writeRecords (cs ++ [.endFrame]) h.curFrame = W ++ writeRecords cs (nextFrame W) := by
    rw [writeRecords_append_endFrame, hcur]
  obtain ⟨E', hr'⟩ := hr.runCalls (cs ++ [.endFrame]) ho (hW ▸ hw)
    (by rw [frameCount_append_endFrame, hcur]; omega)
  obtain ⟨hiw, hnw⟩ := hc.reach.runCalls_endFrame_commits (by simp) ho
  exact ⟨hc.reach.runCalls ho, ⟨E', hW ▸ hr'⟩, hc.readable.runCalls _ hr.inv hr.readwrite ho, hiw, hnw⟩

theorem Committed.reopen (hc : Committed s h W) (hne : ∀ r ∈ W, r.name.bytes ≠ []) {h' : GsdHandle}
    (ho : gsdOpen s.disk .readwrite = .ok h') : Committed s h' W ∧ h'.curFrame = nextFrame W := by
  obtain ⟨E, hr⟩ := hc.recorded
  obtain ⟨hr', hrd', hcur, hiw', hnw'⟩ := hr.resumed hc.readable hc.index_written hc.names_written hne ho
  exact ⟨⟨.step hc.reach trivial (.reopen .readwrite (by decide) ho), ⟨E, hr'⟩, hrd', hiw', hnw'⟩, hcur⟩

/-- Every run of sessions that succeeds, from a handle whose frame counter stands after the last
frame with a write, commits the writes of all of them. -/
theorem Committed.runSessions (hc : Committed s h W) (hcur : h.curFrame = nextFrame W) (ss : List (List Call))
    (ho : (Gsd.runSessions ss s h).status = .ok ()) (hw : WellNamed (sessionRecords ss W))
    (hne : ∀ r ∈ sessionRecords ss W, r.name.bytes ≠ [])
    (hf : nextFrame W + (ss.map fun cs => frameCount cs + 1).sum < 2 ^ 64) :
    Committed (Gsd.runSessions ss s h).sys (Gsd.runSessions ss s h).handle (sessionRecords ss W) := by
  induction ss generalizing s h W with
  | nil => exact hc
  | cons cs ss ih =>
    obtain ⟨hok, heq⟩ := Outcome.andThen_eq_ok ho
    rw [Gsd.runSessions, heq] at ho ⊢
    simp only [List.map_cons, List.sum_cons] at hf
    have hpre := prefix_sessionRecords ss (W ++ writeRecords cs (nextFrame W))
    have hnext := nextFrame_append_le (le_refl (nextFrame W)) cs
    have hc' := hc.session hcur hok (hw.of_prefix hpre) (by omega)
    cases ss with
    | nil => exact hc'
    | cons c ss =>
      dsimp only at ho ⊢
      split at ho
      · rename_i h' hopen
        obtain ⟨hc'', hcur'⟩ := hc'.reopen (fun r hr => hne r (hpre.subset hr)) hopen
        exact ih hc'' hcur' ho hw hne (by omega)
      · simp at ho

end Sessions

theorem committed_of_runSessions {sys s₀ : Sys} {h₀ : GsdHandle} {application schema : CStr}
    {schemaVersion : Nat}
    (hnew : (∃ fileExists exclusiveCreate, gsdCreateAndOpen sys fileExists application schema
        schemaVersion .readwrite exclusiveCreate = (s₀, .ok h₀)) ∨
      gsdCreate sys application schema schemaVersion = (s₀, .ok ()) ∧
        gsdOpen s₀.disk .readwrite = .ok h₀)
    {ss : List (List Call)} (hrun : (runSessions ss s₀ h₀).status = .ok ())
    (hnames : WellNamed (sessionRecords ss [])) (hnonempty : ∀ r ∈ sessionRecords ss [], r.name.bytes ≠ [])
    (hframes : (ss.map fun cs => frameCount cs + 1).sum < 2 ^ 64) :
    Committed (runSessions ss s₀ h₀).sys (runSessions ss s₀ h₀).handle (sessionRecords ss []) := by
  obtain ⟨hreach, hr₀, hcur₀, hrd₀⟩ := started_of_new hnew
  exact (Committed.of_recorded_nil hreach hr₀ hrd₀).runSessions hcur₀ ss hrun hnames hnonempty
    (by simpa [nextFrame] using hframes)

/-- A file written from new over any number of sessions, each a run of well-named calls ended by
`gsd_end_frame` and, before the next session, `gsd_close` and `gsd_open` in `readwrite` mode,
reads back: whenever every session succeeds, no name written is empty, the sessions make fewer
than `2^64` frames in all and every frame written to is below `index_allocated_entries`,
`gsd_open` in `readonly` or `readwrite` mode succeeds, counts frames up to the last one written
to, and on the handle it returns `gsd_find_chunk` of every frame and of every name that is no
proper prefix of a written name finds the last write of the name in that frame, while
`gsd_read_chunk` of the entry of every write whose size does not wrap returns the bytes the write
passed. Each session numbers its frames from the frame after the last frame with a write. -/
theorem runSessions_reads_back {sys s₀ : Sys} {h₀ : GsdHandle} {application schema : CStr}
    {schemaVersion : Nat}
    (hnew : (∃ fileExists exclusiveCreate, gsdCreateAndOpen sys fileExists application schema
        schemaVersion .readwrite exclusiveCreate = (s₀, .ok h₀)) ∨
      gsdCreate sys application schema schemaVersion = (s₀, .ok ()) ∧
        gsdOpen s₀.disk .readwrite = .ok h₀)
    {ss : List (List Call)} (hrun : (runSessions ss s₀ h₀).status = .ok ())
    (hnames : WellNamed (sessionRecords ss [])) (hnonempty : ∀ r ∈ sessionRecords ss [], r.name.bytes ≠ [])
    (hframes : (ss.map fun cs => frameCount cs + 1).sum < 2 ^ 64)
    (halloc : ∀ r ∈ sessionRecords ss [], r.frame < (runSessions ss s₀ h₀).handle.header.indexAllocatedEntries)
    {flags : GsdOpenFlag} (hflags : flags ≠ .append) :
    ∃ h', gsdOpen (runSessions ss s₀ h₀).sys.disk flags = .ok h' ∧
      gsdGetNframes h' = nextFrame (sessionRecords ss []) ∧
      (∀ frame (name : CStr),
        (∀ r ∈ sessionRecords ss [], name.bytes <+: r.name.bytes → r.name.bytes = name.bytes) →
        gsdFindChunk h' frame name = findWrite (sessionRecords ss []) frame name) ∧
      ∀ j (hj : j < (sessionRecords ss []).length),
        (sessionRecords ss [])[j].N.toNat * (sessionRecords ss [])[j].M.toNat *
            gsdSizeofType (sessionRecords ss [])[j].type < 2 ^ 64 →
          gsdReadChunk (runSessions ss s₀ h₀).sys.disk h' (some (h'.index j)) =
            .ok ((List.range ((sessionRecords ss [])[j].N.toNat * (sessionRecords ss [])[j].M.toNat *
              gsdSizeofType (sessionRecords ss [])[j].type)).map (sessionRecords ss [])[j].data) := by
  have hc := committed_of_runSessions hnew hrun hnames hnonempty hframes
  obtain ⟨E, hr⟩ := hc.recorded
  obtain ⟨h', ho, hcur, hfind, hhold⟩ :=
    hr.reopen hc.readable hc.index_written hc.names_written hnonempty halloc hflags
  exact ⟨h', ho, hcur, hfind, fun j hj => (hhold j hj).2.2.2⟩

/-- Two sessions that each write `"a"` in one frame. -/
def twoSessions : List (List Call) := [[writeA], [writeA]]

theorem twoSessions_read_back :
    ∃ s₀ h₀, gsdCreateAndOpen emptySys false nameA nameA 0 .readwrite false = (s₀, .ok h₀) ∧
      (runSessions twoSessions s₀ h₀).status = .ok () ∧ WellNamed (sessionRecords twoSessions []) ∧
      (∀ r ∈ sessionRecords twoSessions [], r.name.bytes ≠ []) ∧
      (twoSessions.map fun cs => frameCount cs + 1).sum < 2 ^ 64 ∧
      (∀ r ∈ sessionRecords twoSessions [],
        r.frame < (runSessions twoSessions s₀ h₀).handle.header.indexAllocatedEntries) ∧
      ∃ h', gsdOpen (runSessions twoSessions s₀ h₀).sys.disk .readonly = .ok h' ∧
        gsdGetNframes h' = nextFrame (sessionRecords twoSessions []) ∧
        (∀ frame (name : CStr),
          (∀ r ∈ sessionRecords twoSessions [], name.bytes <+: r.name.bytes → r.name.bytes = name.bytes) →
          gsdFindChunk h' frame name = findWrite (sessionRecords twoSessions []) frame name) ∧
        ∀ j (hj : j < (sessionRecords twoSessions []).length),
          (sessionRecords twoSessions [])[j].N.toNat * (sessionRecords twoSessions [])[j].M.toNat *
              gsdSizeofType (sessionRecords twoSessions [])[j].type < 2 ^ 64 →
            gsdReadChunk (runSessions twoSessions s₀ h₀).sys.disk h' (some (h'.index j)) =
              .ok ((List.range ((sessionRecords twoSessions [])[j].N.toNat *
                (sessionRecords twoSessions [])[j].M.toNat * gsdSizeofType (sessionRecords twoSessions [])[j].type)).map
                (sessionRecords twoSessions [])[j].data) :=
  have hnames : WellNamed (sessionRecords twoSessions []) := ⟨by decide, by decide, by decide⟩
  ⟨_, _, rfl, rfl, hnames, by decide, by decide, by decide,
    @runSessions_reads_back emptySys _ _ nameA nameA 0 (.inl ⟨false, false, rfl⟩) twoSessions rfl hnames
      (by decide) (by decide) (by decide) .readonly (by decide)⟩

/-- A file written from new over any number of sessions, as in `runSessions_reads_back` and with
fewer than `2^64` frames in all, lists its names: whenever no name written is a proper prefix of
another, `gsd_open` in `readonly` or
`readwrite` mode succeeds, and on the handle it returns the calls of
`gsd_find_matching_chunk_name` with `prev = NULL` and then with the previous result list every
distinct written name that starts with `m` once, and then return NULL. -/
theorem runSessions_lists_names {sys s₀ : Sys} {h₀ : GsdHandle} {application schema : CStr}
    {schemaVersion : Nat}
    (hnew : (∃ fileExists exclusiveCreate, gsdCreateAndOpen sys fileExists application schema
        schemaVersion .readwrite exclusiveCreate = (s₀, .ok h₀)) ∨
      gsdCreate sys application schema schemaVersion = (s₀, .ok ()) ∧
        gsdOpen s₀.disk .readwrite = .ok h₀)
    {ss : List (List Call)} (hrun : (runSessions ss s₀ h₀).status = .ok ())
    (hnames : WellNamed (sessionRecords ss [])) (hnonempty : ∀ r ∈ sessionRecords ss [], r.name.bytes ≠ [])
    (hframes : (ss.map fun cs => frameCount cs + 1).sum < 2 ^ 64)
    (halloc : ∀ r ∈ sessionRecords ss [], r.frame < (runSessions ss s₀ h₀).handle.header.indexAllocatedEntries)
    (hfree : ∀ r ∈ sessionRecords ss [], ∀ r' ∈ sessionRecords ss [],
      r.name.bytes <+: r'.name.bytes → r.name.bytes = r'.name.bytes)
    {flags : GsdOpenFlag} (hflags : flags ≠ .append) (m : CStr) :
    ∃ h', gsdOpen (runSessions ss s₀ h₀).sys.disk flags = .ok h' ∧ ∃ n, matchingCall h' m n = none ∧
      (((List.range n).filterMap (matchingCall h' m)).map h'.nameAt).Perm
        (((sessionRecords ss []).map fun r => r.name.bytes).dedup.filter fun x => m.bytes <+: x) := by
  have hc := committed_of_runSessions hnew hrun hnames hnonempty hframes
  obtain ⟨E, hr⟩ := hc.recorded
  have ho := hr.gsdOpen_eq hc.readable hc.index_written hc.names_written hnonempty halloc flags
  obtain ⟨hcat, hcur⟩ := hr.reopen_catalog hc.readable hc.index_written hc.names_written hnonempty hflags ho
  exact ⟨_, ho, hcat.enumerates (fun j hj => hcur ▸ hr.frame_lt_nextFrame hj) hfree m⟩

theorem twoSessions_list_names :
    ∃ s₀ h₀, gsdCreateAndOpen emptySys false nameA nameA 0 .readwrite false = (s₀, .ok h₀) ∧
      (runSessions twoSessions s₀ h₀).status = .ok () ∧ WellNamed (sessionRecords twoSessions []) ∧
      (∀ r ∈ sessionRecords twoSessions [], r.name.bytes ≠ []) ∧
      (twoSessions.map fun cs => frameCount cs + 1).sum < 2 ^ 64 ∧
      (∀ r ∈ sessionRecords twoSessions [],
        r.frame < (runSessions twoSessions s₀ h₀).handle.header.indexAllocatedEntries) ∧
      (∀ r ∈ sessionRecords twoSessions [], ∀ r' ∈ sessionRecords twoSessions [],
        r.name.bytes <+: r'.name.bytes → r.name.bytes = r'.name.bytes) ∧
      ∃ h', gsdOpen (runSessions twoSessions s₀ h₀).sys.disk .readonly = .ok h' ∧
        ∃ n, matchingCall h' nameA n = none ∧
          (((List.range n).filterMap (matchingCall h' nameA)).map h'.nameAt).Perm
            (((sessionRecords twoSessions []).map fun r => r.name.bytes).dedup.filter
              fun x => nameA.bytes <+: x) :=
  have hnames : WellNamed (sessionRecords twoSessions []) := ⟨by decide, by decide, by decide⟩
  ⟨_, _, rfl, rfl, hnames, by decide, by decide, by decide, by decide,
    @runSessions_lists_names emptySys _ _ nameA nameA 0 (.inl ⟨false, false, rfl⟩) twoSessions rfl hnames
      (by decide) (by decide) (by decide) (by decide) .readonly (by decide) nameA⟩

end Gsd
