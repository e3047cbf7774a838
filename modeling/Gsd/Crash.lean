import Gsd.Footprint

/-!
A crash at any point of a run. The file a crash leaves is the file after some prefix of the
operations the run issued, each applied whole and in order. `gsd_write_chunk` writes the payload
and a relocated block past the end of the file and rewrites the header only after the block is
complete, and `gsd_end_frame` writes only past the committed entries and names; so every prefix
leaves the file of some state the writer passed through, or that file grown past its end. Such a
file still holds what the writer had committed when the run began: a reader whose `gsd_open`
succeeds finds the header up to the place and size of the index block, at least the committed
entries, each with its value, and their payload bytes unchanged. A writer whose reopen succeeds
is back in the writer's invariant, so every later run keeps the layout of the file and what it
commits. The open can fail: `gsd_end_frame` writes new entries before new names, and a
`readwrite` relocation writes staged entries before their names, so a crash in between leaves a
file that no mode opens.
-/

namespace Gsd

/-- Every file a crash can leave between `s` and `s'` satisfies `P`: `s'` is `s` after some
operations, and `P` holds of the file after each prefix of them. -/
def Sys.Passes (P : Disk → Prop) (s s' : Sys) : Prop :=
  ∃ ops, s.Follows s' ops ∧ ∀ k, P (s.disk.applyAll (ops.take k))

/-- `s'` is `s` after at most one operation. -/
def Sys.OneOp (s s' : Sys) : Prop := s' = s ∨ ∃ op, s' = s.issue op

namespace Sys.Passes

variable {P Q : Disk → Prop} {s s₁ s₂ : Sys}

theorem refl (h : P s.disk) : s.Passes P s := ⟨[], Follows.refl s, fun _ => by simpa using h⟩

theorem issue (op : DiskOp) (h₀ : P s.disk) (h₁ : P (s.disk.apply op)) : s.Passes P (s.issue op) :=
  ⟨[op], Follows.issue s op, fun k => by cases k <;> simpa⟩

theorem of_oneOp (h : s.OneOp s₁) (h₀ : P s.disk) (h₁ : P s₁.disk) : s.Passes P s₁ := by
  rcases h with rfl | ⟨op, rfl⟩
  · exact .refl h₀
  · exact .issue op h₀ h₁

theorem trans (h₁ : s.Passes P s₁) (h₂ : s₁.Passes P s₂) : s.Passes P s₂ := by
  obtain ⟨xs, hf₁, hp₁⟩ := h₁
  obtain ⟨ys, hf₂, hp₂⟩ := h₂
  refine ⟨xs ++ ys, hf₁.trans hf₂, fun k => ?_⟩
  rw [List.take_append_eq_append_take, Disk.applyAll_append]
  by_cases hk : k ≤ xs.length
  · rw [Nat.sub_eq_zero_of_le hk, List.take_zero, Disk.applyAll_nil]
    exact hp₁ k
  · rw [List.take_of_length_le (by omega), ← hf₁.2]
    exact hp₂ _

theorem mono (h : s.Passes P s₁) (hPQ : ∀ d, P d → Q d) : s.Passes Q s₁ :=
  h.imp fun _ ⟨hf, hp⟩ => ⟨hf, fun k => hPQ _ (hp k)⟩

theorem last (h : s.Passes P s₁) : P s₁.disk := by
  obtain ⟨ops, hf, hp⟩ := h
  simpa only [List.take_length, ← hf.2] using hp ops.length

theorem crash (h : s.Passes P s₁) {ops : List DiskOp} (hlog : s₁.log = s.log ++ ops) (k : Nat) :
    P (s.disk.applyAll (ops.take k)) := by
  obtain ⟨ops', hf, hp⟩ := h
  rw [← List.append_cancel_left (hf.1.symm.trans hlog)]
  exact hp k

end Sys.Passes

theorem Disk.Extends.trans {d₁ d₂ d₃ : Disk} (h₁ : d₁.Extends d₂) (h₂ : d₂.Extends d₃) :
    d₁.Extends d₃ :=
  ⟨h₁.1.trans h₂.1, fun x hx => (h₂.2 x (by have := h₁.1; omega)).trans (h₁.2 x hx)⟩

/-- `d` is `base` grown past its end, below the size limit and with nothing past its own end. -/
def Disk.Grows (base d : Disk) : Prop := base.Extends d ∧ d.size ≤ maxFileSize ∧ d.Clean

theorem Disk.Grows.write {base d : Disk} {off n : Nat} (buf : Nat → UInt8) (hg : base.Grows d)
    (hoff : d.size ≤ off) (hmax : off + n ≤ maxFileSize) : base.Grows (d.write off n buf) := by
  refine ⟨hg.1.trans (Disk.extends_write_end d n buf hoff), ?_, Disk.clean_write _ _ _ _⟩
  by_cases hn : n = 0
  · subst hn; exact hg.2.1
  · rw [Disk.size_write _ _ _ hn]; have := hg.2.1; omega

theorem gsdPwriteRetry_passes {base : Disk} {s : Sys} {buf : Nat → UInt8} {n off : Nat}
    (hw : (gsdPwriteRetry s buf n off).2 = n) (hoff : s.disk.size ≤ off) (hg : base.Grows s.disk) :
    s.Passes base.Grows (gsdPwriteRetry s buf n off).1 := by
  rw [gsdPwriteRetry_fst hw]
  split_ifs with hn
  · exact .refl hg
  · exact .issue (.pwrite _ _ _) hg (hg.write buf hoff ((gsdPwriteRetry_eq_count hw).resolve_left hn))

section Loops

variable {base : Disk} {oldLoc newLoc oldBytes newBytes : Nat}

theorem copyIndexLoop_passes : ∀ fuel (s : Sys) total s' t,
    copyIndexLoop oldLoc newLoc oldBytes fuel s total = (s', .ok t) →
      s.disk.size ≤ newLoc + total → base.Grows s.disk →
      s.Passes base.Grows s' ∧ s'.disk.size ≤ newLoc + t := by
  intro fuel
  induction fuel with
  | zero =>
    intro s total s' t hl hs hg
    simp only [copyIndexLoop, Prod.mk.injEq, Except.ok.injEq] at hl
    obtain ⟨rfl, rfl⟩ := hl
    exact ⟨.refl hg, hs⟩
  | succ fuel ih =>
    intro s total s' t hl hs hg
    by_cases hlt : total < oldBytes
    swap
    · simp only [copyIndexLoop, if_neg hlt, Prod.mk.injEq, Except.ok.injEq] at hl
      obtain ⟨rfl, rfl⟩ := hl
      exact ⟨.refl hg, hs⟩
    simp only [copyIndexLoop, if_pos hlt, gsdPreadRetry_snd] at hl
    have hn := copyPiece_pos (show 0 < oldBytes - total by omega)
    split_ifs at hl with hr hw
    · simp at hl
    · simp at hl
    obtain ⟨hs₁, hmax⟩ := gsdPwriteRetry_of_checked hn.ne' hw
    rw [hs₁] at hl
    have hg₁ := hg.write (s.disk.view (oldLoc + total)) hs hmax
    obtain ⟨hp, ht⟩ := ih _ _ s' t hl
      (by rw [Sys.disk_issue, Disk.apply_pwrite, Disk.size_write _ _ _ hn.ne']; omega) hg₁
    exact ⟨(Sys.Passes.issue (.pwrite _ _ _) hg hg₁).trans hp, ht⟩

theorem zeroIndexLoop_passes : ∀ fuel (s : Sys) total s' t,
    zeroIndexLoop newLoc newBytes fuel s total = (s', .ok t) →
      s.disk.size ≤ newLoc + total → base.Grows s.disk → s.Passes base.Grows s' := by
  intro fuel
  induction fuel with
  | zero =>
    intro s total s' t hl _ hg
    simp only [zeroIndexLoop, Prod.mk.injEq] at hl
    exact hl.1 ▸ .refl hg
  | succ fuel ih =>
    intro s total s' t hl hs hg
    by_cases hlt : total < newBytes
    swap
    · simp only [zeroIndexLoop, if_neg hlt, Prod.mk.injEq] at hl
      exact hl.1 ▸ .refl hg
    simp only [zeroIndexLoop, if_pos hlt] at hl
    have hn := copyPiece_pos (show 0 < newBytes - total by omega)
    split_ifs at hl with hw
    · simp at hl
    obtain ⟨hs₁, hmax⟩ := gsdPwriteRetry_of_checked hn.ne' hw
    rw [hs₁] at hl
    have hg₁ := hg.write (fun _ => 0) hs hmax
    exact (Sys.Passes.issue (.pwrite _ _ _) hg hg₁).trans (ih _ _ s' t hl
      (by rw [Sys.disk_issue, Disk.apply_pwrite, Disk.size_write _ _ _ hn.ne']; omega) hg₁)

end Loops

/-- From `(s, h)` with ghost entries `E` to `(s', h')` with `E'`: no frozen byte written, the
file no shorter, the committed entries the same and still committed, and the header the same
but for the place and size of the index block. -/
structure Keeps (s : Sys) (h : GsdHandle) (E : Nat → GsdIndexEntry) (s' : Sys) (h' : GsdHandle)
    (E' : Nat → GsdIndexEntry) : Prop where
  kept : Kept s h s' h'
  size_le : s.disk.size ≤ s'.disk.size
  entries : ∀ i < h.indexWrittenEntries, E' i = E i
  written_le : h.indexWrittenEntries ≤ h'.indexWrittenEntries
  header : ∃ loc alloc, h'.header = { h.header with indexLocation := loc, indexAllocatedEntries := alloc }

section Keeps

variable {s s₁ s₂ : Sys} {h h₁ h₂ : GsdHandle} {E E₁ E₂ : Nat → GsdIndexEntry}

theorem Keeps.refl : Keeps s h E s h E :=
  ⟨Kept.of_header rfl, le_rfl, fun _ _ => rfl, le_rfl, _, _, rfl⟩

theorem Keeps.trans (k₁ : Keeps s h E s₁ h₁ E₁) (k₂ : Keeps s₁ h₁ E₁ s₂ h₂ E₂) :
    Keeps s h E s₂ h₂ E₂ := by
  obtain ⟨loc₁, alloc₁, hh₁⟩ := k₁.header
  obtain ⟨loc₂, alloc₂, hh₂⟩ := k₂.header
  exact ⟨k₁.kept.trans k₂.kept, k₁.size_le.trans k₂.size_le,
    fun i hi => (k₂.entries i (by have := k₁.written_le; omega)).trans (k₁.entries i hi),
    k₁.written_le.trans k₂.written_le, loc₂, alloc₂, by rw [hh₂, hh₁]⟩

theorem Inv.keeps_of_step (hi : Inv s h E) (hs : Step s h s₁ h₁) :
    ∃ E₁, Inv s₁ h₁ E₁ ∧ Keeps s h E s₁ h₁ E₁ := by
  obtain ⟨E₁, hi₁, hE, hw, hh⟩ := hi.step_keeps hs
  obtain ⟨-, -, hk, -⟩ := hi.step hs
  exact ⟨E₁, hi₁, hk, hi.step_size_le hs, hE, hw, hh⟩

end Keeps

/-- From `h` to `h'` the names written stay written, with their bytes. -/
structure NamesKept (h h' : GsdHandle) : Prop where
  written_le : h.namelistWrittenEntries ≤ h'.namelistWrittenEntries
  bytes : ∀ j < namelistEntrySize * h.namelistWrittenEntries, h'.namelist j = h.namelist j

section NamesKept

variable {s s' : Sys} {h h₁ h₂ h' : GsdHandle} {E : Nat → GsdIndexEntry}

theorem NamesKept.refl : NamesKept h h := ⟨le_rfl, fun _ _ => rfl⟩

theorem NamesKept.trans (k₁ : NamesKept h h₁) (k₂ : NamesKept h₁ h₂) : NamesKept h h₂ :=
  ⟨k₁.written_le.trans k₂.written_le, fun j hj =>
    (k₂.bytes j (by have := k₁.written_le; unfold namelistEntrySize at *; omega)).trans (k₁.bytes j hj)⟩

theorem Inv.chunkId_namesKept (hi : Inv s h E) {name : CStr} {id : Nat}
    (hc : Gsd.chunkId h name = (h₁, .ok id)) : NamesKept h h₁ := by
  rcases chunkId_ok hc with ⟨-, rfl, -⟩ | ⟨-, ha⟩
  · exact .refl
  obtain ⟨-, -, -, rfl⟩ := gsdAppendName_ok ha
  have := hi.names_written_le
  exact ⟨le_rfl, fun j hj => storeBytes_of_lt _ _ (by unfold namelistEntrySize at *; omega)⟩

theorem Inv.call_namesKept (hi : Inv s h E) {c : Call} (ho : c.run s h = ⟨s', h', .ok ()⟩) :
    NamesKept h h' := by
  cases c with
  | writeChunk name type N M data =>
    obtain ⟨h₁, id, hc, -, -, -, hsess, -⟩ := hi.writeChunk_session ho
    have hn : h'.namelist = h₁.namelist := (congrArg GsdHandle.namelist hsess).trans (by
      dsimp only [sessionWriteChunk]; split_ifs <;> rfl)
    have hw : h'.namelistWrittenEntries = h₁.namelistWrittenEntries :=
      (congrArg GsdHandle.namelistWrittenEntries hsess).trans (sessionWriteChunk_keeps _ _).2.2.2
    have hk := hi.chunkId_namesKept hc
    exact ⟨hw ▸ hk.written_le, fun j hj => hn ▸ hk.bytes j hj⟩
  | endFrame =>
    obtain ⟨hsess, -⟩ := hi.endFrame_session ho
    have hn : h'.namelist = h.namelist ∧ h'.namelistWrittenEntries = h.namelistNumEntries := by
      have := congrArg (fun g => (g.namelist, g.namelistWrittenEntries)) hsess
      simp only [GsdHandle.session, sessionEndFrame] at this
      split_ifs at this with hw
      · simpa only [Prod.mk.injEq, hw] using this
      · simpa only [gsdSortNameIdPairs_namelist, gsdSortNameIdPairs_namelistWrittenEntries,
          Prod.mk.injEq] using this
    exact ⟨hn.2 ▸ hi.names_written_le, fun j _ => by rw [hn.1]⟩

theorem scanLoop_some {P : Nat → Bool} {w : Nat} :
    ∀ fuel i k, scanLoop P w fuel i = some k → i ≤ k ∧ P k = true := by
  intro fuel
  induction fuel with
  | zero => intro i k h; cases h
  | succ fuel ih =>
    intro i k h
    simp only [scanLoop] at h
    split_ifs at h with hi hp
    · cases h; exact ⟨le_rfl, hp⟩
    · have := ih _ _ h; exact ⟨by omega, this.2⟩

theorem le_namelistCount {namelist : Nat → UInt8} {alloc n : Nat} (hn : n ≤ alloc)
    (hne : ∀ i < n, namelist (namelistEntrySize * i) ≠ 0) : n ≤ namelistCount namelist alloc := by
  unfold namelistCount
  cases hs : scanLoop _ alloc alloc 0 with
  | none => exact hn
  | some k =>
    have hk := (scanLoop_some _ _ _ hs).2
    simp only [decide_eq_true_eq] at hk
    exact Nat.le_of_not_lt fun hlt => hne k hlt hk

end NamesKept

/-- A file a crash may leave behind `(s, h)`: the file of a state that keeps what `(s, h)`
committed, possibly grown past its end by writes nothing points to yet. -/
def Durable (s : Sys) (h : GsdHandle) (E : Nat → GsdIndexEntry) (d : Disk) : Prop :=
  ∃ s₁ h₁ E₁, Inv s₁ h₁ E₁ ∧ Keeps s h E s₁ h₁ E₁ ∧ s₁.disk.Grows d

/-- A file a crash may leave behind `h` as far as names go: the file of a state that keeps the
names `h` wrote, possibly grown past its end. -/
def NamesDurable (h : GsdHandle) (d : Disk) : Prop :=
  ∃ s₁ h₁ E₁, Inv s₁ h₁ E₁ ∧ NamesKept h h₁ ∧ s₁.disk.Grows d

section Durable

variable {s s₁ s' : Sys} {h h₁ h' : GsdHandle} {E E₁ : Nat → GsdIndexEntry} {d : Disk}

theorem NamesDurable.trans (hd : NamesDurable h₁ d) (hk : NamesKept h h₁) : NamesDurable h d := by
  obtain ⟨s₂, h₂, E₂, hi₂, hk₂, hg⟩ := hd
  exact ⟨s₂, h₂, E₂, hi₂, hk.trans hk₂, hg⟩

theorem Inv.grows_self (hi : Inv s h E) : s.disk.Grows s.disk := by
  obtain ⟨k, -, -, -, hf⟩ := hi.file
  exact ⟨⟨le_rfl, fun _ _ => rfl⟩, hf.image.size_le, hf.clean⟩

theorem Inv.durable (hi₁ : Inv s₁ h₁ E₁) (hk : Keeps s h E s₁ h₁ E₁) : Durable s h E s₁.disk :=
  ⟨s₁, h₁, E₁, hi₁, hk, hi₁.grows_self⟩

theorem Durable.trans (hd : Durable s₁ h₁ E₁ d) (hk : Keeps s h E s₁ h₁ E₁) : Durable s h E d := by
  obtain ⟨s₂, h₂, E₂, hi₂, hk₂, hg⟩ := hd
  exact ⟨s₂, h₂, E₂, hi₂, hk.trans hk₂, hg⟩

theorem gsdExpandIndex_passes {P : Disk → Prop} (hi : Inv s h E)
    (ho : (gsdExpandIndex s h).status = .ok ()) (hP : ∀ d, s.disk.Grows d → P d)
    (hlast : P (gsdExpandIndex s h).sys.disk) : s.Passes P (gsdExpandIndex s h).sys := by
  have hg := hi.grows_self
  obtain ⟨k, -, -, -, hf⟩ := hi.file
  cases hflags : h.openFlags with
  | readonly => exact absurd hflags hi.writable
  | readwrite =>
    obtain ⟨hle, heq⟩ := gsdExpandIndex_readwrite hflags hf.image.index_pos hi.block_bound ho
    rw [heq] at hlast ⊢
    have hg₁ := hg.write (entriesBuf (zeroExtended h)) le_rfl hle
    exact (Sys.Passes.issue (.pwrite _ _ _) (hP _ hg) (hP _ hg₁)).trans
      (.issue (.pwrite _ _ _) (hP _ hg₁) hlast)
  | append =>
    simp only [gsdExpandIndex, hflags] at ho hlast ⊢
    generalize h.header.indexAllocatedEntries * entrySize % 2 ^ 64 = oldBytes at ho hlast ⊢
    generalize h.header.indexAllocatedEntries * 2 % 2 ^ 64 * entrySize % 2 ^ 64 = newBytes
      at ho hlast ⊢
    rcases hcopy : copyIndexLoop h.header.indexLocation s.disk.size oldBytes oldBytes s 0 with
      ⟨s₁, e | t₁⟩
    · rw [hcopy] at ho; cases ho
    rcases hzero : zeroIndexLoop s.disk.size newBytes newBytes s₁ t₁ with ⟨s₂, e | t₂⟩
    · simp only [hcopy, hzero] at ho; cases ho
    simp only [hcopy, hzero, writeHeader_eq] at hlast ⊢
    obtain ⟨hp₁, hs₁⟩ := copyIndexLoop_passes _ _ _ _ _ hcopy (by omega) hg
    have hp₂ := zeroIndexLoop_passes _ _ _ _ _ hzero hs₁ hp₁.last
    exact ((hp₁.trans hp₂).mono hP).trans (.issue (.pwrite _ _ _) (hP _ hp₂.last) hlast)

theorem Inv.writeChunk_passes (hi : Inv s h E) {name : CStr} {type : Nat} {N : UInt64}
    {M : UInt32} {flags : UInt8} {data : Nat → UInt8}
    (ho : gsdWriteChunk s h name type N M flags data = ⟨s', h', .ok ()⟩)
    (hlast : Durable s h E s'.disk ∧ NamesDurable h s'.disk) :
    s.Passes (fun d => Durable s h E d ∧ NamesDurable h d) s' := by
  obtain ⟨h₁, id, o, -, -, -, -, -, hc, hid, hw, hodef, hok, heq⟩ :=
    gsdWriteChunk_ok (show (gsdWriteChunk s h name type N M flags data).status = .ok () by rw [ho])
  rw [ho] at heq
  have hs' : s' = o.sys := congrArg Outcome.sys heq
  obtain ⟨hi₁, -, hh₁⟩ := hi.chunkId hc hid
  obtain ⟨hi₂, hk₂⟩ := hi₁.payload hw
  have hf₁ : h₁.fileSize = s.disk.size := by rw [hh₁, hi.size_eq]
  -- the file after the payload write keeps what `(s, h)` committed
  have hkeep : Keeps s h E (gsdPwriteRetry s data (chunkSize N.toNat M.toNat type) h₁.fileSize).1
      { h₁ with fileSize := h₁.fileSize + chunkSize N.toNat M.toNat type } E :=
    ⟨(Kept.of_header (by rw [hh₁])).trans hk₂, by rw [hi₂.size_eq, hf₁]; exact Nat.le_add_right _ _,
      fun _ _ => rfl, by rw [hh₁], _, _, by rw [hh₁]⟩
  have hnk := hi.chunkId_namesKept hc
  have hp₁ : s.Passes (fun d => Durable s h E d ∧ NamesDurable h d) _ :=
    (gsdPwriteRetry_passes hw hf₁.ge hi.grows_self).mono
      fun d hd => ⟨⟨s, h, E, hi, Keeps.refl, hd⟩, ⟨s, h, E, hi, NamesKept.refl, hd⟩⟩
  subst hodef hs'
  dsimp only at hok hlast ⊢
  split_ifs at hok hlast ⊢
  · exact hp₁.trans (gsdExpandIndex_passes hi₂ hok
      (fun d hd => ⟨⟨_, _, _, hi₂, hkeep, hd⟩, ⟨_, _, _, hi₂, ⟨hnk.written_le, hnk.bytes⟩, hd⟩⟩)
      hlast)
  · exact hp₁

theorem Inv.endFrame_passes (hi : Inv s h E) (ho : gsdEndFrame s h = ⟨s', h', .ok ()⟩)
    (hlast : Durable s h E s'.disk ∧ NamesDurable h s'.disk) :
    s.Passes (fun d => Durable s h E d ∧ NamesDurable h d) s' := by
  obtain ⟨-, hok, heq⟩ := gsdEndFrame_ok (show (gsdEndFrame s h).status = .ok () by rw [ho])
  rw [ho] at heq
  set h₀ : GsdHandle := { h with curFrame := (h.curFrame + 1) % 2 ^ 64 }
  set o₁ := writeIndexTail s h₀
  have hi₀ : Inv s h₀ E := { hi with cur_lt := Nat.mod_lt _ (by norm_num) }
  obtain ⟨hi₁, hk₁, hh₁⟩ := hi₀.indexTail hok
  obtain ⟨k, -, -, -, hf⟩ := hi.file
  have hb : h.header.indexLocation + entrySize * h.indexNumEntries < 2 ^ 64 := by
    have := hf.image.size_le; have := hf.image.index_le; have := hi.num_le
    unfold maxFileSize entrySize at *; omega
  have hb' : o₁.handle.header.namelistLocation + namelistEntrySize * o₁.handle.namelistNumEntries
      < 2 ^ 64 := by
    rw [hh₁]
    show h.header.namelistLocation + namelistEntrySize * h.namelistNumEntries < 2 ^ 64
    have := hf.image.size_le; have := hf.image.namelist_le; have := hi.names_le_alloc
    unfold maxFileSize namelistEntrySize at *; omega
  -- the two writes of the call, each at most one operation
  have hone₁ : s.OneOp o₁.sys := by
    rw [show o₁ = _ from writeIndexTail_ok hi₀.written_le hb hok]
    split_ifs <;> first | exact .inl rfl | exact .inr ⟨_, rfl⟩
  have hone₂ : o₁.sys.OneOp s' := by
    rw [show s' = (writeNamelistTail _ _).sys from congrArg Outcome.sys heq,
      writeNamelistTail_ok hi₁.names_written_le hb' (by rw [← heq])]
    split_ifs <;> first | exact .inl rfl | exact .inr ⟨_, rfl⟩
  -- the file between them keeps what `(s, h)` committed
  have hkeep : Keeps s h E o₁.sys o₁.handle E :=
    ⟨(show Kept s h s h₀ from Kept.of_header rfl).trans hk₁, by rw [hi₁.size_eq, hh₁, hi.size_eq],
      fun _ _ => rfl, by rw [hh₁]; exact hi.written_le, _, _, by rw [hh₁]⟩
  have hmid : Durable s h E o₁.sys.disk ∧ NamesDurable h o₁.sys.disk :=
    ⟨hi₁.durable hkeep, _, _, _, hi₁, ⟨by rw [hh₁], fun _ _ => by rw [hh₁]⟩, hi₁.grows_self⟩
  exact (Sys.Passes.of_oneOp hone₁ ⟨hi.durable Keeps.refl, s, h, E, hi, .refl, hi.grows_self⟩ hmid).trans
    (.of_oneOp hone₂ hmid hlast)

theorem Inv.step_passes (hi : Inv s h E) (hs : Step s h s' h') :
    s.Passes (fun d => Durable s h E d ∧ NamesDurable h d) s' ∧ ∃ E', Inv s' h' E' ∧ Keeps s h E s' h' E' := by
  obtain ⟨E', hi', hk⟩ := hi.keeps_of_step hs
  refine ⟨?_, E', hi', hk⟩
  cases hs with
  | call c ho =>
    have hlast : Durable s h E s'.disk ∧ NamesDurable h s'.disk :=
      ⟨hi'.durable hk, _, _, _, hi', hi.call_namesKept ho, hi'.grows_self⟩
    cases c with
    | writeChunk => exact hi.writeChunk_passes ho hlast
    | endFrame => exact hi.endFrame_passes ho hlast
  | reopen => exact .refl ⟨hi.durable .refl, _, _, _, hi, .refl, hi.grows_self⟩

/-- Every file a crash leaves during a run keeps what the state it started from committed. -/
theorem Inv.steps_passes (hi : Inv s h E) (hs : Steps s h s' h') :
    s.Passes (Durable s h E) s' ∧ ∃ E', Inv s' h' E' ∧ Keeps s h E s' h' E' := by
  induction hs with
  | refl => exact ⟨.refl (hi.durable .refl), E, hi, .refl⟩
  | tail _ hst ih =>
    obtain ⟨hp, E₁, hi₁, hk₁⟩ := ih
    obtain ⟨hp₂, E₂, hi₂, hk₂⟩ := hi₁.step_passes hst
    exact ⟨hp.trans (hp₂.mono fun _ hd => hd.1.trans hk₁), E₂, hi₂, hk₁.trans hk₂⟩

theorem Inv.frozen_of_payload (hi : Inv s h E) {i x : Nat} (hi' : i < h.indexNumEntries)
    (hx : (E i).location ≤ x) (hx' : x < (E i).location + (E i).size) : Frozen s h x := by
  have := hi.payloads.after_header i hi'
  have := hi.payloads.inside i hi'
  have := hi.payloads.apart_index i hi'
  have := hi.payloads.apart_namelist i hi'
  unfold Frozen Apart at *
  omega

/-- What a reader outside `append` mode finds in a file a crash left behind `(s, h)`: the header
of `h` up to the place and size of the index block, and at least the committed entries, each
with its value and its payload inside the file, holding the bytes `s` held. -/
theorem Durable.gsdOpen (hi : Inv s h E) (hd : Durable s h E d) {flags : GsdOpenFlag}
    (hflags : flags ≠ .append) {h'' : GsdHandle} (ho : gsdOpen d flags = .ok h'') :
    (∃ loc alloc, h''.header = { h.header with indexLocation := loc, indexAllocatedEntries := alloc }) ∧
      h.indexWrittenEntries ≤ h''.indexNumEntries ∧ h''.openFlags = flags ∧ h''.fileSize = d.size ∧
      d.size ≤ maxFileSize ∧ ∀ i < h.indexWrittenEntries, h''.index i = E i ∧
        (E i).location + (E i).size ≤ d.size ∧
        ∀ x, (E i).location ≤ x → x < (E i).location + (E i).size → d.byte x = s.disk.byte x := by
  obtain ⟨s₁, h₁, E₁, hi₁, hk, hg⟩ := hd
  obtain ⟨k, hk1, hk2, -, hf⟩ := hi₁.file
  have hf' := hf.extend hg.1 hg.2.1 hg.2.2
  have hp' := (hi₁.payloads.mono hk2).extend hg.1
  obtain rfl := gsdOpen_of_block hf' hp' ho
  have hw := hk.written_le
  have hnum := hi.written_le
  refine ⟨by simpa using hk.header, by simp only [bootstrappedHandle_indexNumEntries]; omega, by simp,
    by simp, hg.2.1, fun i hi' => ⟨?_, ?_, fun x hx hx' => ?_⟩⟩
  · rw [(bootstrappedHandle_of_ne_append (by simpa using hflags) k).1, loadedHandle_index,
      diskIndex_of_block hf'.block hp'.wf (by have := hf'.le_alloc; omega), blockEntries,
      if_pos (by omega), hk.entries i hi']
  · have := hi.payloads.inside i (by omega)
    have := hk.size_le
    have := hg.1.1
    omega
  · have hfr := hi.frozen_of_payload (by omega) hx hx'
    rw [hg.1.2 x (hk.kept.frozen x hfr).2.1, hk.kept.bytes x hfr]

theorem NamesDurable.gsdOpen (hd : NamesDurable h d)
    (hne : ∀ i < h.namelistWrittenEntries, h.namelist (namelistEntrySize * i) ≠ 0)
    {flags : GsdOpenFlag} {h'' : GsdHandle} (ho : gsdOpen d flags = .ok h'') :
    NamesKept h h'' ∧ h''.namelistWrittenEntries = h''.namelistNumEntries := by
  obtain ⟨s₁, h₁, E₁, hi₁, hk, hg⟩ := hd
  obtain ⟨k, -, hk2, -, hf⟩ := hi₁.file
  obtain rfl := gsdOpen_of_block (hf.extend hg.1 hg.2.1 hg.2.2) ((hi₁.payloads.mono hk2).extend hg.1) ho
  have hw := hk.written_le
  have hview : ∀ j < namelistEntrySize * h.namelistWrittenEntries,
      d.view h₁.header.namelistLocation j = h.namelist j := fun j hj => by
    have hj' : j < namelistEntrySize * h₁.namelistWrittenEntries := by
      unfold namelistEntrySize at *; omega
    rw [hg.1.view (hi₁.namelist_view hj'), hi₁.disk_namelist j hj', hk.bytes j hj]
  refine ⟨⟨?_, fun j hj => by simpa using hview j hj⟩, by simp⟩
  simp only [bootstrappedHandle_namelistWrittenEntries, loadedHandle_namelistWrittenEntries]
  refine le_namelistCount (by have := hi₁.names_written_le; have := hi₁.names_le_alloc; omega)
    fun i hi' => ?_
  rw [hview _ (by unfold namelistEntrySize; omega)]
  exact hne i hi'

theorem Inv.reopen_namesKept (hi : Inv s h₁ E) (hk : NamesKept h h₁)
    (hne : ∀ i < h.namelistWrittenEntries, h.namelist (namelistEntrySize * i) ≠ 0)
    {flags : GsdOpenFlag} (ho : gsdOpen s.disk flags = .ok h') : NamesKept h h' :=
  (NamesDurable.gsdOpen ⟨s, h₁, E, hi, hk, hi.grows_self⟩ hne ho).1

/-- Every file a crash leaves during a run keeps the names the state it started from had
written, when none of them is empty. -/
theorem Inv.steps_namesDurable (hi : Inv s h E)
    (hne : ∀ i < h.namelistWrittenEntries, h.namelist (namelistEntrySize * i) ≠ 0)
    (hs : Steps s h s' h') : s.Passes (NamesDurable h) s' ∧ ∃ E', Inv s' h' E' ∧ NamesKept h h' := by
  induction hs with
  | refl => exact ⟨.refl ⟨_, _, _, hi, .refl, hi.grows_self⟩, E, hi, .refl⟩
  | tail _ hst ih =>
    obtain ⟨hp, E₁, hi₁, hk₁⟩ := ih
    obtain ⟨hp₂, E₂, hi₂, -⟩ := hi₁.step_passes hst
    refine ⟨hp.trans (hp₂.mono fun _ hd => hd.2.trans hk₁), E₂, hi₂, ?_⟩
    cases hst with
    | call c ho => exact hk₁.trans (hi₁.call_namesKept ho)
    | reopen _ _ ho => exact hi₁.reopen_namesKept hk₁ hne ho

end Durable

section Reached

variable {guard : GsdHandle → Prop} {s s' : Sys} {h h' : GsdHandle}

/-- A crash at any point of any run of successful calls and reopenings from a reached state
leaves what that state had committed: whenever a reader's `gsd_open` outside `append` mode
succeeds on the file after any prefix of the run's writes, it finds the header up to the place
and size of the index block, at least the committed entries, each as the file held it, and reads
each committed chunk of nonzero size back with the bytes the file held. -/
theorem Reach.crash_keeps_committed (hr : Reach guard s h) (hs : Steps s h s' h')
    {ops : List DiskOp} (hlog : s'.log = s.log ++ ops) (k : Nat) {flags : GsdOpenFlag}
    (hflags : flags ≠ .append) {h'' : GsdHandle}
    (ho : gsdOpen (s.disk.applyAll (ops.take k)) flags = .ok h'') :
    (∃ loc alloc, h''.header = { h.header with indexLocation := loc, indexAllocatedEntries := alloc }) ∧
      h.indexWrittenEntries ≤ h''.indexNumEntries ∧
      ∀ i < h.indexWrittenEntries, h''.index i = diskIndex s.disk h.header.indexLocation i ∧
        ((h''.index i).size ≠ 0 →
          gsdReadChunk (s.disk.applyAll (ops.take k)) h'' (some (h''.index i)) =
            .ok ((List.range (h''.index i).size).map (s.disk.view (h''.index i).location))) := by
  obtain ⟨E, hi, -⟩ := hr.inv
  obtain ⟨hhdr, hnum, hfl, hsz, hmax, hent⟩ :=
    ((hi.steps_passes hs).1.crash hlog k).gsdOpen hi hflags ho
  refine ⟨hhdr, hnum, fun i hi' => ?_⟩
  obtain ⟨hidx, hin, hbytes⟩ := hent i hi'
  have hnum' := hi.written_le
  rw [hidx, hi.entries.committed i hi']
  refine ⟨rfl, fun hs0 => ?_⟩
  have hloc := hi.payloads.after_header i (by omega)
  rw [gsdReadChunk_of_inside (hfl ▸ hflags) hs0 (by unfold headerSize at hloc; omega) hin hsz.symm hmax]
  refine congrArg _ (List.map_congr_left fun j hj => ?_)
  have hj' : j < (E i).size := List.mem_range.1 hj
  have := hi.payloads.inside i (by omega)
  rw [Disk.view_of_lt _ (by omega), Disk.view_of_lt _ (by omega), hbytes _ (by omega) (by omega)]

theorem writeA_crash_keeps_committed :
    ∃ s h s' h' ops h'', Reach (fun _ => True) s h ∧ 0 < h.indexWrittenEntries ∧ Steps s h s' h' ∧
      s'.log = s.log ++ ops ∧ gsdOpen (s.disk.applyAll (ops.take 1)) .readonly = .ok h'' ∧
      (∃ loc alloc, h''.header = { h.header with indexLocation := loc, indexAllocatedEntries := alloc }) ∧
      h.indexWrittenEntries ≤ h''.indexNumEntries ∧
      ∀ i < h.indexWrittenEntries, h''.index i = diskIndex s.disk h.header.indexLocation i ∧
        ((h''.index i).size ≠ 0 →
          gsdReadChunk (s.disk.applyAll (ops.take 1)) h'' (some (h''.index i)) =
            .ok ((List.range (h''.index i).size).map (s.disk.view (h''.index i).location))) :=
  have hr := @Reach.runCalls _ _
    (@Reach.createAndOpen (fun _ => True) emptySys _ _ false nameA nameA 0 .readwrite false rfl)
    [writeA, .endFrame] rfl
  ⟨_, _, _, _, [.pwrite 4202689 1 fun _ => 7], _, hr, by decide,
    .tail (.refl _ _) (.call writeA (Outcome.eq_of_status rfl)), rfl, rfl,
    @Reach.crash_keeps_committed _ _ _ _ _ hr (.tail (.refl _ _) (.call writeA (Outcome.eq_of_status rfl)))
      [.pwrite 4202689 1 fun _ => 7] rfl 1 .readonly (by decide) _ rfl⟩

/-- A crash at any point of any run of successful calls and reopenings from a reached state
leaves the names that state had written, as long as none of them is empty: a reader that opens
the file after any prefix of the run's writes counts at least those names, and its namelist holds
each of them byte for byte. -/
theorem Reach.crash_keeps_names (hr : Reach guard s h) (hs : Steps s h s' h') {ops : List DiskOp}
    (hlog : s'.log = s.log ++ ops) (k : Nat)
    (hne : ∀ i < h.namelistWrittenEntries, h.namelist (namelistEntrySize * i) ≠ 0)
    {flags : GsdOpenFlag} {h'' : GsdHandle}
    (ho : gsdOpen (s.disk.applyAll (ops.take k)) flags = .ok h'') :
    h.namelistWrittenEntries ≤ h''.namelistNumEntries ∧
      ∀ j < namelistEntrySize * h.namelistWrittenEntries, h''.namelist j = h.namelist j := by
  obtain ⟨E, hi, -⟩ := hr.inv
  obtain ⟨hk, hn⟩ := ((hi.steps_namesDurable hne hs).1.crash hlog k).gsdOpen hne ho
  exact ⟨hn ▸ hk.written_le, hk.bytes⟩

theorem writeA_crash_keeps_names :
    ∃ s h s' h' ops h'', Reach (fun _ => True) s h ∧ 0 < h.namelistWrittenEntries ∧
      Steps s h s' h' ∧ s'.log = s.log ++ ops ∧
      (∀ i < h.namelistWrittenEntries, h.namelist (namelistEntrySize * i) ≠ 0) ∧
      gsdOpen (s.disk.applyAll (ops.take 1)) .readonly = .ok h'' ∧
      h.namelistWrittenEntries ≤ h''.namelistNumEntries ∧
      ∀ j < namelistEntrySize * h.namelistWrittenEntries, h''.namelist j = h.namelist j :=
  have hr := @Reach.runCalls _ _
    (@Reach.createAndOpen (fun _ => True) emptySys _ _ false nameA nameA 0 .readwrite false rfl)
    [writeA, .endFrame] rfl
  ⟨_, _, _, _, [.pwrite 4202689 1 fun _ => 7], _, hr, by decide,
    .tail (.refl _ _) (.call writeA (Outcome.eq_of_status rfl)), rfl, by decide, rfl,
    @Reach.crash_keeps_names _ _ _ _ _ hr (.tail (.refl _ _) (.call writeA (Outcome.eq_of_status rfl)))
      [.pwrite 4202689 1 fun _ => 7] rfl 1 (by decide) .readonly _ rfl⟩

/-- A writer carries on after a crash: at any point of any run of successful calls and
reopenings from a reached state, a reopen of the file left for writing that succeeds gives a
handle whose file has the writer's layout, whose entries begin with those the state had
committed and stay committed, and from which every run of successful calls keeps the layout and
the entries it committed. -/
theorem Reach.crash_recovers (hr : Reach guard s h) (hs : Steps s h s' h') {ops : List DiskOp}
    (hlog : s'.log = s.log ++ ops) (k : Nat) {flags : GsdOpenFlag} (hflags : flags ≠ .readonly)
    {h'' : GsdHandle} (ho : gsdOpen (s.disk.applyAll (ops.take k)) flags = .ok h'') :
    ∃ E, Entries (Sys.mk (s.disk.applyAll (ops.take k)) (s.log ++ ops.take k)) h'' E ∧
      Layout (Sys.mk (s.disk.applyAll (ops.take k)) (s.log ++ ops.take k)) h'' E ∧
      h.indexWrittenEntries ≤ h''.indexWrittenEntries ∧
      (∀ i < h.indexWrittenEntries, E i = diskIndex s.disk h.header.indexLocation i) ∧
      ∀ c h₂, Steps (Sys.mk (s.disk.applyAll (ops.take k)) (s.log ++ ops.take k)) h'' c h₂ →
        ∃ E₂, Entries c h₂ E₂ ∧ Layout c h₂ E₂ ∧ ∀ i < h''.indexWrittenEntries, E₂ i = E i := by
  obtain ⟨E, hi, -⟩ := hr.inv
  obtain ⟨s₁, h₁, E₁, hi₁, hk, hg⟩ := (hi.steps_passes hs).1.crash hlog k
  obtain ⟨k₁, hk1, hk2, -, hf⟩ := hi₁.file
  obtain ⟨hi'', -, -, hw, -⟩ := inv_of_gsdOpen (s := Sys.mk _ (s.log ++ ops.take k))
    (hf.extend hg.1 hg.2.1 hg.2.2) ((hi₁.payloads.mono hk2).extend hg.1) hflags ho
  refine ⟨E₁, hi''.entries, hi''.layout, by have := hk.written_le; omega,
    fun i hi' => (hk.entries i hi').trans (hi.entries.committed i hi').symm, fun c h₂ hs₂ => ?_⟩
  obtain ⟨-, E₂, hi₂, hk₂⟩ := hi''.steps_passes hs₂
  exact ⟨E₂, hi₂.entries, hi₂.layout, hk₂.entries⟩

theorem writeA_crash_recovers :
    ∃ s h s' h' ops h'', Reach (fun _ => True) s h ∧ 0 < h.indexWrittenEntries ∧ Steps s h s' h' ∧
      s'.log = s.log ++ ops ∧ gsdOpen (s.disk.applyAll (ops.take 1)) .readwrite = .ok h'' ∧
      ∃ E, Entries (Sys.mk (s.disk.applyAll (ops.take 1)) (s.log ++ ops.take 1)) h'' E ∧
        Layout (Sys.mk (s.disk.applyAll (ops.take 1)) (s.log ++ ops.take 1)) h'' E ∧
        h.indexWrittenEntries ≤ h''.indexWrittenEntries ∧
        (∀ i < h.indexWrittenEntries, E i = diskIndex s.disk h.header.indexLocation i) ∧
        ∀ c h₂, Steps (Sys.mk (s.disk.applyAll (ops.take 1)) (s.log ++ ops.take 1)) h'' c h₂ →
          ∃ E₂, Entries c h₂ E₂ ∧ Layout c h₂ E₂ ∧ ∀ i < h''.indexWrittenEntries, E₂ i = E i :=
  have hr := @Reach.runCalls _ _
    (@Reach.createAndOpen (fun _ => True) emptySys _ _ false nameA nameA 0 .readwrite false rfl)
    [writeA, .endFrame] rfl
  ⟨_, _, _, _, [.pwrite 4202689 1 fun _ => 7], _, hr, by decide,
    .tail (.refl _ _) (.call writeA (Outcome.eq_of_status rfl)), rfl, rfl,
    @Reach.crash_recovers _ _ _ _ _ hr (.tail (.refl _ _) (.call writeA (Outcome.eq_of_status rfl)))
      [.pwrite 4202689 1 fun _ => 7] rfl 1 .readwrite (by decide) _ rfl⟩

end Reached

end Gsd
