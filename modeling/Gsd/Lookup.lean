import Mathlib.Data.List.GetD
import Gsd.Modes

/-!
What `gsd_find_chunk` finds on the handle of a writer's session. A run of calls from a new file
is recorded as the list of its writes, each with the frame it was made in; the invariant
`Recorded` ties the handle, the file and the ghost entries to that list: entry `j` records
write `j`, its id is the namelist entry holding the write's name, and its payload holds the
write's bytes. When the names are as `gsd_find_name` needs them (short enough for a namelist
entry, written at most once per frame, none a prefix of a different name written before it),
`gsd_find_chunk` returns the last write of the name in the frame, and `gsd_read_chunk` of that
entry returns the bytes the write passed.
-/

namespace Gsd

/-- One `gsd_write_chunk` of a run: the frame it was made in, and its arguments. -/
structure WriteRecord where
  frame : Nat
  name : CStr
  type : Nat
  N : UInt64
  M : UInt32
  data : Nat → UInt8

/-- The writes of the calls `cs`, made from frame `frame` on. -/
def writeRecords : List Call → Nat → List WriteRecord
  | [], _ => []
  | .writeChunk name type N M data :: cs, frame =>
    ⟨frame, name, type, N, M, data⟩ :: writeRecords cs frame
  | .endFrame :: cs, frame => writeRecords cs (frame + 1)

/-- The number of `gsd_end_frame` calls. -/
def frameCount : List Call → Nat
  | [] => 0
  | .writeChunk .. :: cs => frameCount cs
  | .endFrame :: cs => frameCount cs + 1

/-- What `gsd_find_chunk` is for: the position of the last write of `name` in `frame`. -/
def findWrite (W : List WriteRecord) (frame : Nat) (name : CStr) : Option Nat :=
  lastMatch (fun j => ∃ hj : j < W.length, W[j].frame = frame ∧ W[j].name.bytes = name.bytes)
    W.length

/-- The names of a run as `gsd_find_name` needs them: each fits a namelist entry, none is
written twice in one frame (the warning on `gsd_find_name`), and none is a prefix of a
different name written before it (`gsd_find_name` compares only `strlen(name)` bytes). -/
structure WellNamed (W : List WriteRecord) : Prop where
  fits : ∀ r ∈ W, r.name.bytes.length < namelistEntrySize
  oncePerFrame : W.Pairwise fun r r' => r.frame = r'.frame → r.name.bytes ≠ r'.name.bytes
  prefixFree : W.Pairwise fun r r' => r'.name.bytes <+: r.name.bytes → r.name.bytes = r'.name.bytes

theorem WellNamed.snoc {W : List WriteRecord} {r : WriteRecord} (hw : WellNamed (W ++ [r])) :
    r.name.bytes.length < namelistEntrySize ∧ (∀ r' ∈ W, r'.frame = r.frame → r'.name.bytes ≠ r.name.bytes) ∧
      ∀ r' ∈ W, r.name.bytes <+: r'.name.bytes → r'.name.bytes = r.name.bytes := by
  have hmem : r ∈ W ++ [r] := List.mem_append_right _ (List.mem_singleton_self r)
  have hp := List.pairwise_append.1 hw.oncePerFrame
  have hq := List.pairwise_append.1 hw.prefixFree
  exact ⟨hw.fits r hmem, fun r' hr' => hp.2.2 r' hr' r (List.mem_singleton_self r),
    fun r' hr' => hq.2.2 r' hr' r (List.mem_singleton_self r)⟩

theorem cstrAt_eq {buf : Nat → UInt8} {name : List UInt8} (hnz : ∀ b ∈ name, b ≠ 0) :
    ∀ {start fuel}, name.length < fuel → (∀ k ≤ name.length, buf (start + k) = name.getD k 0) →
      cstrAt buf start fuel = name := by
  induction name with
  | nil =>
    intro start fuel hf hb
    obtain ⟨fuel, rfl⟩ : ∃ f, fuel = f + 1 := ⟨fuel - 1, by simp at hf; omega⟩
    have h0 : buf start = 0 := hb 0 (Nat.zero_le _)
    simp only [cstrAt, if_pos h0]
  | cons b bs ih =>
    intro start fuel hf hb
    obtain ⟨fuel, rfl⟩ : ∃ f, fuel = f + 1 := ⟨fuel - 1, by simp at hf; omega⟩
    have h0 : buf start = b := hb 0 (Nat.zero_le _)
    rw [cstrAt, if_neg (h0 ▸ hnz b (List.mem_cons_self b bs)), h0,
      ih (fun c hc => hnz c (List.mem_cons_of_mem b hc)) (by simp at hf; omega) fun k hk => ?_]
    rw [show start + 1 + k = start + (k + 1) by omega]
    exact hb (k + 1) (by simp; omega)

theorem namelistEntryBytes_getD {name : List UInt8} (hfit : name.length < namelistEntrySize) (k : Nat) :
    (namelistEntryBytes name).getD k 0 = name.getD k 0 := by
  simp only [namelistEntryBytes, strncpy, namelistEntrySize] at hfit ⊢
  rw [List.take_of_length_le (by omega), List.append_assoc]
  rcases Nat.lt_or_ge k name.length with hk | hk
  · exact List.getD_append _ _ _ _ hk
  · rw [List.getD_append_right _ _ _ _ hk, List.getD_eq_default _ _ hk, ← List.replicate_succ',
      List.getD_eq_getElem?_getD, List.getElem?_getD_replicate_default_eq]

theorem exists_pair_of_perm {h : GsdHandle} {n a : Nat}
    (hp : (h.names.take n).Perm ((List.range n).map fun i => ⟨i, i⟩)) (ha : a < n) :
    ∃ i < n, h.pair i = ⟨a, a⟩ := by
  obtain ⟨i, hi, he⟩ := List.mem_iff_getElem.1
    (hp.symm.subset (List.mem_map.2 ⟨a, List.mem_range.2 ha, rfl⟩))
  have hin : i < n := by simp only [List.length_take] at hi; omega
  refine ⟨i, hin, ?_⟩
  rw [GsdHandle.pair, List.getD_eq_getElem?_getD, ← List.getElem?_take_of_lt hin,
    List.getElem?_eq_getElem hi, he, Option.getD_some]

/-- On prefix-free committed names, `gsd_get_id` returns the committed slot holding the name,
and `UINT16_MAX` when there is none. -/
theorem gsdGetId_eq_lastMatch {h : GsdHandle} (hs : h.NamesSorted h.namelistWrittenEntries)
    (hwin : (h.names.take h.namelistWrittenEntries).Perm
      ((List.range h.namelistWrittenEntries).map fun i => ⟨i, i⟩))
    (hlen : h.namelistWrittenEntries ≤ h.names.length)
    (hw : h.namelistWrittenEntries ≤ gsdInitialNamelistSize)
    (hdist : ∀ a < h.namelistWrittenEntries, ∀ b < h.namelistWrittenEntries,
      h.nameAt a = h.nameAt b → a = b)
    (name : CStr) (hfree : ∀ a < h.namelistWrittenEntries, name.bytes <+: h.nameAt a →
      h.nameAt a = name.bytes) :
    gsdGetId h name =
      (lastMatch (fun a => h.nameAt a = name.bytes) h.namelistWrittenEntries).getD uint16Max := by
  have hP := lastMatch_spec (P := fun a => h.nameAt a = name.bytes) h.namelistWrittenEntries
  rcases gsdFindName_spec h name hs with ⟨m, hm, hpre, hr⟩ | ⟨hr, hnone⟩
  · obtain ⟨hslot, hid⟩ := pair_of_perm hwin hlen hm
    have hname : h.nameAt (h.pair m).slot = name.bytes := hfree _ hslot hpre
    have hmod : m % 2 ^ 16 = m := Nat.mod_eq_of_lt (by unfold gsdInitialNamelistSize at hw; omega)
    have hL : lastMatch (fun a => h.nameAt a = name.bytes) h.namelistWrittenEntries =
        some (h.pair m).slot := by
      cases hL : lastMatch (fun a => h.nameAt a = name.bytes) h.namelistWrittenEntries with
      | none => exact absurd hname (hP.2.1 hL _ hslot)
      | some a =>
        obtain ⟨ha, hPa, -⟩ := hP.1 a hL
        rw [hdist a ha _ hslot (hPa.trans hname.symm)]
    have hne : m ≠ uint16Max := by unfold uint16Max; unfold gsdInitialNamelistSize at hw; omega
    simp only [gsdGetId, hr, hmod, hL, Option.getD_some, ne_eq, hne, not_false_eq_true, if_true, hid]
  · have hL : lastMatch (fun a => h.nameAt a = name.bytes) h.namelistWrittenEntries = none :=
      hP.2.2 fun a ha hna => by
        obtain ⟨i, hi, hpi⟩ := exists_pair_of_perm hwin ha
        exact hnone i hi (by rw [GsdHandle.nameOf, hpi]; exact hna ▸ List.prefix_refl _)
    simp only [gsdGetId, hr, hL, ne_eq, not_true_eq_false, if_false, Option.getD_none]

/-- Index entry `e` records the write `r`, on the handle `h` over the file `s`: the frame and
the arguments `gsd_write_chunk` checked and stored, the namelist entry holding the name
(committed once the frame is), and the payload. -/
structure Records (s : Sys) (h : GsdHandle) (e : GsdIndexEntry) (r : WriteRecord) : Prop where
  frame : e.frame = r.frame
  type : e.type = r.type
  N : e.N = r.N.toNat
  M : e.M = r.M.toNat
  checked : r.N ≠ 0 ∧ r.M ≠ 0 ∧ gsdSizeofType r.type ≠ 0
  id_lt : e.id < h.namelistNumEntries
  name : h.nameAt e.id = r.name.bytes
  committed : r.frame < h.curFrame → e.id < h.namelistWrittenEntries
  payload : ∀ k < e.size, s.disk.view e.location k = r.data k

/-- A `readwrite` handle after the writes `W` of a run from a new file: entry `j` records write
`j`, every namelist entry holds the name of a write (of the current frame while it is not
committed), the committed window of the name cache holds the committed entries, and no two
namelist entries hold the same name. -/
structure Recorded (s : Sys) (h : GsdHandle) (E : Nat → GsdIndexEntry) (W : List WriteRecord) :
    Prop where
  inv : Inv s h E
  frames : FrameInv h E
  readwrite : h.openFlags = .readwrite
  length : W.length = h.indexNumEntries
  entries : ∀ j (hj : j < W.length), Records s h (E j) W[j]
  slot : ∀ a < h.namelistNumEntries, ∃ j, ∃ hj : j < W.length, (E j).id = a ∧
    (h.namelistWrittenEntries ≤ a → W[j].frame = h.curFrame)
  window : (h.names.take h.namelistWrittenEntries).Perm
    ((List.range h.namelistWrittenEntries).map fun i => ⟨i, i⟩)
  distinct : ∀ a < h.namelistNumEntries, ∀ b < h.namelistNumEntries, h.nameAt a = h.nameAt b → a = b

/-- What `gsd_find_chunk` needs of a handle to find the writes `W`, on a writer's handle as on a
reader's: the index holds the writes' entries in frame order, the entry of each write of a
finished frame names a committed namelist entry holding the write's name, and the committed
window of the name cache is sorted, holds each committed entry once, and holds names of writes,
no two alike. -/
structure Catalog (h : GsdHandle) (W : List WriteRecord) : Prop where
  flags : h.openFlags ≠ .append
  length : W.length = h.indexNumEntries
  frames : FramesSorted h h.indexNumEntries
  frame : ∀ j (hj : j < W.length), (h.index j).frame = W[j].frame
  committed : ∀ j (hj : j < W.length), W[j].frame < h.curFrame →
    (h.index j).id < h.namelistWrittenEntries ∧ h.nameAt (h.index j).id = W[j].name.bytes
  sorted : h.NamesSorted h.namelistWrittenEntries
  window : (h.names.take h.namelistWrittenEntries).Perm
    ((List.range h.namelistWrittenEntries).map fun i => ⟨i, i⟩)
  window_le : h.namelistWrittenEntries ≤ h.names.length
  window_fits : h.namelistWrittenEntries ≤ gsdInitialNamelistSize
  distinct : ∀ a < h.namelistWrittenEntries, ∀ b < h.namelistWrittenEntries, h.nameAt a = h.nameAt b → a = b
  named : ∀ a < h.namelistWrittenEntries, ∃ r ∈ W, h.nameAt a = r.name.bytes

theorem Catalog.getId {h : GsdHandle} {W : List WriteRecord} (hc : Catalog h W) (name : CStr)
    (hname : ∀ r ∈ W, name.bytes <+: r.name.bytes → r.name.bytes = name.bytes) :
    gsdGetId h name =
      (lastMatch (fun a => h.nameAt a = name.bytes) h.namelistWrittenEntries).getD uint16Max :=
  gsdGetId_eq_lastMatch hc.sorted hc.window hc.window_le hc.window_fits hc.distinct name fun a ha hpre => by
    obtain ⟨r, hrW, hra⟩ := hc.named a ha
    rw [hra] at hpre ⊢
    exact hname r hrW hpre

section Facts

variable {s s' : Sys} {h h' : GsdHandle} {E : Nat → GsdIndexEntry} {W : List WriteRecord}

theorem Records.keep {e : GsdIndexEntry} {r : WriteRecord} (hr : Records s h e r)
    (hname : h'.nameAt e.id = h.nameAt e.id) (hnn : h.namelistNumEntries ≤ h'.namelistNumEntries)
    (hcom : r.frame < h'.curFrame → e.id < h'.namelistWrittenEntries)
    (hpay : ∀ k < e.size, s'.disk.view e.location k = s.disk.view e.location k) : Records s' h' e r :=
  { hr with
    id_lt := lt_of_lt_of_le hr.id_lt hnn
    name := hname.trans hr.name
    committed := hcom
    payload := fun k hk => (hpay k hk).trans (hr.payload k hk) }

theorem Inv.view_kept (hi : Inv s h E) (hk : Kept s h s' h') {j : Nat} (hj : j < h.indexNumEntries)
    {k : Nat} (hks : k < (E j).size) : s'.disk.view (E j).location k = s.disk.view (E j).location k := by
  have hx := hi.layout.frozen hj (Nat.le_add_right _ k) (by omega)
  rw [Disk.view_of_lt _ (hk.frozen _ hx).2.1, Disk.view_of_lt _ hx.2.1, hk.bytes _ hx]

theorem Inv.namelistNumEntries_le (hi : Inv s h E) : h.namelistNumEntries ≤ gsdInitialNamelistSize := by
  obtain ⟨k, -, -, -, hf⟩ := hi.file
  exact hf.namelist_alloc ▸ hi.names_le_alloc

theorem Recorded.slotName (hr : Recorded s h E W) {a : Nat} (ha : a < h.namelistNumEntries) :
    ∃ r ∈ W, h.nameAt a = r.name.bytes := by
  obtain ⟨j, hj, rfl, -⟩ := hr.slot a ha
  exact ⟨W[j], List.getElem_mem hj, (hr.entries j hj).name⟩

theorem Recorded.catalog (hr : Recorded s h E W) : Catalog h W := by
  have hres : ∀ j < h.indexNumEntries, h.index j = E j := hr.inv.entries.resident hr.readwrite
  have hi := hr.inv
  have := hi.names_written_le
  have := hi.names_le_size
  have := hi.names_length
  have := hi.namelistNumEntries_le
  refine ⟨by rw [hr.readwrite]; decide, hr.length, fun i j hij hj => ?_, fun j hj => ?_,
    fun j hj hf => ?_, hi.names_sorted, hr.window, by omega, by omega,
    fun a ha b hb => hr.distinct a (by omega) b (by omega), fun a ha => hr.slotName (by omega)⟩
  · rw [hres i (by omega), hres j hj]; exact hr.frames.mono i j hij hj
  · rw [hres j (hr.length ▸ hj)]; exact (hr.entries j hj).frame
  · rw [hres j (hr.length ▸ hj)]; exact ⟨(hr.entries j hj).committed hf, (hr.entries j hj).name⟩

theorem Recorded.getId (hr : Recorded s h E W) (name : CStr)
    (hname : ∀ r ∈ W, name.bytes <+: r.name.bytes → r.name.bytes = name.bytes) :
    gsdGetId h name =
      (lastMatch (fun a => h.nameAt a = name.bytes) h.namelistWrittenEntries).getD uint16Max :=
  hr.catalog.getId name hname

end Facts

theorem recorded_of_initialized {s₀ s : Sys} {application schema : CStr} {schemaVersion : Nat}
    {h : GsdHandle} (hinit : gsdInitializeFile s₀ application schema schemaVersion = (s, .ok ()))
    (ho : gsdReadHeader s.disk .readwrite = .ok h) :
    Recorded s h (fun _ => default) [] ∧ h.curFrame = 0 := by
  obtain ⟨hi, hfr⟩ := inv_of_initialized hinit (by decide) ho
  have hd := gsdInitializeFile_ok hinit
  have hf := fileInv_initialDisk application schema schemaVersion fun _ => default
  rw [← hd] at hf
  have hh := gsdOpen_of_block hf
    ⟨nofun, nofun, nofun, nofun, nofun, fun _ _ _ h => absurd h (Nat.not_lt_zero _)⟩ ho
  have hcnt : namelistCount (s.disk.view (initialHeader application schema schemaVersion).namelistLocation)
      (initialHeader application schema schemaVersion).namelistAllocatedEntries = 0 :=
    namelistCount_eq (Nat.zero_le _) (fun i hi => absurd hi (Nat.not_lt_zero i)) fun _ => by
      rw [hd]; exact initialDisk_view (initialHeader_wf _ _ _) (by simp) _
  have hnn : h.namelistNumEntries = 0 := by
    rw [hh, bootstrappedHandle_namelistNumEntries, loadedHandle_namelistNumEntries, hcnt]
  have hnw : h.namelistWrittenEntries = 0 := by
    rw [hh, bootstrappedHandle_namelistWrittenEntries, loadedHandle_namelistWrittenEntries, hcnt]
  refine ⟨⟨hi, hfr, by rw [hh]; simp, by rw [hh]; simp, fun j hj => absurd hj (Nat.not_lt_zero j),
    fun a ha => absurd ha (by omega), by rw [hnw]; simp, fun a ha => absurd ha (by omega)⟩,
    by rw [hh]; simp⟩

section WriteChunk

variable {s s' : Sys} {h h₁ h' : GsdHandle} {E : Nat → GsdIndexEntry} {W : List WriteRecord}
  {name : CStr} {id : Nat}

theorem Inv.appendName_nameAt (hi : Inv s h E) (ha : gsdAppendName h name = (h₁, .ok id))
    (hfit : name.bytes.length < namelistEntrySize) :
    h₁.nameAt h.namelistNumEntries = name.bytes ∧
      ∀ a < h.namelistNumEntries, h₁.nameAt a = h.nameAt a := by
  obtain ⟨-, hfull, -, rfl⟩ := gsdAppendName_ok ha
  have hlt : h.namelistNumEntries < h.header.namelistAllocatedEntries :=
    lt_of_le_of_ne hi.names_le_alloc hfull
  have hlen : (namelistEntryBytes name.bytes).length = namelistEntrySize := by
    simp [namelistEntryBytes, namelistEntrySize]
  refine ⟨?_, fun a ha' => ?_⟩
  · show cstrAt (storeBytes h.namelist (namelistEntrySize * h.namelistNumEntries)
      (namelistEntryBytes name.bytes)) (namelistEntrySize * h.namelistNumEntries)
      (namelistEntrySize * h.header.namelistAllocatedEntries - namelistEntrySize * h.namelistNumEntries) = _
    unfold namelistEntrySize at hfit hlen ⊢
    refine cstrAt_eq name.no_nul (by omega) fun k hk => ?_
    simp only [storeBytes]
    rw [if_pos ⟨Nat.le_add_right _ _, by omega⟩, Nat.add_sub_cancel_left,
      namelistEntryBytes_getD hfit]
  · symm
    refine GsdHandle.nameAt_congr ?_ (hi.names_terminated a ha') fun u hu => ?_
    · rfl
    · exact (storeBytes_of_lt _ _ (by unfold namelistEntrySize at *; omega)).symm

theorem gsdAppendName_take (ha : gsdAppendName h name = (h₁, .ok id))
    (hw : h.namelistWrittenEntries ≤ h.namelistNumEntries) (hl : h.namelistNumEntries ≤ h.names.length) :
    h₁.names.take h.namelistWrittenEntries = h.names.take h.namelistWrittenEntries := by
  obtain ⟨-, -, -, rfl⟩ := gsdAppendName_ok ha
  dsimp only
  rw [List.set_take, List.set_eq_of_length_le (by simp only [List.length_take]; omega)]
  split
  · exact List.take_append_of_le_length (by omega)
  · rfl

theorem Recorded.chunkId (hr : Recorded s h E W) (hc : Gsd.chunkId h name = (h₁, .ok id))
    (hfit : name.bytes.length < namelistEntrySize)
    (honce : ∀ r ∈ W, r.frame = h.curFrame → r.name.bytes ≠ name.bytes)
    (hfree : ∀ r ∈ W, name.bytes <+: r.name.bytes → r.name.bytes = name.bytes) :
    h₁.nameAt id = name.bytes ∧ (∀ a < h.namelistNumEntries, h₁.nameAt a = h.nameAt a) ∧
      h₁.names.take h.namelistWrittenEntries = h.names.take h.namelistWrittenEntries ∧
      (∀ a < h₁.namelistNumEntries, ∀ b < h₁.namelistNumEntries, h₁.nameAt a = h₁.nameAt b → a = b) ∧
      ((id < h.namelistNumEntries ∧ h₁.namelistNumEntries = h.namelistNumEntries) ∨
        (id = h.namelistNumEntries ∧ h₁.namelistNumEntries = h.namelistNumEntries + 1)) := by
  have hi := hr.inv
  have hw := hi.names_written_le
  have hid := hr.getId name hfree
  rcases chunkId_ok hc with ⟨hg, hh, rfl⟩ | ⟨hg, ha⟩
  · rw [hh, hid]
    rw [hid] at hg
    cases hL : lastMatch (fun a => h.nameAt a = name.bytes) h.namelistWrittenEntries with
    | none => simp only [hL, Option.getD_none, ne_eq, not_true_eq_false] at hg
    | some a =>
      obtain ⟨ha, hna, -⟩ := (lastMatch_spec _).1 a hL
      rw [Option.getD_some]
      exact ⟨hna, fun _ _ => rfl, rfl, hr.distinct, .inl ⟨by omega, rfl⟩⟩
  · obtain ⟨-, rfl, heq⟩ := hi.appendName ha
    obtain ⟨hnew, hold⟩ := hi.appendName_nameAt ha hfit
    have hnn : h₁.namelistNumEntries = h.namelistNumEntries + 1 := by rw [heq]
    have hfresh : ∀ b < h.namelistNumEntries, h.nameAt b ≠ name.bytes := fun b hb hbn => by
      obtain ⟨j, hj, hjb, hcur⟩ := hr.slot b hb
      have hnj := (hr.entries j hj).name
      rw [hjb] at hnj
      by_cases hbw : h.namelistWrittenEntries ≤ b
      · exact honce _ (List.getElem_mem hj) (hcur hbw) (hnj.symm.trans hbn)
      · have hL := hid.symm.trans hg
        cases hL' : lastMatch (fun a => h.nameAt a = name.bytes) h.namelistWrittenEntries with
        | none => exact (lastMatch_spec _).2.1 hL' b (by omega) hbn
        | some a =>
          have ha' := ((lastMatch_spec _).1 a hL').1
          rw [hL', Option.getD_some] at hL
          have := hi.namelistNumEntries_le
          unfold uint16Max at hL; unfold gsdInitialNamelistSize at this; omega
    refine ⟨hnew, hold, gsdAppendName_take ha hw (by have := hi.names_le_size; have := hi.names_length; omega),
      fun a ha' b hb hab => ?_, .inr ⟨rfl, hnn⟩⟩
    rw [hnn] at ha' hb
    rcases Nat.lt_or_ge a h.namelistNumEntries with ha'' | ha'' <;>
      rcases Nat.lt_or_ge b h.namelistNumEntries with hb' | hb'
    · rw [hold a ha'', hold b hb'] at hab
      exact hr.distinct a ha'' b hb' hab
    · rw [hold a ha'', show b = h.namelistNumEntries by omega, hnew] at hab
      exact absurd hab (hfresh a ha'')
    · rw [hold b hb', show a = h.namelistNumEntries by omega, hnew] at hab
      exact absurd hab.symm (hfresh b hb')
    · omega

theorem sessionWriteChunk_names (g : GsdHandle) (size : Nat) :
    (sessionWriteChunk g size).namelist = g.namelist ∧ (sessionWriteChunk g size).names = g.names ∧
      (sessionWriteChunk g size).namelistNumEntries = g.namelistNumEntries ∧
      (sessionWriteChunk g size).namelistWrittenEntries = g.namelistWrittenEntries ∧
      (sessionWriteChunk g size).curFrame = g.curFrame := by
  dsimp only [sessionWriteChunk]
  split_ifs <;> exact ⟨rfl, rfl, rfl, rfl, rfl⟩

theorem Inv.writeChunk_openFlags (hi : Inv s h E) {type : Nat} {N : UInt64} {M : UInt32}
    {flags : UInt8} {data : Nat → UInt8}
    (ho : gsdWriteChunk s h name type N M flags data = ⟨s', h', .ok ()⟩) : h'.openFlags = h.openFlags := by
  obtain ⟨h₁, id, o, -, -, -, -, -, hc, hid, hw, hodef, hok, heq⟩ :=
    gsdWriteChunk_ok (show (gsdWriteChunk s h name type N M flags data).status = .ok () by rw [ho])
  rw [ho] at heq
  obtain ⟨hi₁, -, hh₁⟩ := hi.chunkId hc hid
  obtain ⟨hi₂, -⟩ := hi₁.payload hw
  obtain ⟨-, -, hg⟩ := hi₂.grow hodef hok
  simp only [Outcome.mk.injEq, and_true] at heq
  rw [heq.2, storeEntry_openFlags, hg.flags, hh₁]

theorem Recorded.writeChunk (hr : Recorded s h E W) {type : Nat} {N : UInt64} {M : UInt32}
    {data : Nat → UInt8} (ho : gsdWriteChunk s h name type N M 0 data = ⟨s', h', .ok ()⟩)
    (hfit : name.bytes.length < namelistEntrySize)
    (honce : ∀ r ∈ W, r.frame = h.curFrame → r.name.bytes ≠ name.bytes)
    (hfree : ∀ r ∈ W, name.bytes <+: r.name.bytes → r.name.bytes = name.bytes) :
    ∃ E', Recorded s' h' E' (W ++ [⟨h.curFrame, name, type, N, M, data⟩]) ∧
      h'.curFrame = h.curFrame := by
  obtain ⟨h₁, id, hc, hi', hloc, hsize, hsess, hbytes⟩ := hr.inv.writeChunk_session ho
  obtain ⟨h₁', id', hc', -, hk, hfr⟩ := hr.inv.writeChunk ho
  obtain ⟨rfl, rfl⟩ : h₁ = h₁' ∧ id = id' := by
    rw [hc] at hc'
    simpa only [Prod.mk.injEq, Except.ok.injEq] using hc'
  obtain ⟨h₂, id₂, -, hN, hM, ht, -, -, hc₂, hid, -⟩ :=
    gsdWriteChunk_ok (show (gsdWriteChunk s h name type N M 0 data).status = .ok () by rw [ho])
  obtain ⟨rfl, rfl⟩ : h₁ = h₂ ∧ id = id₂ := by
    rw [hc] at hc₂
    simpa only [Prod.mk.injEq, Except.ok.injEq] using hc₂
  obtain ⟨-, -, hh₁⟩ := hr.inv.chunkId hc hid
  obtain ⟨hname₁, hold₁, htake₁, hdist₁, hnew⟩ := hr.chunkId hc hfit honce hfree
  obtain ⟨hnl, hnames, hnn, hnw, hcur⟩ :=
    sessionWriteChunk_names h₁.session (chunkSize N.toNat M.toNat type)
  obtain ⟨hnum, -, halloc⟩ := sessionWriteChunk_fields h₁.session (chunkSize N.toNat M.toNat type)
  have hnn' : h'.namelistNumEntries = h₁.namelistNumEntries := (congrArg _ hsess).trans hnn
  have hnw' : h'.namelistWrittenEntries = h.namelistWrittenEntries :=
    ((congrArg _ hsess).trans hnw).trans (by rw [hh₁]; rfl)
  have hcur' : h'.curFrame = h.curFrame := ((congrArg _ hsess).trans hcur).trans (by rw [hh₁]; rfl)
  have hnum' : h'.indexNumEntries = h.indexNumEntries + 1 :=
    ((congrArg _ hsess).trans hnum).trans (by rw [hh₁]; rfl)
  have hnl' : h'.namelist = h₁.namelist := (congrArg GsdHandle.namelist hsess).trans hnl
  have halloc' : h'.header.namelistAllocatedEntries = h₁.header.namelistAllocatedEntries :=
    (congrArg (fun g => g.header.namelistAllocatedEntries) hsess).trans halloc
  have hnameAt : ∀ a, h'.nameAt a = h₁.nameAt a := fun a => by
    simp only [GsdHandle.nameAt, hnl', halloc']
  have hlen := hr.length
  have hsize₁ : h.namelistNumEntries ≤ h₁.namelistNumEntries := by omega
  have hE : ∀ j < W.length, setEntry E h.indexNumEntries (chunkEntry h₁ type N M id) j = E j :=
    fun j hj => by simp only [setEntry, if_neg (show j ≠ h.indexNumEntries by omega)]
  have hEnew : setEntry E h.indexNumEntries (chunkEntry h₁ type N M id) W.length =
      chunkEntry h₁ type N M id := by simp only [setEntry, hlen, if_true]
  refine ⟨_, ⟨hi', hfr hr.frames, hr.inv.writeChunk_openFlags ho ▸ hr.readwrite,
    by simp only [List.length_append, List.length_singleton, hlen, hnum'],
    fun j hj => ?_, fun a ha => ?_, ?_, fun a ha b hb hab => ?_⟩, hcur'⟩
  · rcases Nat.lt_or_ge j W.length with hjW | hjW
    · have hrj := hr.entries j hjW
      rw [List.getElem_append_left hjW, hE j hjW]
      refine hrj.keep ((hnameAt _).trans (hold₁ _ hrj.id_lt)) (by omega)
        (by rw [hcur', hnw']; exact hrj.committed) fun k hk' => hr.inv.view_kept hk (by omega) hk'
    · obtain rfl : j = W.length := by simp only [List.length_append, List.length_singleton] at hj; omega
      rw [List.getElem_concat_length _ _ _ rfl, hEnew]
      have hin := hi'.payloads.inside h.indexNumEntries (by omega)
      have hafter := hi'.payloads.after_header h.indexNumEntries (by omega)
      simp only [setEntry, if_true] at hin hafter
      rw [hloc, hsize] at hin
      rw [hloc] at hafter
      have htype : type % 256 = type := Nat.mod_eq_of_lt (by
        have := le_gsdTypeDouble_of_gsdSizeofType_ne_zero ht; unfold gsdTypeDouble at this; omega)
      refine ⟨(congrArg GsdHandle.curFrame hh₁).trans rfl, by simp only [chunkEntry, htype], rfl, rfl,
        ⟨hN, hM, ht⟩, show id < h'.namelistNumEntries by rw [hnn']; omega, (hnameAt _).trans hname₁,
        fun hlt => absurd hlt (by rw [hcur']; exact Nat.lt_irrefl _), fun k hk' => ?_⟩
      rw [hsize] at hk'
      rw [hloc, Disk.view_of_lt _ (by omega), hbytes _ (by omega) (by omega),
        Disk.byte_write_inside _ _ (Nat.le_add_right _ _) (by omega), Nat.add_sub_cancel_left]
  · rw [hnn'] at ha
    rw [hnw', hcur']
    rcases Nat.lt_or_ge a h.namelistNumEntries with ha' | ha'
    · obtain ⟨j, hj, hja, hcj⟩ := hr.slot a ha'
      refine ⟨j, by simp only [List.length_append, List.length_singleton]; omega, ?_, ?_⟩
      · rw [hE j hj, hja]
      · rw [List.getElem_append_left hj]; exact hcj
    · obtain rfl : id = h.namelistNumEntries := (hnew.resolve_left fun h2 => by omega).1
      refine ⟨W.length, by simp, by rw [hEnew]; simp only [chunkEntry]; omega, fun _ => ?_⟩
      rw [List.getElem_concat_length _ _ _ rfl]
  · have hnames' : h'.names = h₁.names := (congrArg GsdHandle.names hsess).trans hnames
    rw [hnw', hnames', htake₁]
    exact hr.window
  · rw [hnameAt, hnameAt] at hab
    exact hdist₁ a (hnn' ▸ ha) b (hnn' ▸ hb) hab

end WriteChunk

theorem writeIndexTail_openFlags (s : Sys) (h : GsdHandle) :
    (writeIndexTail s h).handle.openFlags = h.openFlags := by
  unfold writeIndexTail
  dsimp only
  repeat' split
  all_goals rfl

theorem writeNamelistTail_openFlags (s : Sys) (h : GsdHandle) :
    (writeNamelistTail s h).handle.openFlags = h.openFlags := by
  unfold writeNamelistTail
  dsimp only
  repeat' split
  all_goals rfl

theorem sessionEndFrame_names (g : GsdHandle) :
    (sessionEndFrame g).namelist = g.namelist ∧
      (sessionEndFrame g).namelistNumEntries = g.namelistNumEntries ∧
      (sessionEndFrame g).namelistWrittenEntries = g.namelistNumEntries := by
  dsimp only [sessionEndFrame]
  split_ifs with hn
  exacts [⟨rfl, rfl, hn⟩, ⟨rfl, rfl, rfl⟩]

section EndFrame

variable {s s' : Sys} {h h' : GsdHandle} {E : Nat → GsdIndexEntry} {W : List WriteRecord}

theorem gsdEndFrame_openFlags (ho : gsdEndFrame s h = ⟨s', h', .ok ()⟩) : h'.openFlags = h.openFlags := by
  obtain ⟨-, -, heq⟩ := gsdEndFrame_ok (show (gsdEndFrame s h).status = .ok () by rw [ho])
  rw [show h' = (gsdEndFrame s h).handle by rw [ho], heq, writeNamelistTail_openFlags,
    writeIndexTail_openFlags]

theorem Recorded.endFrame (hr : Recorded s h E W) (ho : gsdEndFrame s h = ⟨s', h', .ok ()⟩)
    (hc : h.curFrame + 1 < 2 ^ 64) : Recorded s' h' E W ∧ h'.curFrame = h.curFrame + 1 := by
  obtain ⟨hi', hk, hn, hw, hcur⟩ := hr.inv.endFrame ho
  obtain ⟨hsess, -⟩ := hr.inv.endFrame_session ho
  obtain ⟨hnl, hnn, hnw⟩ := sessionEndFrame_names h.session
  have hnn' : h'.namelistNumEntries = h.namelistNumEntries := (congrArg GsdHandle.namelistNumEntries hsess).trans hnn
  have hnw' : h'.namelistWrittenEntries = h.namelistNumEntries :=
    (congrArg GsdHandle.namelistWrittenEntries hsess).trans hnw
  have hnl' : h'.namelist = h.namelist := (congrArg GsdHandle.namelist hsess).trans hnl
  have hhdr : h'.header = h.header := (congrArg GsdHandle.header hsess).trans (sessionEndFrame_header _)
  have hnameAt : ∀ a, h'.nameAt a = h.nameAt a := fun a => by
    simp only [GsdHandle.nameAt, hnl', hhdr]
  refine ⟨⟨hi', hr.frames.endFrame hc hn hw hcur, (gsdEndFrame_openFlags ho).trans hr.readwrite,
    hr.length.trans hn.symm, fun j hj => ?_, fun a ha => ?_, ?_, fun a ha b hb hab => ?_⟩,
    hcur.trans (Nat.mod_eq_of_lt hc)⟩
  · have hrj := hr.entries j hj
    exact hrj.keep (hnameAt _) hnn'.ge (fun _ => hnw' ▸ hrj.id_lt)
      fun k hk' => hr.inv.view_kept hk (hr.length ▸ hj) hk'
  · obtain ⟨j, hj, hja, -⟩ := hr.slot a (hnn' ▸ ha)
    exact ⟨j, hj, hja, fun hle => absurd ha (by omega)⟩
  · rw [hnw', ← hnn']
    exact hi'.names_perm
  · rw [hnameAt, hnameAt] at hab
    exact hr.distinct a (hnn' ▸ ha) b (hnn' ▸ hb) hab

end EndFrame

theorem WellNamed.append_left {A B : List WriteRecord} (hw : WellNamed (A ++ B)) : WellNamed A :=
  ⟨fun r hr => hw.fits r (List.mem_append_left B hr), (List.pairwise_append.1 hw.oncePerFrame).1,
    (List.pairwise_append.1 hw.prefixFree).1⟩

/-- A run of successful, well-named calls records its writes, while the frame counter does not
wrap. -/
theorem Recorded.runCalls (cs : List Call) {s : Sys} {h : GsdHandle} {E : Nat → GsdIndexEntry}
    {W : List WriteRecord} (hr : Recorded s h E W) (ho : (Gsd.runCalls cs s h).status = .ok ())
    (hw : WellNamed (W ++ writeRecords cs h.curFrame)) (hf : h.curFrame + frameCount cs < 2 ^ 64) :
    ∃ E', Recorded (Gsd.runCalls cs s h).sys (Gsd.runCalls cs s h).handle E'
      (W ++ writeRecords cs h.curFrame) := by
  induction cs generalizing s h E W with
  | nil => exact ⟨E, by simpa only [writeRecords, List.append_nil] using hr⟩
  | cons c cs ih =>
    obtain ⟨hok, heq⟩ := Outcome.andThen_eq_ok ho
    have hstep := Outcome.eq_of_status hok
    simp only [Gsd.runCalls, heq] at ho ⊢
    cases c with
    | writeChunk name type N M data =>
      have hw' : WellNamed ((W ++ [⟨h.curFrame, name, type, N, M, data⟩]) ++ writeRecords cs h.curFrame) := by
        simpa only [writeRecords, List.append_assoc, List.singleton_append] using hw
      obtain ⟨hfit, honce, hfree⟩ := hw'.append_left.snoc
      obtain ⟨E₁, hr₁, hcur₁⟩ := hr.writeChunk hstep hfit honce hfree
      have := ih hr₁ ho (by rw [hcur₁]; exact hw') (by rw [hcur₁]; exact hf)
      simpa only [writeRecords, hcur₁, List.append_assoc, List.singleton_append] using this
    | endFrame =>
      simp only [frameCount] at hf
      obtain ⟨hr₁, hcur₁⟩ := hr.endFrame hstep (by omega)
      have := ih hr₁ ho (by rw [hcur₁]; exact hw) (by rw [hcur₁]; omega)
      rwa [hcur₁] at this

theorem findWrite_spec (W : List WriteRecord) (frame : Nat) (name : CStr) :
    ((findWrite W frame name).isSome ↔ ∃ r ∈ W, r.frame = frame ∧ r.name.bytes = name.bytes) ∧
      ∀ j, findWrite W frame name = some j →
        ∃ hj : j < W.length, W[j].frame = frame ∧ W[j].name.bytes = name.bytes := by
  have hP := lastMatch_spec (P := fun j => ∃ hj : j < W.length, W[j].frame = frame ∧
    W[j].name.bytes = name.bytes) W.length
  refine ⟨?_, fun j hj => (hP.1 j hj).2.1⟩
  rw [findWrite, ← Option.ne_none_iff_isSome, Ne, hP.2]
  push_neg
  constructor
  · rintro ⟨j, -, hj, hjf, hjn⟩
    exact ⟨W[j], List.getElem_mem hj, hjf, hjn⟩
  · rintro ⟨r, hr, hrf, hrn⟩
    obtain ⟨j, hj, rfl⟩ := List.mem_iff_getElem.1 hr
    exact ⟨j, hj, hj, hrf, hrn⟩

/-- Entry `j` of `h` over the file `d` holds write `j` of `W`: its type, `N` and `M`, and, when
the write's size does not wrap, the bytes `gsd_read_chunk` returns. -/
def HoldsWrite (d : Disk) (h : GsdHandle) (W : List WriteRecord) (j : Nat) (hj : j < W.length) : Prop :=
  (h.index j).type = W[j].type ∧ (h.index j).N = W[j].N.toNat ∧ (h.index j).M = W[j].M.toNat ∧
    (W[j].N.toNat * W[j].M.toNat * gsdSizeofType W[j].type < 2 ^ 64 →
      gsdReadChunk d h (some (h.index j)) =
        .ok ((List.range (W[j].N.toNat * W[j].M.toNat * gsdSizeofType W[j].type)).map W[j].data))

/-- `gsd_find_chunk(frame, name)` on `h` over the file `d` is non-NULL exactly when a write of
`name` was made in `frame`, and the entry it returns holds such a write. -/
def FindsWrite (d : Disk) (h : GsdHandle) (W : List WriteRecord) (frame : Nat) (name : CStr) : Prop :=
  ((gsdFindChunk h frame name).isSome ↔ ∃ r ∈ W, r.frame = frame ∧ r.name.bytes = name.bytes) ∧
    ∀ j, gsdFindChunk h frame name = some j →
      ∃ hj : j < W.length, W[j].frame = frame ∧ W[j].name.bytes = name.bytes ∧ HoldsWrite d h W j hj

section Lookup

variable {s : Sys} {h : GsdHandle} {E : Nat → GsdIndexEntry} {W : List WriteRecord}

theorem findsWrite_of_findWrite {d : Disk} {frame : Nat} {name : CStr}
    (hfind : gsdFindChunk h frame name = findWrite W frame name)
    (hhold : ∀ j (hj : j < W.length), HoldsWrite d h W j hj) : FindsWrite d h W frame name := by
  rw [FindsWrite, hfind]
  refine ⟨(findWrite_spec _ _ _).1, fun j hj => ?_⟩
  obtain ⟨hjW, hjf, hjn⟩ := (findWrite_spec _ _ _).2 j hj
  exact ⟨hjW, hjf, hjn, hhold j hjW⟩

/-- On a catalogued handle, `gsd_find_chunk` of a finished frame and of a name that is no proper
prefix of a written name finds the last write of the name in the frame. -/
theorem Catalog.findChunk (hc : Catalog h W) {frame : Nat} (hf : frame < h.curFrame) (name : CStr)
    (hname : ∀ r ∈ W, name.bytes <+: r.name.bytes → r.name.bytes = name.bytes) :
    gsdFindChunk h frame name = findWrite W frame name := by
  have hid := hc.getId name hname
  have hnn := hc.window_fits
  cases hL : lastMatch (fun a => h.nameAt a = name.bytes) h.namelistWrittenEntries with
  | none =>
    rw [hL, Option.getD_none] at hid
    rw [findWrite, eq_comm, (lastMatch_spec _).2.2 fun j _ ⟨hj, hjf, hjn⟩ =>
      (lastMatch_spec _).2.1 hL _ (hc.committed j hj (hjf ▸ hf)).1
        ((hc.committed j hj (hjf ▸ hf)).2.trans hjn)]
    simp only [gsdFindChunk, gsdGetNframes, if_neg (show ¬ h.curFrame ≤ frame by omega),
      if_neg hc.flags, hid, if_true]
  | some a =>
    obtain ⟨ha, hna, -⟩ := (lastMatch_spec _).1 a hL
    rw [hL, Option.getD_some] at hid
    obtain ⟨r, hrW, -⟩ := hc.named a ha
    have hne : gsdGetId h name ≠ uint16Max := by
      rw [hid]; unfold uint16Max; unfold gsdInitialNamelistSize at hnn; omega
    rw [gsdFindChunk_eq_lastMatch hc.flags (hc.length ▸ List.length_pos_of_mem hrW) hc.frames hf hne,
      findWrite, ← hc.length]
    refine lastMatch_congr fun k hk => ?_
    rw [hid, hc.frame k hk]
    constructor
    · rintro ⟨hkf, hka⟩
      obtain ⟨-, hkn⟩ := hc.committed k hk (hkf ▸ hf)
      exact ⟨hk, hkf, by rw [← hkn, hka, hna]⟩
    · rintro ⟨_, hkf, hkn⟩
      obtain ⟨hki, hkn'⟩ := hc.committed k hk (hkf ▸ hf)
      exact ⟨hkf, hc.distinct _ hki a ha (hkn'.trans (hkn.trans hna.symm))⟩

theorem Recorded.findChunk (hr : Recorded s h E W) {frame : Nat} (hf : frame < h.curFrame) (name : CStr)
    (hname : ∀ r ∈ W, name.bytes <+: r.name.bytes → r.name.bytes = name.bytes) :
    gsdFindChunk h frame name = findWrite W frame name :=
  hr.catalog.findChunk hf name hname

theorem Records.readChunk {e : GsdIndexEntry} {r : WriteRecord} (hrj : Records s h e r) {h' : GsdHandle}
    (hf : h'.openFlags ≠ .append) (hd : s.disk.size = h'.fileSize) (hmax : s.disk.size ≤ maxFileSize)
    (hafter : headerSize ≤ e.location) (hin : e.location + e.size ≤ s.disk.size)
    (hsize : r.N.toNat * r.M.toNat * gsdSizeofType r.type < 2 ^ 64) :
    gsdReadChunk s.disk h' (some e) =
      .ok ((List.range (r.N.toNat * r.M.toNat * gsdSizeofType r.type)).map r.data) := by
  obtain ⟨hN, hM, ht⟩ := hrj.checked
  have hN' : 0 < r.N.toNat := Nat.pos_of_ne_zero fun h0 => hN (@UInt64.toNat.inj _ 0 h0)
  have hM' : 0 < r.M.toNat := Nat.pos_of_ne_zero fun h0 => hM (@UInt32.toNat.inj _ 0 h0)
  have hsz : e.size = r.N.toNat * r.M.toNat * gsdSizeofType r.type := by
    have hle : r.N.toNat * r.M.toNat ≤ r.N.toNat * r.M.toNat * gsdSizeofType r.type :=
      Nat.le_mul_of_pos_right _ (Nat.pos_of_ne_zero ht)
    have h1 : r.N.toNat * r.M.toNat % 2 ^ 64 = r.N.toNat * r.M.toNat := Nat.mod_eq_of_lt (by omega)
    rw [GsdIndexEntry.size, chunkSize, hrj.N, hrj.M, hrj.type, h1, Nat.mod_eq_of_lt hsize]
  have hpos : 0 < e.size := by
    rw [hsz]; exact Nat.mul_pos (Nat.mul_pos hN' hM') (Nat.pos_of_ne_zero ht)
  rw [gsdReadChunk_of_inside hf (show e.size ≠ 0 by omega) (by unfold headerSize at hafter; omega)
    hin hd hmax, show chunkSize e.N e.M e.type = e.size from rfl, hsz]
  exact congrArg _ (List.map_congr_left fun k hk => hrj.payload k (hsz ▸ List.mem_range.1 hk))

theorem Recorded.holdsWrite (hr : Recorded s h E W) {j : Nat} (hj : j < W.length) : HoldsWrite s.disk h W j hj := by
  have hjn : j < h.indexNumEntries := hr.length ▸ hj
  obtain ⟨k, -, -, -, hf⟩ := hr.inv.file
  have hres := hr.inv.entries.resident hr.readwrite j hjn
  have hrj := hr.entries j hj
  refine ⟨hres ▸ hrj.type, hres ▸ hrj.N, hres ▸ hrj.M, fun hsize => ?_⟩
  rw [hres]
  exact hrj.readChunk (by rw [hr.readwrite]; decide) hr.inv.size_eq hf.image.size_le
    (hr.inv.payloads.after_header j hjn) (hr.inv.payloads.inside j hjn) hsize

theorem Recorded.findsWrite (hr : Recorded s h E W) {frame : Nat} (hf : frame < h.curFrame) (name : CStr)
    (hname : ∀ r ∈ W, name.bytes <+: r.name.bytes → r.name.bytes = name.bytes) :
    FindsWrite s.disk h W frame name :=
  findsWrite_of_findWrite (hr.findChunk hf name hname) fun _ => hr.holdsWrite

end Lookup

end Gsd
