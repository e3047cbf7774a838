import Gsd.Write

/-!
Reading: `gsd_get_nframes`, `gsd_find_chunk` and `gsd_read_chunk`. `gsd_find_chunk` maps the
name to its id with `gsd_get_id`, bisects the index for the last entry whose frame is at most
the requested one, and scans back over the entries of that frame for the id; the result is the
slot of the entry the returned pointer points to.
-/

namespace Gsd

def gsdGetNframes (h : GsdHandle) : Nat := h.curFrame

/-- The do-while bisection of `gsd_find_chunk` on `[L, R)`; the result is `L`. -/
def findChunkLoop (h : GsdHandle) (frame : Nat) : Nat → Nat → Nat → Nat
  | 0, L, _ => L
  | fuel + 1, L, R =>
    let m := (L + R) / 2
    if frame < (h.index m).frame then (if m - L > 1 then findChunkLoop h frame fuel L m else L)
    else (if R - m > 1 then findChunkLoop h frame fuel m R else m)

/-- The loop `for (cur_index = L; cur_index >= 0 && index[cur_index].frame == frame; cur_index--)`
looking for the id. -/
def scanBack (h : GsdHandle) (frame id : Nat) : Nat → Option Nat
  | 0 => if (h.index 0).frame = frame ∧ (h.index 0).id = id then some 0 else none
  | i + 1 =>
    if (h.index (i + 1)).frame = frame then
      (if (h.index (i + 1)).id = id then some (i + 1) else scanBack h frame id i)
    else none

def gsdFindChunk (h : GsdHandle) (frame : Nat) (name : CStr) : Option Nat :=
  if gsdGetNframes h ≤ frame then none
  else if h.openFlags = .append then none
  else
    let matchId := gsdGetId h name
    if matchId = uint16Max then none
    else scanBack h frame matchId (findChunkLoop h frame h.indexNumEntries 0 h.indexNumEntries)

/-- What a lookup is for: the greatest `j < n` with `P j`, `none` when there is none. -/
def lastMatch (P : Nat → Prop) [DecidablePred P] : Nat → Option Nat
  | 0 => none
  | n + 1 => if P n then some n else lastMatch P n

section LastMatch

variable {P : Nat → Prop} [DecidablePred P]

theorem lastMatch_eq_none {n : Nat} (h : ∀ k < n, ¬ P k) : lastMatch P n = none := by
  induction n with
  | zero => rfl
  | succ n ih => rw [lastMatch, if_neg (h n (by omega)), ih fun k hk => h k (by omega)]

theorem lastMatch_of_none_above {r : Nat} : ∀ {n}, r ≤ n → (∀ j, r ≤ j → j < n → ¬ P j) →
    lastMatch P n = lastMatch P r
  | 0, hr, _ => by rw [Nat.le_zero.1 hr]
  | n + 1, hr, hnone => by
    rcases Nat.lt_or_eq_of_le hr with hr | rfl
    · rw [lastMatch, if_neg (hnone n (by omega) (by omega))]
      exact lastMatch_of_none_above (by omega) fun j hj hjn => hnone j hj (by omega)
    · rfl

theorem lastMatch_spec (n : Nat) :
    (∀ j, lastMatch P n = some j → j < n ∧ P j ∧ ∀ k, j < k → k < n → ¬ P k) ∧
      (lastMatch P n = none ↔ ∀ k < n, ¬ P k) := by
  induction n with
  | zero => exact ⟨fun _ h => (nomatch h), by simp [lastMatch]⟩
  | succ n ih =>
    by_cases hn : P n
    · simp only [lastMatch, if_pos hn, Option.some.injEq]
      exact ⟨fun j hj => ⟨by omega, hj ▸ hn, fun k hk hkn => absurd hkn (by omega)⟩,
        fun h => absurd h (Option.some_ne_none n), fun h => absurd hn (h n (by omega))⟩
    · rw [lastMatch, if_neg hn]
      refine ⟨fun j hj => ?_, ih.2.trans ⟨fun h k hk => ?_, fun h k hk => h k (by omega)⟩⟩
      · obtain ⟨hjn, hPj, habove⟩ := ih.1 j hj
        exact ⟨by omega, hPj, fun k hjk hkn => if hkn' : k < n then habove k hjk hkn' else by
          rwa [show k = n by omega]⟩
      · rcases Nat.lt_or_eq_of_le (Nat.le_of_lt_succ hk) with hk | rfl
        exacts [h k hk, hn]

theorem lastMatch_congr {Q : Nat → Prop} [DecidablePred Q] :
    ∀ {n}, (∀ k < n, P k ↔ Q k) → lastMatch P n = lastMatch Q n
  | 0, _ => rfl
  | n + 1, h => by
    have ih : lastMatch P n = lastMatch Q n := lastMatch_congr fun k (hk : k < n) => h k (by omega)
    simp only [lastMatch, h n (by omega), ih]

end LastMatch

/-- `index[0, n)` has non-decreasing frames, as the writer appends them. -/
def FramesSorted (h : GsdHandle) (n : Nat) : Prop :=
  ∀ i j, i ≤ j → j < n → (h.index i).frame ≤ (h.index j).frame

/-- The window of the bisection of `gsd_find_chunk` over `index[0, n)`: `L` is at or below the
requested frame (or is 0), and every entry from `R` on is past it. -/
structure FindInv (h : GsdHandle) (frame n L R : Nat) : Prop where
  lt : L < R
  le : R ≤ n
  left : (h.index L).frame ≤ frame ∨ L = 0
  right : ∀ j, R ≤ j → j < n → frame < (h.index j).frame

theorem findChunkLoop_spec {h : GsdHandle} {frame n : Nat} (hs : FramesSorted h n) :
    ∀ fuel L R, FindInv h frame n L R → R - L ≤ fuel →
      FindInv h frame n (findChunkLoop h frame fuel L R) (findChunkLoop h frame fuel L R + 1) := by
  intro fuel
  induction fuel with
  | zero => intro L R hi hf; have := hi.lt; omega
  | succ fuel ih =>
    intro L R hi hf
    have hm : L ≤ (L + R) / 2 ∧ (L + R) / 2 < R := by have := hi.lt; omega
    simp only [findChunkLoop]
    by_cases hlt : frame < (h.index ((L + R) / 2)).frame
    · have hright : ∀ j, (L + R) / 2 ≤ j → j < n → frame < (h.index j).frame :=
        fun j hj hjn => lt_of_lt_of_le hlt (hs _ j hj hjn)
      rw [if_pos hlt]
      split_ifs with hgap
      · exact ih L _ ⟨by omega, by have := hi.le; omega, hi.left, hright⟩ (by omega)
      · exact ⟨by omega, by have := hi.le; omega, hi.left, fun j hj hjn => hright j (by omega) hjn⟩
    · rw [if_neg hlt]
      split_ifs with hgap
      · exact ih _ R ⟨by omega, hi.le, .inl (by omega), hi.right⟩ (by omega)
      · exact ⟨by omega, by have := hi.le; omega, .inl (by omega), fun j hj hjn => hi.right j (by omega) hjn⟩

theorem scanBack_eq_lastMatch {h : GsdHandle} {frame id : Nat} : ∀ {i},
    (∀ k ≤ i, (h.index k).frame = frame → ∀ k', k ≤ k' → k' ≤ i → (h.index k').frame = frame) →
      scanBack h frame id i =
        lastMatch (fun j => (h.index j).frame = frame ∧ (h.index j).id = id) (i + 1)
  | 0, _ => rfl
  | i + 1, hblock => by
    rw [scanBack, lastMatch]
    by_cases hf : (h.index (i + 1)).frame = frame
    · rw [if_pos hf, scanBack_eq_lastMatch fun k hk hk' k' hkk' hk'i => hblock k (by omega) hk' k' hkk' (by omega)]
      by_cases hid : (h.index (i + 1)).id = id
      · rw [if_pos hid, if_pos ⟨hf, hid⟩]
      · rw [if_neg hid, if_neg fun hP => hid hP.2]
    · rw [if_neg hf, if_neg fun hP => hf hP.1, lastMatch_eq_none]
      exact fun k hk hP => hf (hblock k (by omega) hP.1 (i + 1) (by omega) le_rfl)

/-- On a non-empty index with non-decreasing frames, `gsd_find_chunk` of a frame below
`gsd_get_nframes` and a known name, in a mode that keeps the index, returns the last entry of
that frame with the name's id. -/
theorem gsdFindChunk_eq_lastMatch {h : GsdHandle} {frame : Nat} {name : CStr}
    (hflags : h.openFlags ≠ .append) (hn : 0 < h.indexNumEntries) (hs : FramesSorted h h.indexNumEntries)
    (hf : frame < gsdGetNframes h) (hid : gsdGetId h name ≠ uint16Max) :
    gsdFindChunk h frame name =
      lastMatch (fun j => (h.index j).frame = frame ∧ (h.index j).id = gsdGetId h name)
        h.indexNumEntries := by
  obtain ⟨-, hle, hleft, hright⟩ := @findChunkLoop_spec h frame _ hs h.indexNumEntries 0
    h.indexNumEntries ⟨hn, le_rfl, .inr rfl, fun j hj hjn => absurd hjn (by omega)⟩ (by omega)
  set r := findChunkLoop h frame h.indexNumEntries 0 h.indexNumEntries
  have hblock : ∀ k ≤ r, (h.index k).frame = frame → ∀ k', k ≤ k' → k' ≤ r →
      (h.index k').frame = frame := fun k hk hkf k' hkk' hk'r => by
    rcases hleft with hleft | hr0
    · have := hs k k' hkk' (by omega); have := hs k' r hk'r (by omega); omega
    · rw [show k' = k by omega, hkf]
  simp only [gsdFindChunk, if_neg (show ¬ gsdGetNframes h ≤ frame by omega), if_neg hflags, if_neg hid]
  rw [scanBack_eq_lastMatch hblock,
    lastMatch_of_none_above hle fun j hj hjn hP => absurd hP.1 (ne_of_gt (hright j hj hjn))]

/-- `gsd_read_chunk` of the entry `chunk` points to (`none` for NULL); the result is the
`N * M * gsd_sizeof_type(type)` bytes it puts in `data`. -/
def gsdReadChunk (d : Disk) (h : GsdHandle) (chunk : Option GsdIndexEntry) :
    Except GsdError (List UInt8) :=
  match chunk with
  | none => .error .invalidArgument
  | some e =>
    if h.openFlags = .append then .error .fileMustBeReadable
    else
      let size := chunkSize e.N e.M e.type
      if size = 0 then .error .fileCorrupt
      else if e.location = 0 then .error .fileCorrupt
      else if h.fileSize < (e.location + size) % 2 ^ 64 then .error .fileCorrupt
      else
        let (n, buf) := gsdPreadRetry d size e.location
        if n = -1 ∨ n ≠ size then .error .io else .ok ((List.range size).map buf)

theorem gsdReadChunk_of_le {d : Disk} {h : GsdHandle} {e : GsdIndexEntry}
    (hf : h.openFlags ≠ .append) (hs : chunkSize e.N e.M e.type ≠ 0) (hl : e.location ≠ 0)
    (hin : e.location + chunkSize e.N e.M e.type ≤ h.fileSize) (hd : h.fileSize ≤ d.size)
    (hmax : d.size ≤ maxFileSize) :
    gsdReadChunk d h (some e) = .ok ((List.range (chunkSize e.N e.M e.type)).map (d.view e.location)) := by
  have hlt : e.location + chunkSize e.N e.M e.type < 2 ^ 64 := by unfold maxFileSize at hmax; omega
  simp only [gsdReadChunk, if_neg hf, if_neg hs, if_neg hl, Nat.mod_eq_of_lt hlt,
    gsdPreadRetry_of_le d (hin.trans hd) hmax, if_neg (Nat.not_lt.2 hin)]
  simp

/-- A chunk of nonzero size inside the file reads back the bytes at its location. -/
theorem gsdReadChunk_of_inside {d : Disk} {h : GsdHandle} {e : GsdIndexEntry}
    (hf : h.openFlags ≠ .append) (hs : chunkSize e.N e.M e.type ≠ 0) (hl : e.location ≠ 0)
    (hin : e.location + chunkSize e.N e.M e.type ≤ d.size) (hd : d.size = h.fileSize)
    (hmax : d.size ≤ maxFileSize) :
    gsdReadChunk d h (some e) = .ok ((List.range (chunkSize e.N e.M e.type)).map (d.view e.location)) :=
  gsdReadChunk_of_le hf hs hl (hd ▸ hin) hd.ge hmax

theorem gsdReadChunk_congr {d d' : Disk} {h : GsdHandle} {e : GsdIndexEntry}
    (hin : e.location + chunkSize e.N e.M e.type ≤ h.fileSize) (hd : h.fileSize ≤ d.size)
    (hd' : h.fileSize ≤ d'.size) (hmax : d.size ≤ maxFileSize) (hmax' : d'.size ≤ maxFileSize)
    (hv : ∀ j < chunkSize e.N e.M e.type, d'.view e.location j = d.view e.location j) :
    gsdReadChunk d' h (some e) = gsdReadChunk d h (some e) := by
  by_cases hf : h.openFlags = .append
  · simp only [gsdReadChunk, if_pos hf]
  by_cases hs : chunkSize e.N e.M e.type = 0
  · simp only [gsdReadChunk, if_neg hf, hs, if_true]
  by_cases hl : e.location = 0
  · simp only [gsdReadChunk, if_neg hf, if_neg hs, hl, if_true]
  rw [gsdReadChunk_of_le hf hs hl hin hd' hmax', gsdReadChunk_of_le hf hs hl hin hd hmax]
  exact congrArg _ (List.map_congr_left fun j hj => hv j (List.mem_range.1 hj))

end Gsd
