import Mathlib.Data.List.Sort
import Gsd.Handle

/-!
The namelist and its sorted name cache: `gsd_find_name`, `gsd_append_name`, `gsd_get_id`,
`gsd_sort_name_id_pairs` and `gsd_find_matching_chunk_name`. The bisection of `gsd_find_name`
compares only `strlen(name)` bytes, so it finds some committed name that has the needle as a
prefix; its correctness rests on `strncmp` against a fixed needle being antitone along a list
sorted by `strcmp` (`strncmp_lt_of_strLe`, `strncmp_gt_of_strLe`).
-/

namespace Gsd

/-- The do-while bisection of `gsd_find_name` on the window `[L, R)`; `key m` is
`strncmp(name, handle->names[m].name, len)` and the result is cast to `uint16_t`. -/
def findNameLoop (key : Nat → Ordering) : Nat → Nat → Nat → Nat
  | 0, _, _ => uint16Max
  | fuel + 1, L, R =>
    let m := (L + R) / 2
    match key m with
    | .lt => if m - L > 1 then findNameLoop key fuel L m else uint16Max
    | .eq => m % 2 ^ 16
    | .gt => if R - m > 1 then findNameLoop key fuel m R else uint16Max

def gsdFindName (h : GsdHandle) (name : CStr) : Nat :=
  if h.namelistWrittenEntries = 0 then uint16Max
  else match strncmp name.bytes (h.nameOf 0) name.bytes.length with
    | .lt => uint16Max
    | .eq => 0
    | .gt => findNameLoop (fun m => strncmp name.bytes (h.nameOf m) name.bytes.length)
        h.namelistWrittenEntries 0 h.namelistWrittenEntries

/-- The bytes `strncpy` and the explicit terminator leave in a namelist entry. -/
def namelistEntryBytes (name : List UInt8) : List UInt8 :=
  strncpy name (namelistEntrySize - 1) ++ [0]

/-- `gsd_append_name`, returning the id it stores through its `id` argument. -/
def gsdAppendName (h : GsdHandle) (name : CStr) : GsdHandle × Except GsdError Nat :=
  if h.openFlags = .readonly then (h, .error .fileMustBeWritable)
  else if h.namelistNumEntries = h.header.namelistAllocatedEntries then (h, .error .namelistFull)
  else
    let num := h.namelistNumEntries
    let namelist := storeBytes h.namelist (namelistEntrySize * num) (namelistEntryBytes name.bytes)
    let grow := h.namesAllocatedSize < num + 1
    let namesAllocatedSize := if grow then h.namesAllocatedSize * 2 % 2 ^ 64 else h.namesAllocatedSize
    let names := if grow then h.names ++ List.replicate (namesAllocatedSize - h.names.length) default
      else h.names
    ({ h with
        namelist := namelist
        namesAllocatedSize := namesAllocatedSize
        names := names.set num ⟨num, num % 2 ^ 16⟩
        namelistNumEntries := num + 1 }, .ok (num % 2 ^ 16))

def gsdGetId (h : GsdHandle) (name : CStr) : Nat :=
  let i := gsdFindName h name
  if i ≠ uint16Max then (h.pair i).id else uint16Max

/-- `gsd_cmp_name_id_pair` as the relation `qsort` sorts by. -/
def NameLe (h : GsdHandle) (p q : NameIdPair) : Prop := StrLe (h.nameAt p.slot) (h.nameAt q.slot)

instance (h : GsdHandle) : DecidableRel (NameLe h) := fun _ _ => inferInstanceAs (Decidable (StrLe _ _))

/-- `qsort` of the first `namelist_num_entries` pairs; the model sorts by insertion. -/
def gsdSortNameIdPairs (h : GsdHandle) : GsdHandle :=
  { h with names := (h.names.take h.namelistNumEntries).insertionSort (NameLe h) ++
      h.names.drop h.namelistNumEntries }

@[simp] theorem gsdSortNameIdPairs_namelistNumEntries (h : GsdHandle) :
    (gsdSortNameIdPairs h).namelistNumEntries = h.namelistNumEntries := rfl

@[simp] theorem gsdSortNameIdPairs_namelistWrittenEntries (h : GsdHandle) :
    (gsdSortNameIdPairs h).namelistWrittenEntries = h.namelistWrittenEntries := rfl

@[simp] theorem gsdSortNameIdPairs_namelist (h : GsdHandle) :
    (gsdSortNameIdPairs h).namelist = h.namelist := rfl

@[simp] theorem gsdSortNameIdPairs_header (h : GsdHandle) :
    (gsdSortNameIdPairs h).header = h.header := rfl

@[simp] theorem length_names_gsdSortNameIdPairs (h : GsdHandle) (hn : h.namelistNumEntries ≤ h.names.length) :
    (gsdSortNameIdPairs h).names.length = h.names.length := by
  simp [gsdSortNameIdPairs, List.length_insertionSort, hn]

/-- The loop `for (i = start; i < namelist_written_entries; i++)`: the first index from `i` on,
below `w`, that satisfies `P`. -/
def scanLoop (P : Nat → Bool) (w : Nat) : Nat → Nat → Option Nat
  | 0, _ => none
  | fuel + 1, i => if i < w then (if P i then some i else scanLoop P w fuel (i + 1)) else none

section ScanLoop

variable {P : Nat → Bool} {w : Nat}

theorem scanLoop_eq_some {k : Nat} (hk : k < w) (hP : P k = true) :
    ∀ fuel i, i ≤ k → w - i ≤ fuel → (∀ j, i ≤ j → j < k → P j = false) →
      scanLoop P w fuel i = some k := by
  intro fuel
  induction fuel with
  | zero => intro i _ hf; omega
  | succ fuel ih =>
    intro i hi hf hno
    simp only [scanLoop, if_pos (show i < w by omega)]
    rcases Nat.eq_or_lt_of_le hi with rfl | hlt
    · simp [hP]
    · rw [hno i le_rfl hlt]
      exact ih (i + 1) hlt (by omega) fun j hj => hno j (by omega)

theorem scanLoop_eq_none : ∀ fuel i, (∀ j, i ≤ j → j < w → P j = false) → scanLoop P w fuel i = none := by
  intro fuel
  induction fuel with
  | zero => intro _ _; rfl
  | succ fuel ih =>
    intro i hno
    simp only [scanLoop]
    split_ifs with hi hp
    · rw [hno i le_rfl hi] at hp; cases hp
    · exact ih (i + 1) fun j hj => hno j (by omega)
    · rfl

theorem scanLoop_le_of_true {k : Nat} (hk : k < w) (hP : P k = true) :
    ∀ fuel i, i ≤ k → w - i ≤ fuel → ∃ j, scanLoop P w fuel i = some j ∧ j ≤ k := by
  intro fuel
  induction fuel with
  | zero => intro i _ hf; omega
  | succ fuel ih =>
    intro i hi hf
    simp only [scanLoop, if_pos (show i < w by omega)]
    split_ifs with hPi
    · exact ⟨i, rfl, hi⟩
    · have hik : i ≠ k := fun he => hPi (he ▸ hP)
      exact ih (i + 1) (by omega) (by omega)

end ScanLoop

/-- `gsd_find_matching_chunk_name`, by the namelist entry the returned pointer points into. -/
def gsdFindMatchingChunkName (h : GsdHandle) (matchStr : CStr) (prev : Option CStr) :
    Option Nat :=
  let w := h.namelistWrittenEntries
  let start : Option Nat := match prev with
    | none => some 0
    | some p => if gsdFindName h p = uint16Max then none else some (gsdFindName h p + 1)
  if w = 0 then none
  else start.bind fun start =>
    (scanLoop (fun i => strncmp matchStr.bytes (h.nameOf i) matchStr.bytes.length = .eq) w
      (w - start) start).map fun i => (h.pair i).slot

section FindName

variable {key : Nat → Ordering} {w : Nat}

/-- Along `[0, w)` the key is first `gt`, then `eq`, then `lt`. -/
def KeyAntitone (key : Nat → Ordering) (w : Nat) : Prop :=
  ∀ i j, i ≤ j → j < w → (key i = .lt → key j = .lt) ∧ (key j = .gt → key i = .gt)

/-- The window of the bisection: every match lies strictly inside `(L, R)`. -/
structure FindNameInv (key : Nat → Ordering) (w L R : Nat) : Prop where
  lt : L < R
  le : R ≤ w
  key_L : key L = .gt
  key_R : R = w ∨ key R = .lt

theorem findNameLoop_spec (hk : KeyAntitone key w) :
    ∀ fuel L R, FindNameInv key w L R → R - L ≤ fuel →
      (∃ m, L < m ∧ m < R ∧ key m = .eq ∧ findNameLoop key fuel L R = m % 2 ^ 16) ∨
      (findNameLoop key fuel L R = uint16Max ∧ ∀ i, L < i → i < R → key i ≠ .eq) := by
  intro fuel
  induction fuel with
  | zero => intro L R hi hf; have := hi.lt; omega
  | succ fuel ih =>
    intro L R hi hf
    have hLm : L ≤ (L + R) / 2 := by have := hi.lt; omega
    have hmR : (L + R) / 2 < R := by have := hi.lt; omega
    simp only [findNameLoop]
    split
    · -- `key m = lt`: every match lies left of `m`
      rename_i hm
      have hright : ∀ i, (L + R) / 2 ≤ i → i < R → key i ≠ .eq := fun i h1 h2 => by
        rw [(hk _ i h1 (by have := hi.le; omega)).1 hm]; simp
      split
      · rcases ih L ((L + R) / 2) ⟨by omega, by have := hi.le; omega, hi.key_L, .inr hm⟩
          (by omega) with ⟨m, h1, h2, h3, h4⟩ | ⟨h1, h2⟩
        · exact .inl ⟨m, h1, by omega, h3, h4⟩
        · refine .inr ⟨h1, fun i hi1 hi2 => ?_⟩
          by_cases hi3 : i < (L + R) / 2
          · exact h2 i hi1 hi3
          · exact hright i (by omega) hi2
      · exact .inr ⟨rfl, fun i hi1 hi2 => hright i (by omega) hi2⟩
    · -- `key m = eq`: `m` itself is the answer
      rename_i hm
      refine .inl ⟨(L + R) / 2, ?_, hmR, hm, rfl⟩
      rcases Nat.eq_or_lt_of_le hLm with h | h
      · rw [← h, hi.key_L] at hm; cases hm
      · exact h
    · -- `key m = gt`: every match lies right of `m`
      rename_i hm
      have hleft : ∀ i, L < i → i ≤ (L + R) / 2 → key i ≠ .eq := fun i _ h2 => by
        rw [(hk i _ h2 (by have := hi.le; omega)).2 hm]; simp
      split
      · rcases ih ((L + R) / 2) R ⟨by omega, hi.le, hm, hi.key_R⟩ (by omega)
          with ⟨m, h1, h2, h3, h4⟩ | ⟨h1, h2⟩
        · exact .inl ⟨m, by omega, h2, h3, h4⟩
        · refine .inr ⟨h1, fun i hi1 hi2 => ?_⟩
          by_cases hi3 : (L + R) / 2 < i
          · exact h2 i hi3 hi2
          · exact hleft i hi1 (by omega)
      · exact .inr ⟨rfl, fun i hi1 hi2 => hleft i hi1 (by omega)⟩

end FindName

namespace GsdHandle

theorem keyAntitone_of_sorted {h : GsdHandle} {k : Nat} (hs : h.NamesSorted k) (p : List UInt8) (n : Nat) :
    KeyAntitone (fun m => strncmp p (h.nameOf m) n) k := fun i j hij hj =>
  ⟨strncmp_lt_of_strLe (hs i j hij hj) p n, strncmp_gt_of_strLe (hs i j hij hj) p n⟩

end GsdHandle

/-- On a sorted committed window, `gsd_find_name` returns (cast to 16 bits) the position of
some committed name the needle is a prefix of, and `UINT16_MAX` when there is none. -/
theorem gsdFindName_spec (h : GsdHandle) (name : CStr) (hs : h.NamesSorted h.namelistWrittenEntries) :
    (∃ m, m < h.namelistWrittenEntries ∧ name.bytes <+: h.nameOf m ∧ gsdFindName h name = m % 2 ^ 16) ∨
    (gsdFindName h name = uint16Max ∧ ∀ i < h.namelistWrittenEntries, ¬ name.bytes <+: h.nameOf i) := by
  have hk := h.keyAntitone_of_sorted hs name.bytes name.bytes.length
  simp only [← strncmp_eq_iff_prefix]
  unfold gsdFindName
  split
  · exact .inr ⟨rfl, fun i hi => by omega⟩
  · rename_i hw
    split
    · rename_i h0
      refine .inr ⟨rfl, fun i hi he => ?_⟩
      have := (hk 0 i (Nat.zero_le _) hi).1 h0
      simp only at this
      rw [this] at he; cases he
    · exact .inl ⟨0, by omega, by assumption, rfl⟩
    · rename_i h0
      rcases findNameLoop_spec hk _ 0 _ ⟨by omega, le_rfl, h0, .inl rfl⟩ le_rfl with
        ⟨m, _, h2, h3, h4⟩ | ⟨h1, h2⟩
      · exact .inl ⟨m, h2, h3, h4⟩
      · refine .inr ⟨h1, fun i hi => ?_⟩
        rcases Nat.eq_zero_or_pos i with rfl | hi0
        · rw [h0]; simp
        · exact h2 i hi0 hi

theorem perm_take_gsdSortNameIdPairs (h : GsdHandle) (hn : h.namelistNumEntries ≤ h.names.length) :
    ((gsdSortNameIdPairs h).names.take h.namelistNumEntries).Perm (h.names.take h.namelistNumEntries) := by
  have hl : ((h.names.take h.namelistNumEntries).insertionSort (NameLe h)).length =
      h.namelistNumEntries := by simp [List.length_insertionSort, hn]
  simp only [gsdSortNameIdPairs]
  rw [List.take_append_of_le_length hl.ge, List.take_of_length_le hl.le]
  exact List.perm_insertionSort _ _

theorem namesSorted_gsdSortNameIdPairs (h : GsdHandle) (hn : h.namelistNumEntries ≤ h.names.length) :
    (gsdSortNameIdPairs h).NamesSorted h.namelistNumEntries := by
  haveI : IsTotal NameIdPair (NameLe h) := ⟨fun a b => strLe_total _ _⟩
  haveI : IsTrans NameIdPair (NameLe h) := ⟨fun _ _ _ => strLe_trans⟩
  have hsort := List.sorted_insertionSort (NameLe h) (h.names.take h.namelistNumEntries)
  set l := (h.names.take h.namelistNumEntries).insertionSort (NameLe h)
  have hl : l.length = h.namelistNumEntries := by simp [l, hn]
  intro i j hij hj
  have hget : ∀ k (hk : k < l.length), (gsdSortNameIdPairs h).pair k = l.get ⟨k, hk⟩ := by
    intro k hk
    simp only [gsdSortNameIdPairs, GsdHandle.pair, List.getD_eq_getElem?_getD,
      List.getElem?_append_left hk, List.getElem?_eq_getElem hk, Option.getD_some, List.get_eq_getElem]
  simp only [GsdHandle.nameOf, hget i (by omega), hget j (by omega)]
  show NameLe h _ _
  rcases Nat.eq_or_lt_of_le hij with rfl | hlt
  · simp [NameLe, StrLe]
  · exact List.Sorted.rel_get_of_lt hsort hlt

end Gsd
