import Mathlib.Tactic.IntervalCases
import Gsd.Names

/-!
Enumerating the names that start with a given string, the way callers of
`gsd_find_matching_chunk_name` do: first with `prev = NULL`, then with the previous result,
until NULL comes back. Each call restarts its scan after the position `gsd_find_name` gives
for `prev`; that position is the one `prev` was found at only when no other committed name
has `prev` as a prefix. On committed names that are distinct and prefix-free the calls return
the matching names in sorted order, each once, and then NULL; a name that is a prefix of a
later one (`"a"` before `"ab"`) makes the scan resume past names it never reported.
-/

namespace Gsd

/-- The result of the `k`-th call of the enumeration loop, `none` once a call returned NULL. -/
def matchingCall (h : GsdHandle) (m : CStr) : Nat → Option Nat
  | 0 => gsdFindMatchingChunkName h m none
  | k + 1 => (matchingCall h m k).bind fun slot => gsdFindMatchingChunkName h m (some (h.nameCStr slot))

/-- The committed entries (by namelist entry) whose names start with `m`, in cache order. -/
def matchingEntries (h : GsdHandle) (m : CStr) : List Nat :=
  ((List.range h.namelistWrittenEntries).filter fun i => m.bytes <+: h.nameOf i).map
    fun i => (h.pair i).slot

/-- The enumeration ends, and what it returned is every matching committed entry, once. -/
def EnumeratesMatches (h : GsdHandle) (m : CStr) : Prop :=
  ∃ n, matchingCall h m n = none ∧
    ((List.range n).filterMap (matchingCall h m)).Perm (matchingEntries h m)

section Scan

variable (P : Nat → Bool) (w : Nat)

/-- The indices from `s` on, below `w`, that satisfy `P`. -/
def enumFrom (s : Nat) : List Nat := (List.range' s (w - s)).filter P

theorem enumFrom_of_lt {s : Nat} (hs : s < w) :
    enumFrom P w s = if P s then s :: enumFrom P w (s + 1) else enumFrom P w (s + 1) := by
  have : w - s = (w - (s + 1)) + 1 := by omega
  rw [enumFrom, this, List.range'_succ, List.filter_cons]
  rfl

theorem enumFrom_of_le {s : Nat} (hs : w ≤ s) : enumFrom P w s = [] := by
  simp [enumFrom, Nat.sub_eq_zero_of_le hs]

theorem scanLoop_spec : ∀ n s, w - s = n →
    scanLoop P w n s = (enumFrom P w s).head? ∧
      ∀ i, scanLoop P w n s = some i → enumFrom P w s = i :: enumFrom P w (i + 1) := by
  intro n
  induction n with
  | zero =>
    intro s hs
    simp [scanLoop, enumFrom_of_le P w (show w ≤ s by omega)]
  | succ n ih =>
    intro s hs
    have hlt : s < w := by omega
    obtain ⟨ih1, ih2⟩ := ih (s + 1) (by omega)
    rw [enumFrom_of_lt P w hlt]
    simp only [scanLoop, if_pos hlt]
    cases hP : P s
    · exact ⟨ih1, ih2⟩
    · exact ⟨rfl, fun i hi => by cases hi; rfl⟩

theorem getElem?_succ_enumFrom : ∀ k s i, (enumFrom P w s)[k]? = some i →
    (enumFrom P w s)[k + 1]? = (enumFrom P w (i + 1)).head? := by
  intro k
  induction k with
  | zero =>
    intro s i hi
    have hhead : scanLoop P w (w - s) s = some i := by
      rw [(scanLoop_spec P w _ s rfl).1, List.head?_eq_getElem?]; exact hi
    rw [(scanLoop_spec P w _ s rfl).2 i hhead]
    simp [List.head?_eq_getElem?]
  | succ k ih =>
    intro s i hi
    cases hs : scanLoop P w (w - s) s with
    | none =>
      rw [(scanLoop_spec P w _ s rfl).1, List.head?_eq_none_iff] at hs
      simp [hs] at hi
    | some j =>
      rw [(scanLoop_spec P w _ s rfl).2 j hs] at hi ⊢
      simp only [List.getElem?_cons_succ] at hi ⊢
      exact ih (j + 1) i hi

end Scan

/-- The matching positions the enumeration visits, before mapping them to namelist entries. -/
def matchingIndex (h : GsdHandle) (m : CStr) : Nat → Option Nat
  | 0 => scanLoop (fun i => strncmp m.bytes (h.nameOf i) m.bytes.length = .eq)
      h.namelistWrittenEntries h.namelistWrittenEntries 0
  | k + 1 => (matchingIndex h m k).bind fun i =>
      scanLoop (fun i => strncmp m.bytes (h.nameOf i) m.bytes.length = .eq)
        h.namelistWrittenEntries (h.namelistWrittenEntries - (i + 1)) (i + 1)

/-- Committed names are distinct and none is a proper prefix of another. -/
def PrefixFree (h : GsdHandle) : Prop :=
  ∀ i j, i < h.namelistWrittenEntries → j < h.namelistWrittenEntries →
    h.nameOf i <+: h.nameOf j → i = j

/-- On prefix-free committed names, `gsd_find_name` of a committed name returns its position. -/
theorem gsdFindName_committed {h : GsdHandle} (hs : h.NamesSorted h.namelistWrittenEntries)
    (hp : PrefixFree h) (hw : h.namelistWrittenEntries ≤ uint16Max) {i : Nat}
    (hi : i < h.namelistWrittenEntries) : gsdFindName h (h.nameCStr (h.pair i).slot) = i := by
  rcases gsdFindName_spec h (h.nameCStr (h.pair i).slot) hs with ⟨m, hm, hpre, hr⟩ | ⟨_, hnone⟩
  · rw [hr, ← hp i m hi hm hpre]
    exact Nat.mod_eq_of_lt (by simp only [uint16Max] at hw; omega)
  · exact absurd (List.prefix_refl _) (hnone i hi)

/-- Within the namelist capacity the library creates, the cast to `uint16_t` loses nothing:
on a sorted cache `gsd_find_name` returns the position of a committed name that starts with
the needle whenever there is one, and `UINT16_MAX` only when there is none. -/
theorem gsdFindName_finds_prefix (h : GsdHandle) (name : CStr)
    (hw : h.namelistWrittenEntries ≤ gsdInitialNamelistSize)
    (hs : h.NamesSorted h.namelistWrittenEntries) :
    ((∃ i < h.namelistWrittenEntries, name.bytes <+: h.nameOf i) →
        gsdFindName h name < h.namelistWrittenEntries ∧ name.bytes <+: h.nameOf (gsdFindName h name)) ∧
      ((∀ i < h.namelistWrittenEntries, ¬ name.bytes <+: h.nameOf i) → gsdFindName h name = uint16Max) := by
  rcases gsdFindName_spec h name hs with ⟨m, hm, hpre, hr⟩ | ⟨hr, hnone⟩
  · have hmod : m % 2 ^ 16 = m := Nat.mod_eq_of_lt (by simp only [gsdInitialNamelistSize] at hw; omega)
    rw [hr, hmod]
    exact ⟨fun _ => ⟨hm, hpre⟩, fun hnone => absurd hpre (hnone m hm)⟩
  · exact ⟨fun ⟨i, hi, hpre⟩ => absurd hpre (hnone i hi), fun _ => hr⟩

theorem matchingIndex_eq (h : GsdHandle) (m : CStr) (k : Nat) :
    matchingIndex h m k =
      (enumFrom (fun i => strncmp m.bytes (h.nameOf i) m.bytes.length = .eq)
        h.namelistWrittenEntries 0)[k]? := by
  set P := fun i => decide (strncmp m.bytes (h.nameOf i) m.bytes.length = .eq)
  set w := h.namelistWrittenEntries
  induction k with
  | zero => simp only [matchingIndex, (scanLoop_spec P w w 0 (by omega)).1, List.head?_eq_getElem?]
  | succ k ih =>
    rw [matchingIndex, ih]
    cases hk : (enumFrom P w 0)[k]? with
    | none =>
      rw [List.getElem?_eq_none_iff] at hk
      simp [List.getElem?_eq_none_iff.2 (show (enumFrom P w 0).length ≤ k + 1 by omega)]
    | some i =>
      rw [getElem?_succ_enumFrom P w k 0 i hk, Option.some_bind, (scanLoop_spec P w _ _ rfl).1]

/-- On prefix-free committed names the `k`-th call returns the entry of the `k`-th match, so
the enumeration ends after the last match and returns every match exactly once, in order. -/
theorem matchingCall_eq_matchingEntries {h : GsdHandle} (m : CStr)
    (hs : h.NamesSorted h.namelistWrittenEntries) (hp : PrefixFree h)
    (hw : h.namelistWrittenEntries ≤ uint16Max) (k : Nat) :
    matchingCall h m k = (matchingEntries h m)[k]? := by
  have henum : (List.range h.namelistWrittenEntries).filter (fun i => m.bytes <+: h.nameOf i) =
      enumFrom (fun i => strncmp m.bytes (h.nameOf i) m.bytes.length = .eq)
        h.namelistWrittenEntries 0 := by
    simp [enumFrom, List.range_eq_range', strncmp_eq_iff_prefix]
  have hcall : ∀ k, matchingCall h m k = (matchingIndex h m k).map fun i => (h.pair i).slot := by
    intro k
    induction k with
    | zero =>
      simp only [matchingCall, gsdFindMatchingChunkName, matchingIndex, Nat.sub_zero]
      split
      · rename_i hw0; simp [hw0, scanLoop]
      · rfl
    | succ k ih =>
      rw [matchingCall, ih, matchingIndex]
      cases hk : matchingIndex h m k with
      | none => rfl
      | some i =>
        have hi : i < h.namelistWrittenEntries := by
          rw [matchingIndex_eq, ← henum] at hk
          simpa using (List.mem_filter.1 (List.mem_iff_getElem?.2 ⟨k, hk⟩)).1
        simp only [Option.map_some', Option.some_bind, gsdFindMatchingChunkName,
          gsdFindName_committed hs hp hw hi, if_neg (show ¬ h.namelistWrittenEntries = 0 by omega)]
        rw [if_neg (by simp only [uint16Max] at hw ⊢; omega)]
        rfl
  rw [hcall, matchingIndex_eq, matchingEntries, henum, List.getElem?_map]

theorem filterMap_range_getElem? {α : Type} (l : List α) :
    (List.range l.length).filterMap (fun k => l[k]?) = l := by
  induction l with
  | nil => rfl
  | cons a t ih =>
    rw [List.length_cons, List.range_succ_eq_map, List.filterMap_cons, List.filterMap_map]
    simpa [Function.comp_def] using ih

/-- Four committed names, sorted, where `"a"` is a prefix of `"ab"`. -/
def prefixNamesHandle : GsdHandle where
  header := ⟨gsdMagicId, headerSize, headerSize + entrySize, 1, 4, 0, gsdMakeVersion 1 0,
    List.replicate 64 0, List.replicate 64 0, List.replicate 80 0⟩
  index := fun _ => default
  indexSlots := 1
  namelist := storeBytes (storeBytes (storeBytes (storeBytes (fun _ => 0)
    0 (namelistEntryBytes [48])) 64 (namelistEntryBytes [97])) 128 (namelistEntryBytes [97, 98]))
    192 (namelistEntryBytes [98])
  namelistNumEntries := 4
  indexWrittenEntries := 0
  indexNumEntries := 0
  curFrame := 0
  fileSize := headerSize + entrySize + 4 * namelistEntrySize
  openFlags := .readonly
  names := [⟨0, 0⟩, ⟨1, 1⟩, ⟨2, 2⟩, ⟨3, 3⟩]
  namelistWrittenEntries := 4
  namesAllocatedSize := 4
  appendIndexSize := 0

/-- The needle `"a"`. -/
def needleA : CStr := ⟨[97], by decide⟩

/-- Three distinct, prefix-free committed names. -/
def distinctNamesHandle : GsdHandle :=
  { prefixNamesHandle with
    namelist := storeBytes (storeBytes (storeBytes (fun _ => 0)
      0 (namelistEntryBytes [48])) 64 (namelistEntryBytes [97])) 128 (namelistEntryBytes [98])
    namelistNumEntries := 3
    names := [⟨0, 0⟩, ⟨1, 1⟩, ⟨2, 2⟩]
    namelistWrittenEntries := 3 }

/-- On committed names that are distinct and prefix-free (at most 65535 of them, the namelist
size this library creates), the enumeration ends and returns every matching entry once, the
`k`-th call the `k`-th match in the order of the sorted name cache. -/
theorem enumeratesMatches_of_prefixFree {h : GsdHandle} (m : CStr)
    (hs : h.NamesSorted h.namelistWrittenEntries) (hp : PrefixFree h)
    (hw : h.namelistWrittenEntries ≤ uint16Max) :
    EnumeratesMatches h m ∧ ∀ k, matchingCall h m k = (matchingEntries h m)[k]? := by
  have hcall := funext (matchingCall_eq_matchingEntries m hs hp hw)
  refine ⟨⟨(matchingEntries h m).length, ?_, ?_⟩, congrFun hcall⟩
  · rw [hcall, List.getElem?_eq_none_iff.2 le_rfl]
  · rw [hcall, filterMap_range_getElem?]

theorem enumeratesMatches_distinctNamesHandle :
    distinctNamesHandle.NamesSorted distinctNamesHandle.namelistWrittenEntries ∧
      PrefixFree distinctNamesHandle ∧ distinctNamesHandle.namelistWrittenEntries ≤ uint16Max ∧
      EnumeratesMatches distinctNamesHandle needleA ∧
      ∀ k, matchingCall distinctNamesHandle needleA k = (matchingEntries distinctNamesHandle needleA)[k]? := by
  have hs : distinctNamesHandle.NamesSorted distinctNamesHandle.namelistWrittenEntries := by
    intro i j hij hj
    change j < 3 at hj
    interval_cases j <;> interval_cases i <;> decide
  have hp : PrefixFree distinctNamesHandle := by
    intro i j hi hj
    change i < 3 at hi
    change j < 3 at hj
    interval_cases i <;> interval_cases j <;> decide
  exact ⟨hs, hp, by decide, enumeratesMatches_of_prefixFree needleA hs hp (by decide)⟩

theorem prefixNamesHandle_sorted : prefixNamesHandle.NamesSorted 4 := by
  intro i j hij hj
  interval_cases j <;> interval_cases i <;> decide

/-- Looking up `"a"` among `"0" < "a" < "ab" < "b"` lands on one of the two names it starts. -/
theorem prefixNamesHandle_findName :
    prefixNamesHandle.namelistWrittenEntries ≤ gsdInitialNamelistSize ∧
      prefixNamesHandle.NamesSorted prefixNamesHandle.namelistWrittenEntries ∧
      ((∃ i < prefixNamesHandle.namelistWrittenEntries, needleA.bytes <+: prefixNamesHandle.nameOf i) →
        gsdFindName prefixNamesHandle needleA < prefixNamesHandle.namelistWrittenEntries ∧
          needleA.bytes <+: prefixNamesHandle.nameOf (gsdFindName prefixNamesHandle needleA)) ∧
      ((∀ i < prefixNamesHandle.namelistWrittenEntries, ¬ needleA.bytes <+: prefixNamesHandle.nameOf i) →
        gsdFindName prefixNamesHandle needleA = uint16Max) :=
  ⟨by decide, prefixNamesHandle_sorted,
    gsdFindName_finds_prefix prefixNamesHandle needleA (by decide) prefixNamesHandle_sorted⟩

theorem matchingCall_prefixNamesHandle : ∀ k, matchingCall prefixNamesHandle needleA (k + 1) = none := by
  intro k
  induction k with
  | zero => decide
  | succ k ih => rw [matchingCall, ih]; rfl

/-- The names `"0" < "a" < "ab" < "b"` are sorted, yet enumerating the names that start with
`"a"` returns `"a"` and then NULL: `gsd_find_name("a")` lands on `"ab"`, and the scan resumes
past it. -/
theorem enumeratesMatches_prefixNamesHandle :
    prefixNamesHandle.NamesSorted prefixNamesHandle.namelistWrittenEntries ∧
      ¬ EnumeratesMatches prefixNamesHandle needleA := by
  refine ⟨prefixNamesHandle_sorted, fun ⟨n, hn, hperm⟩ => ?_⟩
  have hlen := hperm.length_eq
  have hentries : matchingEntries prefixNamesHandle needleA = [1, 2] := by decide
  cases n with
  | zero => exact absurd hn (by decide)
  | succ n =>
    have h0 : matchingCall prefixNamesHandle needleA 0 = some 1 := by decide
    have : (List.range (n + 1)).filterMap (matchingCall prefixNamesHandle needleA) = [1] := by
      rw [List.range_succ_eq_map, List.filterMap_cons, List.filterMap_map]
      simp [Function.comp_def, matchingCall_prefixNamesHandle, h0]
    rw [this, hentries] at hlen
    cases hlen

end Gsd
