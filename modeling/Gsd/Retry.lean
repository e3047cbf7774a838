import Gsd.Disk
import Gsd.Layout

/-!
`gsd_pwrite_retry` and `gsd_pread_retry` against any operating system. The rest of the model
runs them on the ideal system of `Gsd.Disk`, which transfers all it is asked for; here the
system is an oracle that answers the `k`-th call, given its offset and count, with -1 or with
a count no larger than asked, `errno` left at 0 or set. Both loops stop on -1 and on a zero
count with `errno` set; the read loop also stops on a zero count without `errno`, the end of
the file, but the write loop retries it, so a system whose `pwrite` keeps writing nothing
keeps the write loop running. The loops run on fuel, one unit per pass; `none` is a run that
has not ended within its fuel. On the ideal system both loops return what `gsdPwriteRetry`
and `gsdPreadRetry` return.
-/

namespace Gsd

/-- The answer to one `pread` or `pwrite`: -1, or a count with `errno` left at 0 or set. -/
inductive SysReply
  | fail
  | transferred (n : Nat) (errnoSet : Bool)
  deriving DecidableEq, Repr

/-- An operating system: its answer to the `k`-th call, at offset `off`, for `r` bytes. -/
def Os : Type := Nat → Nat → Nat → SysReply

/-- No call reports more bytes than it was asked for. -/
def Os.Valid (os : Os) : Prop := ∀ k off r n e, os k off r = .transferred n e → n ≤ r

/-- `INT_MAX`. -/
def intMax : Nat := 2 ^ 31 - 1

/-- The count of one call: what is left, capped at `INT_MAX / 2` where `capped` (Windows and
macOS). -/
def transferSize (capped : Bool) (rest : Nat) : Nat :=
  if capped ∧ intMax / 2 < rest then intMax / 2 else rest

theorem transferSize_le (capped : Bool) (rest : Nat) : transferSize capped rest ≤ rest := by
  unfold transferSize; split_ifs with h <;> omega

theorem transferSize_pos (capped : Bool) {rest : Nat} (h : 0 < rest) : 0 < transferSize capped rest := by
  unfold transferSize intMax; split_ifs <;> omega

/-- The `while (total_bytes_written < count)` loop of `gsd_pwrite_retry`, from call `k` with
`total` bytes written. -/
def pwriteRetryLoop (os : Os) (capped : Bool) (count offset : Nat) :
    Nat → Nat → Nat → Option (Except GsdError Nat)
  | 0, _, _ => none
  | fuel + 1, k, total =>
    if total < count then
      match os k (offset + total) (transferSize capped (count - total)) with
      | .fail => some (.error .io)
      | .transferred n errnoSet =>
        if n = 0 ∧ errnoSet then some (.error .io)
        else pwriteRetryLoop os capped count offset fuel (k + 1) (total + n)
    else some (.ok total)

/-- The `while (total_bytes_read < count)` loop of `gsd_pread_retry`; a zero count without
`errno` ends it. -/
def preadRetryLoop (os : Os) (capped : Bool) (count offset : Nat) :
    Nat → Nat → Nat → Option (Except GsdError Nat)
  | 0, _, _ => none
  | fuel + 1, k, total =>
    if total < count then
      match os k (offset + total) (transferSize capped (count - total)) with
      | .fail => some (.error .io)
      | .transferred n errnoSet =>
        if n = 0 ∧ errnoSet then some (.error .io)
        else if n = 0 then some (.ok total)
        else preadRetryLoop os capped count offset fuel (k + 1) (total + n)
    else some (.ok total)

/-- `gsd_pwrite_retry` on the system `os`, within `fuel` passes. -/
def gsdPwriteRetryOn (os : Os) (capped : Bool) (count offset fuel : Nat) :
    Option (Except GsdError Nat) :=
  pwriteRetryLoop os capped count offset fuel 0 0

/-- `gsd_pread_retry` on the system `os`, within `fuel` passes. -/
def gsdPreadRetryOn (os : Os) (capped : Bool) (count offset fuel : Nat) :
    Option (Except GsdError Nat) :=
  preadRetryLoop os capped count offset fuel 0 0

section Loops

variable {os : Os} {capped : Bool} {count offset : Nat}

theorem pwriteRetryLoop_result (hv : os.Valid) : ∀ fuel k total r, total ≤ count →
    pwriteRetryLoop os capped count offset fuel k total = some r → r = .error .io ∨ r = .ok count := by
  intro fuel
  induction fuel with
  | zero => intro k total r _ hl; cases hl
  | succ fuel ih =>
    intro k total r ht hl
    simp only [pwriteRetryLoop] at hl
    split_ifs at hl with hlt
    · split at hl
      · exact .inl (Option.some.inj hl).symm
      · rename_i n e hreply
        have hn := (hv _ _ _ _ _ hreply).trans (transferSize_le capped _)
        split_ifs at hl
        · exact .inl (Option.some.inj hl).symm
        · exact ih _ _ r (by omega) hl
    · exact .inr (by rw [← Option.some.inj hl, show total = count by omega])

theorem pwriteRetryLoop_ends (hv : os.Valid)
    (hstall : ∀ k off r, 0 < r → os k off r ≠ .transferred 0 false) :
    ∀ fuel k total, total ≤ count → count - total < fuel →
      ∃ r, pwriteRetryLoop os capped count offset fuel k total = some r := by
  intro fuel
  induction fuel with
  | zero => intro k total _ hf; omega
  | succ fuel ih =>
    intro k total ht hf
    simp only [pwriteRetryLoop]
    split_ifs with hlt
    · have hpos := transferSize_pos capped (show 0 < count - total by omega)
      split
      · exact ⟨_, rfl⟩
      · rename_i n e hreply
        have hn := (hv _ _ _ _ _ hreply).trans (transferSize_le capped _)
        split_ifs with hz
        · exact ⟨_, rfl⟩
        · have hn0 : n ≠ 0 := fun h0 => by
            cases e
            · exact hstall _ _ _ hpos (h0 ▸ hreply)
            · exact hz ⟨h0, rfl⟩
          exact ih _ _ (by omega) (by omega)
    · exact ⟨_, rfl⟩

/-- The read loop always ends within its count: every pass but the last reads a byte. When it
returns a total short of the count, it ended on its pass `j + 1`, whose call `k + j` read nothing
and left `errno` at 0. -/
theorem preadRetryLoop_ends (hv : os.Valid) : ∀ fuel k total, total ≤ count → count - total < fuel →
    ∃ r, preadRetryLoop os capped count offset fuel k total = some r ∧
      (r = .error .io ∨ ∃ t, r = .ok t ∧ t ≤ count ∧
        (t < count → ∃ j, preadRetryLoop os capped count offset j k total = none ∧
          preadRetryLoop os capped count offset (j + 1) k total = some (.ok t) ∧
          os (k + j) (offset + t) (transferSize capped (count - t)) = .transferred 0 false)) := by
  intro fuel
  induction fuel with
  | zero => intro k total _ hf; omega
  | succ fuel ih =>
    intro k total ht hf
    rw [preadRetryLoop]
    split_ifs with hlt
    · split
      · exact ⟨_, rfl, .inl rfl⟩
      · rename_i n e hreply
        have hn := (hv _ _ _ _ _ hreply).trans (transferSize_le capped _)
        split_ifs with hz h0
        · exact ⟨_, rfl, .inl rfl⟩
        · -- the end of the file: nothing read, `errno` at 0
          have he : e = false := by cases e <;> simp_all
          subst h0 he
          refine ⟨_, rfl, .inr ⟨total, rfl, ht, fun _ => ⟨0, rfl, ?_, hreply⟩⟩⟩
          simp only [preadRetryLoop, if_pos hlt, hreply]
          rfl
        · -- a byte or more read: one more pass before the last
          obtain ⟨r, hr, hres⟩ := ih (k + 1) (total + n) (by omega) (by omega)
          refine ⟨r, hr, hres.imp_right fun ⟨t, hrt, htc, hlast⟩ => ⟨t, hrt, htc, fun hlt' => ?_⟩⟩
          obtain ⟨j, hnone, hsome, hos⟩ := hlast hlt'
          refine ⟨j + 1, ?_, ?_, by rw [show k + (j + 1) = k + 1 + j by omega]; exact hos⟩ <;>
            rw [preadRetryLoop] <;> simp only [if_pos hlt, hreply, if_neg hz, if_neg h0, hnone, hsome]
    · exact ⟨_, rfl, .inr ⟨total, rfl, ht, fun h => absurd h hlt⟩⟩

theorem pwriteRetryLoop_stalls (hstall : ∀ k off r, os k off r = .transferred 0 false) :
    ∀ fuel k total, total < count → pwriteRetryLoop os capped count offset fuel k total = none := by
  intro fuel
  induction fuel with
  | zero => intro _ _ _; rfl
  | succ fuel ih =>
    intro k total ht
    simp only [pwriteRetryLoop, if_pos ht, hstall, Nat.add_zero]
    exact ih _ _ ht

end Loops

/-- For every behaviour of the system: `gsd_pread_retry` returns within `count + 1` passes,
`GSD_ERROR_IO` or a total `t ≤ count` that falls short of `count` only when its last call, call
`k` of a run that ends on pass `k + 1`, read nothing and left `errno` at 0; `gsd_pwrite_retry`,
whenever it returns, returns `GSD_ERROR_IO` or the whole count, and it returns within `count + 1`
passes on a system that never answers a write of at least one byte with nothing and no `errno`. -/
theorem gsdRetry_on_any_os (os : Os) (hv : os.Valid) (capped : Bool) (count offset : Nat) :
    (∃ r, gsdPreadRetryOn os capped count offset (count + 1) = some r ∧
      (r = .error .io ∨ ∃ t, r = .ok t ∧ t ≤ count ∧
        (t < count → ∃ k, gsdPreadRetryOn os capped count offset k = none ∧
          gsdPreadRetryOn os capped count offset (k + 1) = some (.ok t) ∧
          os k (offset + t) (transferSize capped (count - t)) = .transferred 0 false))) ∧
    (∀ fuel r, gsdPwriteRetryOn os capped count offset fuel = some r →
      r = .error .io ∨ r = .ok count) ∧
    ((∀ k off r, 0 < r → os k off r ≠ .transferred 0 false) →
      ∃ r, gsdPwriteRetryOn os capped count offset (count + 1) = some r) := by
  obtain ⟨r, hr, hres⟩ := preadRetryLoop_ends hv (count + 1) 0 0 (Nat.zero_le count) (by omega)
  refine ⟨⟨r, hr, hres.imp_right fun ⟨t, hrt, htc, hlast⟩ => ⟨t, hrt, htc, fun hlt => ?_⟩⟩,
    fun fuel r => pwriteRetryLoop_result hv fuel 0 0 r (Nat.zero_le _),
    fun hstall => pwriteRetryLoop_ends hv hstall _ 0 0 (Nat.zero_le _) (by omega)⟩
  obtain ⟨k, hnone, hsome, hos⟩ := hlast hlt
  exact ⟨k, hnone, hsome, by rwa [Nat.zero_add] at hos⟩

/-- A system whose every call transfers all it is asked for. -/
def fullOs : Os := fun _ _ r => .transferred r false

theorem fullOs_valid : fullOs.Valid := fun _ _ _ _ _ h => by
  cases h; exact le_rfl

theorem fullOs_retry :
    (∃ r, gsdPreadRetryOn fullOs false 3 0 (3 + 1) = some r ∧
      (r = .error .io ∨ ∃ t, r = .ok t ∧ t ≤ 3 ∧
        (t < 3 → ∃ k, gsdPreadRetryOn fullOs false 3 0 k = none ∧
          gsdPreadRetryOn fullOs false 3 0 (k + 1) = some (.ok t) ∧
          fullOs k (0 + t) (transferSize false (3 - t)) = .transferred 0 false))) ∧
    (∀ fuel r, gsdPwriteRetryOn fullOs false 3 0 fuel = some r → r = .error .io ∨ r = .ok 3) ∧
    ((∀ k off r, 0 < r → fullOs k off r ≠ .transferred 0 false) →
      ∃ r, gsdPwriteRetryOn fullOs false 3 0 (3 + 1) = some r) :=
  gsdRetry_on_any_os fullOs fullOs_valid false 3 0

/-- A system whose `pwrite` writes nothing and leaves `errno` at 0. -/
def stallOs : Os := fun _ _ _ => .transferred 0 false

/-- On it `gsd_pwrite_retry` of one byte never returns: no fuel is enough. -/
theorem stallOs_pwrite_never_returns :
    stallOs.Valid ∧ ∀ fuel, gsdPwriteRetryOn stallOs false 1 0 fuel = none :=
  ⟨fun _ _ _ _ _ h => by cases h; exact Nat.zero_le _,
    fun fuel => pwriteRetryLoop_stalls (fun _ _ _ => rfl) fuel 0 0 (by decide)⟩

/-- The ideal system's `pwrite`: a write that ends at or below `maxFileSize` is written whole;
one that would end past it is refused with `EINVAL`. -/
def idealPwrite : Os := fun _ off r =>
  if off + r ≤ maxFileSize then .transferred r false else .fail

/-- The ideal system's `pread` of a file: up to the end of the file; a negative `off_t` fails. -/
def idealPread (d : Disk) : Os := fun _ off r =>
  if 2 ^ 63 ≤ off then .fail else .transferred (min r (d.size - off)) false

theorem idealPwrite_loop : ∀ fuel k total, total ≤ count → offset + total ≤ maxFileSize →
    count - total + 1 < fuel →
    pwriteRetryLoop idealPwrite capped count offset fuel k total =
      some (if offset + count ≤ maxFileSize then .ok count else .error .io) := by
  intro fuel
  induction fuel with
  | zero => intro k total _ _ hf; omega
  | succ fuel ih =>
    intro k total ht hmax hf
    rw [pwriteRetryLoop]
    by_cases hlt : total < count
    swap
    · rw [if_neg hlt, if_pos (by omega), show total = count by omega]
    rw [if_pos hlt]
    have hpos := transferSize_pos capped (show 0 < count - total by omega)
    have hle := transferSize_le capped (count - total)
    by_cases h1 : offset + total + transferSize capped (count - total) ≤ maxFileSize
    · -- the whole piece is written
      simp only [idealPwrite, if_pos h1, Bool.false_eq_true, and_false, if_false]
      exact ih _ _ (by omega) (by omega) (by omega)
    · -- a piece that would end past `maxFileSize` is refused
      simp only [idealPwrite, if_neg h1]
      rw [if_neg (by omega)]

/-- On the ideal system `gsd_pwrite_retry` returns what the model of `Gsd.Disk` returns:
`GSD_ERROR_IO` for a write across `maxFileSize`, the count otherwise. -/
theorem gsdPwriteRetryOn_ideal (s : Sys) (buf : Nat → UInt8) (capped : Bool) (count offset : Nat) :
    gsdPwriteRetryOn idealPwrite capped count offset (count + 2) =
      some (if (gsdPwriteRetry s buf count offset).2 = -1 then .error .io else .ok count) := by
  rcases Nat.eq_zero_or_pos count with rfl | hc
  · simp [gsdPwriteRetryOn, pwriteRetryLoop, gsdPwriteRetry]
  by_cases hm : maxFileSize < offset + count
  · rw [gsdPwriteRetry_of_gt s buf hc.ne' hm, if_pos rfl]
    by_cases ho : offset ≤ maxFileSize
    · rw [gsdPwriteRetryOn, idealPwrite_loop _ 0 0 (Nat.zero_le _) (by omega) (by omega), if_neg (by omega)]
    · -- the first call is already refused
      have hpos := transferSize_pos capped hc
      simp only [gsdPwriteRetryOn, pwriteRetryLoop, if_pos hc, idealPwrite, Nat.add_zero, Nat.sub_zero,
        if_neg (show ¬ offset + transferSize capped count ≤ maxFileSize by omega)]
  · simp only [gsdPwriteRetry_of_le s buf hc.ne' (Nat.le_of_not_lt hm)]
    rw [if_neg (by omega), gsdPwriteRetryOn, idealPwrite_loop _ 0 0 (Nat.zero_le _) (by omega) (by omega),
      if_pos (by omega)]

theorem idealPread_loop {d : Disk} (hd : d.size ≤ maxFileSize) (ho : offset < 2 ^ 63) :
    ∀ fuel k total, total ≤ min count (d.size - offset) → count - total < fuel →
    preadRetryLoop (idealPread d) capped count offset fuel k total =
      some (.ok (min count (d.size - offset))) := by
  intro fuel
  induction fuel with
  | zero => intro k total _ hf; omega
  | succ fuel ih =>
    intro k total ht hf
    simp only [preadRetryLoop]
    split_ifs with hlt
    · have hpos := transferSize_pos capped (show 0 < count - total by omega)
      have hle := transferSize_le capped (count - total)
      have hoff : ¬ 2 ^ 63 ≤ offset + total := by unfold maxFileSize at hd; omega
      simp only [idealPread, if_neg hoff, Bool.false_eq_true, and_false, if_false]
      split_ifs with h0
      · rw [show total = min count (d.size - offset) by omega]
      · exact ih _ _ (by omega) (by omega)
    · rw [show total = min count (d.size - offset) by omega]

/-- On the ideal system `gsd_pread_retry` of a read that starts inside the file, or at its
end, returns what the model of `Gsd.Disk` returns: the bytes up to the count or to the end of
the file. -/
theorem gsdPreadRetryOn_ideal (d : Disk) (hd : d.size ≤ maxFileSize) (capped : Bool)
    (count offset : Nat) (ho : offset ≤ d.size) :
    gsdPreadRetryOn (idealPread d) capped count offset (count + 1) =
        some (.ok (min count (d.size - offset))) ∧
      (gsdPreadRetry d count offset).1 = min count (d.size - offset) := by
  have h63 : offset < 2 ^ 63 := by unfold maxFileSize at hd; omega
  refine ⟨idealPread_loop hd h63 _ 0 0 (Nat.zero_le _) (by omega), ?_⟩
  rw [gsdPreadRetry, if_neg (by omega)]
  omega

end Gsd
