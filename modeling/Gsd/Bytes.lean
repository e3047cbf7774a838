import Mathlib.Data.List.Basic
import Mathlib.Tactic.Ring

/-!
Bytes as `gsd.c` sees them. Every integer field of the header and of an index entry is a
little-endian fixed-width integer on disk, and names are NUL-terminated C strings compared
with `strncmp` and `strcmp`. A C string is represented by its bytes before the terminator, so
the end of a list stands for the NUL. Comparisons are on unsigned bytes, as in libc.
-/

namespace Gsd

/-- The byte that holds the low eight bits of `x`. -/
def byteOf (x : Nat) : UInt8 := UInt8.ofNat (x % 256)

@[simp] theorem toNat_byteOf (x : Nat) : (byteOf x).toNat = x % 256 :=
  UInt8.toNat_ofNat_of_lt (Nat.mod_lt _ (by decide))

theorem byteOf_toNat (b : UInt8) : byteOf b.toNat = b := by
  apply UInt8.toNat.inj
  rw [toNat_byteOf, Nat.mod_eq_of_lt b.toNat_lt_size]

/-- The `n` little-endian bytes of `x mod 256 ^ n`. -/
def encodeLE : Nat → Nat → List UInt8
  | 0, _ => []
  | n + 1, x => byteOf x :: encodeLE n (x / 256)

/-- The unsigned integer whose little-endian bytes are `bs`. -/
def decodeLE : List UInt8 → Nat
  | [] => 0
  | b :: bs => b.toNat + 256 * decodeLE bs

@[simp] theorem length_encodeLE (n x : Nat) : (encodeLE n x).length = n := by
  induction n generalizing x with
  | zero => rfl
  | succ n ih => simp [encodeLE, ih]

theorem decodeLE_encodeLE (n x : Nat) : decodeLE (encodeLE n x) = x % 256 ^ n := by
  induction n generalizing x with
  | zero => simp [encodeLE, decodeLE, Nat.mod_one]
  | succ n ih => rw [encodeLE, decodeLE, ih, toNat_byteOf, Nat.pow_succ', Nat.mod_mul]

theorem encodeLE_decodeLE (bs : List UInt8) : encodeLE bs.length (decodeLE bs) = bs := by
  induction bs with
  | nil => rfl
  | cons b bs ih =>
    have hb := b.toNat_lt_size
    have hmod : (b.toNat + 256 * decodeLE bs) % 256 = b.toNat := by change b.toNat < 256 at hb; omega
    have hdiv : (b.toNat + 256 * decodeLE bs) / 256 = decodeLE bs := by change b.toNat < 256 at hb; omega
    rw [List.length_cons, encodeLE, decodeLE, hdiv, ih, byteOf, hmod,
      show UInt8.ofNat b.toNat = byteOf b.toNat by rw [byteOf, Nat.mod_eq_of_lt hb], byteOf_toNat]

theorem decodeLE_lt (bs : List UInt8) : decodeLE bs < 256 ^ bs.length := by
  induction bs with
  | nil => simp [decodeLE]
  | cons b bs ih =>
    have hb : b.toNat < 256 := b.toNat_lt_size
    rw [decodeLE, List.length_cons, Nat.pow_succ']
    omega

/-- Reading a `w`-byte little-endian field off the front of a buffer. -/
def readLE (w : Nat) (bs : List UInt8) : Nat × List UInt8 := (decodeLE (bs.take w), bs.drop w)

@[simp] theorem readLE_encodeLE_append (w x : Nat) (rest : List UInt8) :
    readLE w (encodeLE w x ++ rest) = (x % 256 ^ w, rest) := by
  simp [readLE, List.take_append_eq_append_take, List.drop_append_eq_append_drop,
    decodeLE_encodeLE]

theorem encodeLE_readLE (w : Nat) (bs : List UInt8) (h : w ≤ bs.length) :
    encodeLE w (readLE w bs).1 ++ (readLE w bs).2 = bs := by
  have hlen : (bs.take w).length = w := by simp [h]
  have henc := encodeLE_decodeLE (bs.take w)
  rw [hlen] at henc
  rw [readLE, henc, List.take_append_drop]

theorem encodeLE_readLE_of_length {w : Nat} {bs : List UInt8} (h : bs.length = w) :
    encodeLE w (readLE w bs).1 = bs := by
  have := encodeLE_readLE w bs h.ge
  rwa [readLE, List.drop_eq_nil_of_le h.le, List.append_nil] at this

theorem readLE_encodeLE_of_lt {w x : Nat} (h : x < 256 ^ w) (rest : List UInt8) :
    readLE w (encodeLE w x ++ rest) = (x, rest) := by
  rw [readLE_encodeLE_append, Nat.mod_eq_of_lt h]

/-- Reading a `w`-byte array off the front of a buffer. -/
def readBytes (w : Nat) (bs : List UInt8) : List UInt8 × List UInt8 := (bs.take w, bs.drop w)

@[simp] theorem readBytes_append {a : List UInt8} {w : Nat} (h : a.length = w)
    (rest : List UInt8) : readBytes w (a ++ rest) = (a, rest) := by
  subst h; simp [readBytes]

/-- A C string: the bytes of a NUL-terminated string before its terminator. -/
structure CStr where
  bytes : List UInt8
  no_nul : ∀ b ∈ bytes, b ≠ 0

/-- `strcmp` on the contents of two C strings: lexicographic on unsigned bytes, where a
proper prefix comes first because its terminator is compared with a nonzero byte. -/
def strcmp : List UInt8 → List UInt8 → Ordering
  | [], [] => .eq
  | [], _ :: _ => .lt
  | _ :: _, [] => .gt
  | a :: as, b :: bs =>
    if a.toNat < b.toNat then .lt else if b.toNat < a.toNat then .gt else strcmp as bs

/-- `strncmp p s n` compares at most `n` bytes; on C strings that is `strcmp` of the two
`n`-byte prefixes. -/
def strncmp (p s : List UInt8) (n : Nat) : Ordering := strcmp (p.take n) (s.take n)

/-- The order `qsort` establishes with `gsd_cmp_name_id_pair`. -/
def StrLe (a b : List UInt8) : Prop := strcmp a b ≠ .gt

instance (a b : List UInt8) : Decidable (StrLe a b) := inferInstanceAs (Decidable (_ ≠ _))

private theorem byte_eq_of_toNat {a b : UInt8} (h1 : ¬ a.toNat < b.toNat)
    (h2 : ¬ b.toNat < a.toNat) : a = b :=
  UInt8.toNat.inj (by omega)

theorem strcmp_swap (a b : List UInt8) : strcmp b a = (strcmp a b).swap := by
  induction a generalizing b with
  | nil => cases b <;> rfl
  | cons x as ih =>
    cases b with
    | nil => rfl
    | cons y bs =>
      simp only [strcmp]
      split_ifs <;> first | rfl | omega | exact ih bs

@[simp] theorem strcmp_self (a : List UInt8) : strcmp a a = .eq := by
  induction a with
  | nil => rfl
  | cons x as ih => simp [strcmp, ih]

theorem strcmp_eq_iff (a b : List UInt8) : strcmp a b = .eq ↔ a = b := by
  refine ⟨fun h => ?_, fun h => h ▸ strcmp_self a⟩
  induction a generalizing b with
  | nil => cases b <;> simp_all [strcmp]
  | cons x as ih =>
    cases b with
    | nil => simp [strcmp] at h
    | cons y bs =>
      simp only [strcmp] at h
      split_ifs at h with h1 h2
      rw [byte_eq_of_toNat h1 h2, ih bs h]

theorem strcmp_gt_iff_lt (a b : List UInt8) : strcmp a b = .gt ↔ strcmp b a = .lt := by
  rw [strcmp_swap b a]; cases strcmp b a <;> decide

theorem strLe_total (a b : List UInt8) : StrLe a b ∨ StrLe b a := by
  unfold StrLe; rw [strcmp_swap a b]; cases strcmp a b <;> decide

theorem strcmp_trans_lt {a b c : List UInt8} (hab : StrLe a b) (hbc : StrLe b c)
    (h : strcmp a b = .lt ∨ strcmp b c = .lt) : strcmp a c = .lt := by
  induction a generalizing b c with
  | nil =>
    cases b with
    | nil => cases c <;> simp_all [strcmp, StrLe]
    | cons y bs => cases c <;> simp_all [strcmp, StrLe]
  | cons x as ih =>
    cases b with
    | nil => simp [StrLe, strcmp] at hab
    | cons y bs =>
      cases c with
      | nil => simp [StrLe, strcmp] at hbc
      | cons z cs =>
        simp only [StrLe, strcmp] at hab hbc h ⊢
        split_ifs at hab hbc h ⊢ <;> first | omega | exact ih hab hbc h | simp_all

theorem strLe_trans {a b c : List UInt8} (hab : StrLe a b) (hbc : StrLe b c) : StrLe a c := by
  by_cases h : strcmp a b = .lt ∨ strcmp b c = .lt
  · simp [StrLe, strcmp_trans_lt hab hbc h]
  · have hab' : a = b := (strcmp_eq_iff a b).1 (by unfold StrLe at hab; cases hx : strcmp a b <;> simp_all)
    subst hab'
    exact hbc

theorem strLe_take {a b : List UInt8} (h : StrLe a b) (n : Nat) : StrLe (a.take n) (b.take n) := by
  induction n generalizing a b with
  | zero => simp [StrLe]
  | succ n ih =>
    cases a with
    | nil => cases b <;> simp [StrLe, strcmp]
    | cons x as =>
      cases b with
      | nil => simp [StrLe, strcmp] at h
      | cons y bs =>
        simp only [StrLe, strcmp, List.take_succ_cons] at h ⊢
        split_ifs at h ⊢ <;> first | omega | exact ih h | simp_all

theorem strncmp_eq_iff_prefix (p s : List UInt8) : strncmp p s p.length = .eq ↔ p <+: s := by
  rw [strncmp, List.take_length, strcmp_eq_iff, List.prefix_iff_eq_take]

theorem strncmp_gt_of_strLe {s t : List UInt8} (hst : StrLe s t) (p : List UInt8) (n : Nat)
    (h : strncmp p t n = .gt) : strncmp p s n = .gt := by
  rw [strncmp, strcmp_gt_iff_lt] at h ⊢
  exact strcmp_trans_lt (strLe_take hst n) (by simp [StrLe, h]) (.inr h)

theorem strncmp_lt_of_strLe {s t : List UInt8} (hst : StrLe s t) (p : List UInt8) (n : Nat)
    (h : strncmp p s n = .lt) : strncmp p t n = .lt := by
  rw [strncmp] at h ⊢
  exact strcmp_trans_lt (by simp [StrLe, h]) (strLe_take hst n) (.inl h)

/-- The C string stored at `start` of a buffer of which `fuel` bytes remain. The model
stops at the end of the buffer where the C code would read on past it. -/
def cstrAt (buf : Nat → UInt8) (start : Nat) : Nat → List UInt8
  | 0 => []
  | fuel + 1 => if buf start = 0 then [] else buf start :: cstrAt buf (start + 1) fuel

theorem cstrAt_no_nul (buf : Nat → UInt8) (start fuel : Nat) : ∀ b ∈ cstrAt buf start fuel, b ≠ 0 := by
  induction fuel generalizing start with
  | zero => simp [cstrAt]
  | succ fuel ih =>
    simp only [cstrAt]
    split_ifs with h
    · simp
    · simpa [h] using ih (start + 1)

/-- `strncpy(dst, src, n)`: the first `n` bytes of `src`, padded with NULs to `n`. -/
def strncpy (src : List UInt8) (n : Nat) : List UInt8 :=
  src.take n ++ List.replicate (n - src.length) 0

@[simp] theorem length_strncpy (src : List UInt8) (n : Nat) : (strncpy src n).length = n := by
  simp [strncpy]; omega

end Gsd
