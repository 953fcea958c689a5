import TrumpCoin.Lib.Codec

/-!
# Wire formats of integers and vectors (`serialize.h`)

* `compactSize`: `WriteCompactSize` / `ReadCompactSize`, with the reader's refusal of non-canonical
  forms and of sizes above `MAX_SIZE`;
* `varInt`: `WriteVarInt` / `ReadVarInt` for an unsigned type of `w` bits;
* little-endian integers, the two's complement `int`, and vectors with a compact size in front.
-/

namespace TrumpCoin

open Lib

def MAX_SIZE : Nat := 0x02000000

/-! ## Compact sizes -/

def writeCompactSize (nSize : Nat) : Bytes :=
  if nSize < 253 then [UInt8.ofNat nSize]
  else if nSize ≤ 0xffff then 253 :: Codec.leBytes 2 nSize
  else if nSize ≤ 0xffffffff then 254 :: Codec.leBytes 4 nSize
  else 255 :: Codec.leBytes 8 nSize

/-- `ReadCompactSize` before its range check: a size must use the shortest form. -/
def readCompactSizeForm : Bytes → Option (Nat × Bytes)
  | [] => none
  | chSize :: bs =>
    if chSize < 253 then some (chSize.toNat, bs)
    else if chSize = 253 then ((Codec.leNat 2).guard (253 ≤ ·)).read bs
    else if chSize = 254 then ((Codec.leNat 4).guard (0x10000 ≤ ·)).read bs
    else ((Codec.leNat 8).guard (0x100000000 ≤ ·)).read bs

/-- `ReadCompactSize` with `range_check`. -/
def readCompactSize (bs : Bytes) : Option (Nat × Bytes) :=
  (readCompactSizeForm bs).filter fun r => r.1 ≤ MAX_SIZE

theorem readCompactSizeForm_write {n : Nat} (h : n < 2 ^ 64) (rest : Bytes) :
    readCompactSizeForm (writeCompactSize n ++ rest) = some (n, rest) := by
  unfold writeCompactSize
  split
  · rename_i hlt
    have hb : (UInt8.ofNat n).toNat = n := by rw [UInt8.toNat_ofNat']; omega
    have hltb : UInt8.ofNat n < 253 := by rw [UInt8.lt_iff_toNat_lt, hb]; exact hlt
    rw [List.singleton_append, readCompactSizeForm, if_pos hltb, hb]
  split
  · refine ((Codec.leNat 2).guard (253 ≤ ·)).read_write n ⟨?_, by omega⟩ rest
    show n < 256 ^ 2; omega
  split
  · refine ((Codec.leNat 4).guard (0x10000 ≤ ·)).read_write n ⟨?_, by omega⟩ rest
    show n < 256 ^ 4; omega
  · refine ((Codec.leNat 8).guard (0x100000000 ≤ ·)).read_write n ⟨?_, by omega⟩ rest
    show n < 256 ^ 8; omega

def compactSize : Codec Nat where
  write := writeCompactSize
  read := readCompactSize
  valid n := n ≤ MAX_SIZE
  read_write n h rest := by
    rw [readCompactSize, readCompactSizeForm_write (Nat.lt_of_le_of_lt h (by decide)) rest,
      Option.filter_some_pos (by simpa using h)]
  read_valid bs n rest h := by simpa using (Option.filter_eq_some_iff.mp h).2

theorem readCompactSize_write_of_lt {n : Nat} (h : MAX_SIZE < n) (h64 : n < 2 ^ 64) (rest : Bytes) :
    readCompactSize (writeCompactSize n ++ rest) = none := by
  rw [readCompactSize, readCompactSizeForm_write h64, Option.filter_some_neg (by simpa using h)]

theorem canonical_compactSize : Codec.Canonical compactSize := by
  intro bs n rest hread
  obtain ⟨hform, -⟩ := Option.filter_eq_some_iff.mp hread
  cases bs with
  | nil => cases hform
  | cons chSize bs =>
    have hwrite : ∀ {k : Nat} {lo : Nat}, ((Codec.leNat k).guard (lo ≤ ·)).read bs = some (n, rest) →
        n < 256 ^ k ∧ lo ≤ n ∧ Codec.leBytes k n ++ rest = bs := by
      intro k lo hk
      obtain ⟨hlt, hlo⟩ := ((Codec.leNat k).guard (lo ≤ ·)).read_valid _ _ _ hk
      have hbytes := ((Codec.canonical_leNat k).guard (lo ≤ ·)) _ _ _ hk
      refine ⟨hlt, hlo, ?_⟩
      rw [← hbytes]
      exact congrArg (· ++ rest) (List.flatMap_singleton' _).symm
    show writeCompactSize n ++ rest = chSize :: bs
    rw [readCompactSizeForm] at hform
    split at hform
    · rename_i hlt
      cases hform
      have hnat : chSize.toNat < 253 := UInt8.lt_iff_toNat_lt.mp hlt
      rw [writeCompactSize, if_pos hnat, UInt8.ofNat_toNat]
      rfl
    · split at hform
      · rename_i heq
        obtain ⟨hlt, hlo, hbytes⟩ := hwrite hform
        rw [writeCompactSize, if_neg (by omega), if_pos (by omega), List.cons_append, hbytes, heq]
      · split at hform
        · rename_i heq
          obtain ⟨hlt, hlo, hbytes⟩ := hwrite hform
          rw [writeCompactSize, if_neg (by omega), if_neg (by omega), if_pos (by omega), List.cons_append, hbytes, heq]
        · rename_i h1 h2 h3
          obtain ⟨hlt, hlo, hbytes⟩ := hwrite hform
          have heq : chSize = 255 := by
            rw [UInt8.lt_iff_toNat_lt] at h1
            rw [← UInt8.toNat_inj] at h2 h3 ⊢
            have := chSize.toNat_lt
            change ¬chSize.toNat < 253 at h1
            change ¬chSize.toNat = 253 at h2
            change ¬chSize.toNat = 254 at h3
            show chSize.toNat = 255
            omega
          rw [writeCompactSize, if_neg (by omega), if_neg (by omega), if_neg (by omega), List.cons_append, hbytes, heq]

/-! ## Variable-length integers -/

/-- The loop of `WriteVarInt`. `fuel` is the length of its buffer; the digits are prepended, so that the
result is in the order they are written. `more` is the flag set on every digit but the last. -/
def writeVarIntLoop : (fuel : Nat) → (n : Nat) → (more : Nat) → Bytes → Bytes
  | 0, _, _, out => out
  | fuel + 1, n, more, out =>
    let out := UInt8.ofNat (n % 128 + more) :: out
    if n ≤ 0x7f then out else writeVarIntLoop fuel (n / 128 - 1) 0x80 out

def writeVarInt (w n : Nat) : Bytes := writeVarIntLoop ((w + 6) / 7) n 0 []

/-- The loop of `ReadVarInt` for a type whose largest value is `max`. -/
def readVarIntLoop (max : Nat) : (n : Nat) → Bytes → Option (Nat × Bytes)
  | _, [] => none
  | n, chData :: bs =>
    if max / 128 < n then none
    else
      let n := n * 128 + chData.toNat % 128
      if 0x80 ≤ chData.toNat then
        if n = max then none else readVarIntLoop max (n + 1) bs
      else some (n, bs)

def readVarInt (w : Nat) (bs : Bytes) : Option (Nat × Bytes) := readVarIntLoop (2 ^ w - 1) 0 bs

theorem readVarIntLoop_digit {max acc n more : Nat} (out : Bytes) (hacc : acc ≤ max / 128)
    (hn : acc * 128 + n % 128 = n) (hmore : more = 0 ∨ more = 0x80 ∧ n < max) :
    readVarIntLoop max acc (UInt8.ofNat (n % 128 + more) :: out) =
      if more = 0 then some (n, out) else readVarIntLoop max (n + 1) out := by
  have hbyte : (UInt8.ofNat (n % 128 + more)).toNat = n % 128 + more := by
    rw [UInt8.toNat_ofNat']; omega
  rw [readVarIntLoop, if_neg (by omega), hbyte]
  rcases hmore with rfl | ⟨rfl, hlt⟩
  · have hmod : acc * 128 + (n % 128 + 0) % 128 = n := by omega
    simp only [hmod]
    rw [if_neg (by omega)]; rfl
  · have hmod : acc * 128 + (n % 128 + 128) % 128 = n := by omega
    simp only [hmod]
    rw [if_pos (by omega), if_neg (by omega), if_neg (by decide)]

variable {max : Nat}

/-- Reading back the digits of `n`: with the continuation flag on its last digit the reader goes on from
`n + 1`, without it the number is complete. -/
theorem readVarIntLoop_write (hmax : 127 ≤ max) : ∀ fuel n more out,
    n ≤ max → n < 128 ^ (fuel + 1) → (more = 0 ∨ more = 0x80 ∧ n < max) →
    readVarIntLoop max 0 (writeVarIntLoop (fuel + 1) n more out) =
      if more = 0 then some (n, out) else readVarIntLoop max (n + 1) out := by
  intro fuel
  induction fuel with
  | zero =>
    intro n more out _ hfuel hmore
    rw [writeVarIntLoop, if_pos (by omega)]
    exact readVarIntLoop_digit out (Nat.zero_le _) (by omega) hmore
  | succ fuel ih =>
    intro n more out hn hfuel hmore
    rw [writeVarIntLoop]
    split
    · exact readVarIntLoop_digit out (Nat.zero_le _) (by omega) hmore
    · have hdiv : n / 128 < 128 ^ (fuel + 1) := by
        rw [Nat.div_lt_iff_lt_mul (by decide)]; rwa [Nat.pow_succ] at hfuel
      rw [ih (n / 128 - 1) 0x80 _ (by omega) (by omega) (.inr ⟨rfl, by omega⟩),
        if_neg (by decide), Nat.sub_add_cancel (by omega)]
      exact readVarIntLoop_digit out (Nat.div_le_div_right hn) (by omega) hmore

theorem readVarIntLoop_append : ∀ n bs rest r, readVarIntLoop max n bs = some r →
    readVarIntLoop max n (bs ++ rest) = some (r.1, r.2 ++ rest)
  | n, [], _, _, h => by cases h
  | n, chData :: bs, rest, r, h => by
    simp only [List.cons_append, readVarIntLoop] at h ⊢
    split at h
    · cases h
    · rename_i hle
      rw [if_neg hle]
      split at h
      · rename_i hflag
        rw [if_pos hflag]
        split at h
        · cases h
        · rename_i hne
          rw [if_neg hne]
          exact readVarIntLoop_append _ bs rest r h
      · rename_i hflag
        rw [if_neg hflag]
        cases h
        rfl

theorem readVarIntLoop_le (hmax : max % 128 = 127) : ∀ n bs r rest,
    readVarIntLoop max n bs = some (r, rest) → r ≤ max
  | n, [], _, _, h => by cases h
  | n, chData :: bs, r, rest, h => by
    simp only [readVarIntLoop] at h
    split at h
    · cases h
    · split at h
      · split at h
        · cases h
        · exact readVarIntLoop_le hmax _ bs r rest h
      · cases h
        omega

theorem two_pow_sub_one_mod {w : Nat} (h : 7 ≤ w) : (2 ^ w - 1) % 128 = 127 := by
  obtain ⟨k, rfl⟩ := Nat.exists_eq_add_of_le h
  have : 0 < 2 ^ k := Nat.two_pow_pos k
  rw [Nat.pow_add]
  omega

theorem two_pow_le_buffer (w : Nat) : 2 ^ w ≤ 128 ^ ((w + 6) / 7) := by
  rw [show (128 : Nat) = 2 ^ 7 from rfl, ← Nat.pow_mul]
  exact Nat.pow_le_pow_right (by decide) (by omega)

theorem varInt_width_64 : 7 ≤ 64 := by decide

/-- An unsigned number of `w` bits in variable length. -/
def varInt (w : Nat) (hw : 7 ≤ w) : Codec Nat where
  write := writeVarInt w
  read := readVarInt w
  valid n := n < 2 ^ w
  read_write n hn rest := by
    obtain ⟨fuel, hfuel⟩ : ∃ fuel, (w + 6) / 7 = fuel + 1 := ⟨(w + 6) / 7 - 1, by omega⟩
    have hbuf : n < 128 ^ (fuel + 1) := hfuel ▸ lt_of_lt_of_le hn (two_pow_le_buffer w)
    have hmax : 127 ≤ 2 ^ w - 1 := (two_pow_sub_one_mod hw) ▸ Nat.mod_le _ _
    have := readVarIntLoop_write hmax fuel n 0 [] (by omega) hbuf (.inl rfl)
    rw [if_pos rfl] at this
    rw [readVarInt, writeVarInt, hfuel, readVarIntLoop_append _ _ _ _ this]
    rfl
  read_valid bs n rest h := by
    have := readVarIntLoop_le (two_pow_sub_one_mod hw) 0 bs n rest h
    have : 0 < 2 ^ w := Nat.two_pow_pos w
    omega

/-! ## Fixed-width integers and vectors -/

/-- An unsigned little-endian integer of `8 * n` bits. -/
def uintLE (n : Nat) : Codec (BitVec (8 * n)) :=
  Codec.bits (Codec.leNat n) (8 * n) fun x => by rw [Nat.pow_mul]; exact Iff.rfl

/-- An opaque blob of `n` bytes, read as a number with its first byte most significant. -/
def blob (n : Nat) : Codec (BitVec (8 * n)) :=
  Codec.bits (Codec.beNat n) (8 * n) fun x => by rw [Nat.pow_mul]; exact Iff.rfl

theorem length_write_blob (n : Nat) (x : BitVec (8 * n)) : ((blob n).write x).length = n := by
  show (((Codec.leBytes n x.toNat).reverse).flatMap fun b => [b]).length = n
  simp [Codec.length_leBytes]

theorem length_write_uintLE (n : Nat) (x : BitVec (8 * n)) : ((uintLE n).write x).length = n := by
  show ((Codec.leBytes n x.toNat).flatMap fun b => [b]).length = n
  simp [Codec.length_leBytes]

/-- The values of a C++ `int`. -/
def IsInt (x : Int) : Prop := -2 ^ 31 ≤ x ∧ x < 2 ^ 31

/-- A C++ `int`: four little-endian bytes in two's complement. -/
def int32LE : Codec Int :=
  (uintLE 4).imap BitVec.toInt (BitVec.ofInt 32) IsInt
    (fun x hx => ⟨trivial, BitVec.toInt_ofInt_eq_self (by decide) hx.1 hx.2⟩)
    (fun b _ => ⟨b.le_toInt, b.toInt_lt⟩)

/-- A vector: its compact size, then its elements. -/
def vector {α : Type} (c : Codec α) : Codec (List α) := Codec.vector compactSize c

theorem vector_read_of_lt {α : Type} {c : Codec α} {l : List α} (h : MAX_SIZE < l.length) (h64 : l.length < 2 ^ 64)
    (rest : Bytes) : (vector c).read ((vector c).write l ++ rest) = none :=
  Codec.vector_read_eq_none fun rest => readCompactSize_write_of_lt h h64 rest

/-- A byte vector (`std::vector<unsigned char>`, `CScript`). -/
def byteVector : Codec Bytes := vector Codec.byte

theorem canonical_uintLE (n : Nat) : (uintLE n).Canonical := (Codec.canonical_leNat n).bits _

theorem canonical_blob (n : Nat) : (blob n).Canonical := (Codec.canonical_beNat n).bits _

theorem canonical_vector {α : Type} {c : Codec α} (h : c.Canonical) : (vector c).Canonical :=
  canonical_compactSize.vector h

theorem canonical_byteVector : byteVector.Canonical := canonical_vector Codec.canonical_byte

end TrumpCoin
