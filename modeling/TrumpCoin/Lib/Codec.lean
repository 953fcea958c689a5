import Mathlib.Algebra.Order.Ring.Int
import Mathlib.Tactic.Common

/-!
# Byte formats

A `Codec` is a writer, a reader that takes its value from the front of a byte string, the set of values
the format can hold, and the two laws that tie them together: what was written is read back, whatever
follows it, and whatever is read could have been written. Formats are assembled from the combinators
below in the order of the bytes, so that both laws come for free.
-/

namespace Lib

abbrev Bytes := List UInt8

/-- A byte format for the values that satisfy `valid`. -/
structure Codec (α : Type) where
  write : α → Bytes
  read : Bytes → Option (α × Bytes)
  valid : α → Prop
  read_write : ∀ a, valid a → ∀ rest, read (write a ++ rest) = some (a, rest)
  read_valid : ∀ bs a rest, read bs = some (a, rest) → valid a

namespace Codec

variable {α β : Type}
variable {c : Codec α} {a : α} {d : Codec β} {b : β} {f : α → β} {g : β → α} {bs rest : Bytes}

theorem read_write_nil (c : Codec α) (h : c.valid a) : c.read (c.write a) = some (a, []) := by
  simpa using c.read_write a h []

theorem append_inj (c : Codec α) {a b : α} {r r' : Bytes} (ha : c.valid a) (hb : c.valid b)
    (h : c.write a ++ r = c.write b ++ r') : a = b ∧ r = r' := by
  have := c.read_write a ha r
  rw [h, c.read_write b hb] at this
  cases this
  exact ⟨rfl, rfl⟩

theorem write_injective (c : Codec α) {a b : α} (ha : c.valid a) (hb : c.valid b)
    (h : c.write a = c.write b) : a = b :=
  (c.append_inj ha hb (congrArg (· ++ []) h)).1

/-- A value takes at least one byte. -/
def Proper (c : Codec α) : Prop := ∀ a, c.write a ≠ []

/-- A list of such values needs no count before it. -/
theorem flatMap_inj (c : Codec α) (hne : c.Proper) {l l' : List α} (hl : ∀ a ∈ l, c.valid a)
    (hl' : ∀ a ∈ l', c.valid a) (h : l.flatMap c.write = l'.flatMap c.write) : l = l' := by
  induction l generalizing l' with
  | nil =>
    cases l' with
    | nil => rfl
    | cons b l' => exact absurd (List.append_eq_nil_iff.mp h.symm).1 (hne b)
  | cons a l ih =>
    cases l' with
    | nil => exact absurd (List.append_eq_nil_iff.mp h).1 (hne a)
    | cons b l' =>
      rw [List.forall_mem_cons] at hl hl'
      obtain ⟨rfl, hrest⟩ := c.append_inj hl.1 hl'.1 h
      rw [ih hl.2 hl'.2 hrest]

/-! ## Changing the value type -/

variable (c f g) in
/-- Present the values of `c` in another type. -/
def imap (valid : β → Prop)
    (hg : ∀ b, valid b → c.valid (g b) ∧ f (g b) = b) (hf : ∀ a, c.valid a → valid (f a)) : Codec β where
  write b := c.write (g b)
  read bs := (c.read bs).map fun r => (f r.1, r.2)
  valid := valid
  read_write b hb rest := by rw [c.read_write _ (hg b hb).1, Option.map_some, (hg b hb).2]
  read_valid bs b rest h := by
    obtain ⟨⟨a, r⟩, hr, he⟩ := Option.map_eq_some_iff.mp h
    cases he
    exact hf a (c.read_valid _ _ _ hr)

variable (c f g) in
/-- Present the values of `c` in an equivalent type. -/
def iso (hgf : ∀ a, g (f a) = a) (hfg : ∀ b, f (g b) = b) : Codec β :=
  c.imap f g (fun b => c.valid (g b)) (fun b hb => ⟨hb, hfg b⟩) fun a ha => by rwa [hgf]

variable {hgf : ∀ a, g (f a) = a} {hfg : ∀ b, f (g b) = b}

theorem Proper.iso (h : c.Proper) : (c.iso f g hgf hfg).Proper :=
  fun b => h (g b)

/-- Reject a value that fails `p` after reading it. -/
def guard (c : Codec α) (p : α → Prop) [DecidablePred p] : Codec α where
  write := c.write
  read bs := (c.read bs).filter fun r => p r.1
  valid a := c.valid a ∧ p a
  read_write a ha rest := by rw [c.read_write a ha.1, Option.filter_some_pos (by simpa using ha.2)]
  read_valid bs a rest h := by
    obtain ⟨hr, hp⟩ := Option.filter_eq_some_iff.mp h
    exact ⟨c.read_valid _ _ _ hr, by simpa using hp⟩

/-! ## Sequences of fields -/

/-- A field followed by one whose format depends on it. -/
def dep (c : Codec α) (d : α → Codec β) : Codec (α × β) where
  write x := c.write x.1 ++ (d x.1).write x.2
  read bs := (c.read bs).bind fun r => ((d r.1).read r.2).map fun q => ((r.1, q.1), q.2)
  valid x := c.valid x.1 ∧ (d x.1).valid x.2
  read_write x hx rest := by
    rw [List.append_assoc, c.read_write _ hx.1, Option.bind_some, (d x.1).read_write _ hx.2, Option.map_some]
  read_valid bs x rest h := by
    obtain ⟨⟨a, r⟩, hr, hq⟩ := Option.bind_eq_some_iff.mp h
    obtain ⟨⟨b, q⟩, hd, he⟩ := Option.map_eq_some_iff.mp hq
    cases he
    exact ⟨c.read_valid _ _ _ hr, (d a).read_valid _ _ _ hd⟩

def pair (c : Codec α) (d : Codec β) : Codec (α × β) := c.dep fun _ => d

theorem Proper.pair (h : c.Proper) : (c.pair d).Proper := fun x => List.append_ne_nil_of_left_ne_nil (h x.1) _

theorem pair_read_eq_none_left {bs : Bytes} (h : c.read bs = none) : (c.pair d).read bs = none := by
  show (c.read bs).bind _ = none
  rw [h, Option.bind_none]

theorem pair_read_eq_none_right {rest : Bytes} (ha : c.valid a) (h : d.read (d.write b ++ rest) = none) :
    (c.pair d).read ((c.pair d).write (a, b) ++ rest) = none := by
  show (c.read ((c.write a ++ d.write b) ++ rest)).bind _ = none
  rw [List.append_assoc, c.read_write a ha, Option.bind_some, h, Option.map_none]

/-- A field that is written only when `flag` is set, and is `dflt` otherwise. -/
def optional (flag : Bool) (dflt : α) (c : Codec α) : Codec α where
  write a := if flag then c.write a else []
  read bs := if flag then c.read bs else some (dflt, bs)
  valid a := if flag then c.valid a else a = dflt
  read_write a ha rest := by
    cases flag with
    | true => exact c.read_write a ha rest
    | false => rw [show a = dflt from ha]; rfl
  read_valid bs a rest h := by
    cases flag with
    | true => exact c.read_valid bs a rest h
    | false => exact (Prod.mk.inj (Option.some.inj h)).1.symm

def readN (c : Codec α) : Nat → Bytes → Option (List α × Bytes)
  | 0, bs => some ([], bs)
  | n + 1, bs => (c.read bs).bind fun r => (readN c n r.2).map fun q => (r.1 :: q.1, q.2)

theorem readN_write (c : Codec α) : ∀ l : List α, (∀ a ∈ l, c.valid a) → ∀ rest,
    c.readN l.length (l.flatMap c.write ++ rest) = some (l, rest)
  | [], _, _ => rfl
  | a :: l, h, rest => by
    rw [List.flatMap_cons, List.append_assoc, List.length_cons, readN,
      c.read_write a (h a List.mem_cons_self), Option.bind_some,
      readN_write c l (fun b hb => h b (List.mem_cons_of_mem a hb)) rest, Option.map_some]

theorem readN_valid (c : Codec α) : ∀ n bs l rest, c.readN n bs = some (l, rest) →
    l.length = n ∧ ∀ a ∈ l, c.valid a
  | 0, bs, l, rest, h => by
    cases h
    exact ⟨rfl, nofun⟩
  | n + 1, bs, l, rest, h => by
    obtain ⟨⟨a, r⟩, hr, hq⟩ := Option.bind_eq_some_iff.mp h
    obtain ⟨⟨l', q⟩, hl, he⟩ := Option.map_eq_some_iff.mp hq
    cases he
    obtain ⟨hlen, hval⟩ := readN_valid c n r l' q hl
    exact ⟨congrArg (· + 1) hlen, List.forall_mem_cons.mpr ⟨c.read_valid _ _ _ hr, hval⟩⟩

def vecN (c : Codec α) (n : Nat) : Codec (List α) where
  write l := l.flatMap c.write
  read := c.readN n
  valid l := l.length = n ∧ ∀ a ∈ l, c.valid a
  read_write l hl rest := by rw [← hl.1]; exact c.readN_write l hl.2 rest
  read_valid := c.readN_valid n

def vector (count : Codec Nat) (c : Codec α) : Codec (List α) :=
  (count.dep c.vecN).imap Prod.snd (fun l => (l.length, l))
    (fun l => count.valid l.length ∧ ∀ a ∈ l, c.valid a)
    (fun _ hl => ⟨⟨hl.1, rfl, hl.2⟩, rfl⟩)
    (fun ⟨_, _⟩ hl => ⟨hl.2.1 ▸ hl.1, hl.2.2⟩)

theorem vector_read_eq_none {count : Codec Nat} {l : List α} {rest : Bytes}
    (h : ∀ rest, count.read (count.write l.length ++ rest) = none) :
    (vector count c).read ((vector count c).write l ++ rest) = none := by
  show ((count.read ((count.write l.length ++ l.flatMap c.write) ++ rest)).bind _).map _ = none
  rw [List.append_assoc, h, Option.bind_none, Option.map_none]

/-! ## Bytes and fixed-width integers -/

def byte : Codec UInt8 where
  write b := [b]
  read
    | [] => none
    | b :: bs => some (b, bs)
  valid _ := True
  read_write _ _ _ := rfl
  read_valid _ _ _ _ := trivial

/-- A byte that says whether there is a value, and the value. -/
def option (c : Codec α) : Codec (Option α) where
  write
    | none => [0]
    | some a => 1 :: c.write a
  read
    | [] => none
    | b :: bs => if b = 0 then some (none, bs) else (c.read bs).map fun r => (some r.1, r.2)
  valid o := ∀ a, o = some a → c.valid a
  read_write o ho rest := by
    cases o with
    | none => rfl
    | some a =>
      show (c.read (c.write a ++ rest)).map _ = some (some a, rest)
      rw [c.read_write a (ho a rfl), Option.map_some]
  read_valid bs o rest h a ho := by
    subst ho
    cases bs with
    | nil => cases h
    | cons b bs =>
      dsimp only at h
      split at h
      · cases h
      · obtain ⟨⟨a', r⟩, hr, he⟩ := Option.map_eq_some_iff.mp h
        obtain ⟨ha, rfl⟩ := Prod.mk.inj he
        cases ha
        exact c.read_valid _ _ _ hr

/-- The `n` low bytes of `x`, least significant first. -/
def leBytes : Nat → Nat → Bytes
  | 0, _ => []
  | n + 1, x => UInt8.ofNat x :: leBytes n (x / 256)

/-- The number whose bytes are given, least significant first. -/
def ofLE : Bytes → Nat
  | [] => 0
  | b :: bs => b.toNat + 256 * ofLE bs

theorem length_leBytes : ∀ n x, (leBytes n x).length = n
  | 0, _ => rfl
  | n + 1, x => congrArg (· + 1) (length_leBytes n (x / 256))

theorem ofLE_leBytes : ∀ n x, x < 256 ^ n → ofLE (leBytes n x) = x
  | 0, x, h => by simp at h; simp [leBytes, ofLE, h]
  | n + 1, x, h => by
    have hdiv : x / 256 < 256 ^ n := by
      rw [Nat.div_lt_iff_lt_mul (by decide)]; rwa [Nat.pow_succ] at h
    rw [leBytes, ofLE, ofLE_leBytes n _ hdiv, UInt8.toNat_ofNat']
    omega

theorem ofLE_lt : ∀ bs : Bytes, ofLE bs < 256 ^ bs.length
  | [] => by simp [ofLE]
  | b :: bs => by
    have := ofLE_lt bs
    have hb : b.toNat < 256 := b.toNat_lt
    rw [ofLE, List.length_cons, Nat.pow_succ]
    omega

theorem leBytes_ofLE : ∀ bs : Bytes, leBytes bs.length (ofLE bs) = bs
  | [] => rfl
  | b :: bs => by
    have hb : b.toNat < 256 := b.toNat_lt
    rw [List.length_cons, leBytes, ofLE, Nat.add_mul_div_left _ _ (by decide), Nat.div_eq_of_lt hb, Nat.zero_add,
      leBytes_ofLE bs]
    congr 1
    rw [← UInt8.toNat_inj, UInt8.toNat_ofNat']
    omega

/-- An `n`-byte number, least significant byte first. -/
def leNat (n : Nat) : Codec Nat :=
  (byte.vecN n).imap ofLE (leBytes n) (· < 256 ^ n)
    (fun x hx => ⟨⟨length_leBytes n x, fun _ _ => trivial⟩, ofLE_leBytes n x hx⟩)
    (fun bs hbs => hbs.1 ▸ ofLE_lt bs)

/-- An `n`-byte number, most significant byte first. -/
def beNat (n : Nat) : Codec Nat :=
  (byte.vecN n).imap (fun bs => ofLE bs.reverse) (fun x => (leBytes n x).reverse) (· < 256 ^ n)
    (fun x hx => ⟨⟨by rw [List.length_reverse, length_leBytes], fun _ _ => trivial⟩,
      by rw [List.reverse_reverse, ofLE_leBytes n x hx]⟩)
    (fun bs hbs => by
      have := ofLE_lt bs.reverse
      rwa [List.length_reverse, hbs.1] at this)

/-- A bit vector written as a number of `n` bytes. -/
def bits (c : Codec Nat) (w : Nat) (h : ∀ x, c.valid x ↔ x < 2 ^ w) : Codec (BitVec w) :=
  c.imap (BitVec.ofNat w) BitVec.toNat (fun _ => True)
    (fun b _ => ⟨(h _).mpr b.isLt, by simp⟩) fun _ _ => trivial

/-! ## Formats with one encoding -/

/-- The reader accepts only what the writer writes. -/
def Canonical (c : Codec α) : Prop := ∀ bs a rest, c.read bs = some (a, rest) → c.write a ++ rest = bs

theorem canonical_byte : Canonical byte := by
  intro bs b rest hread
  cases bs with
  | nil => cases hread
  | cons d bs =>
    cases hread
    rfl

theorem Canonical.imap (h : Canonical c) {valid : β → Prop} {hg : ∀ b, valid b → c.valid (g b) ∧ f (g b) = b}
    {hf : ∀ a, c.valid a → valid (f a)} (hgf : ∀ a, c.valid a → g (f a) = a) : Canonical (c.imap f g valid hg hf) := by
  intro bs b rest hread
  obtain ⟨⟨a, r⟩, hr, he⟩ := Option.map_eq_some_iff.mp hread
  cases he
  show c.write (g (f a)) ++ r = bs
  rw [hgf a (c.read_valid _ _ _ hr)]
  exact h _ _ _ hr

theorem Canonical.iso (h : Canonical c) :
    Canonical (c.iso f g hgf hfg) :=
  h.imap fun a _ => hgf a

theorem Canonical.guard (h : Canonical c) (p : α → Prop) [DecidablePred p] : Canonical (c.guard p) :=
  fun bs a rest hread => h bs a rest (Option.filter_eq_some_iff.mp hread).1

theorem read_dep {d : α → Codec β} (h : (c.dep d).read bs = some ((a, b), rest)) :
    ∃ r, c.read bs = some (a, r) ∧ (d a).read r = some (b, rest) := by
  obtain ⟨⟨a, r⟩, hr, hq⟩ := Option.bind_eq_some_iff.mp h
  obtain ⟨⟨b, q⟩, hb, he⟩ := Option.map_eq_some_iff.mp hq
  cases he
  exact ⟨r, hr, hb⟩

theorem Canonical.dep {d : α → Codec β} (hc : Canonical c) (hd : ∀ a, Canonical (d a)) : Canonical (c.dep d) := by
  intro bs x rest hread
  obtain ⟨r, hr, hb⟩ := read_dep hread
  show (c.write x.1 ++ (d x.1).write x.2) ++ rest = bs
  rw [List.append_assoc, hd x.1 _ _ _ hb]
  exact hc _ _ _ hr

theorem Canonical.pair (hc : Canonical c) (hd : Canonical d) : Canonical (c.pair d) :=
  hc.dep fun _ => hd

theorem Canonical.vecN (h : Canonical c) : ∀ n, Canonical (c.vecN n)
  | 0, bs, l, rest, hread => by
    cases hread
    rfl
  | n + 1, bs, l, rest, hread => by
    obtain ⟨⟨a, r⟩, hr, hq⟩ := Option.bind_eq_some_iff.mp hread
    obtain ⟨⟨l', q⟩, hl, he⟩ := Option.map_eq_some_iff.mp hq
    cases he
    show (c.write a ++ l'.flatMap c.write) ++ q = bs
    rw [List.append_assoc, show l'.flatMap c.write ++ q = r from h.vecN n _ _ _ hl]
    exact h _ _ _ hr

theorem Canonical.vector {count : Codec Nat} (hcount : Canonical count) (h : Canonical c) :
    Canonical (Codec.vector count c) :=
  (hcount.dep h.vecN).imap fun _ hx => Prod.ext hx.2.1 rfl

theorem canonical_leNat (n : Nat) : Canonical (leNat n) :=
  (canonical_byte.vecN n).imap fun bs hbs => hbs.1 ▸ leBytes_ofLE bs

theorem canonical_beNat (n : Nat) : Canonical (beNat n) :=
  (canonical_byte.vecN n).imap fun bs hbs => by
    rw [← hbs.1, ← List.length_reverse, leBytes_ofLE, List.reverse_reverse]

theorem Canonical.bits {c : Codec Nat} (hc : Canonical c) {w : Nat} (h : ∀ x, c.valid x ↔ x < 2 ^ w) :
    Canonical (Codec.bits c w h) :=
  hc.imap fun x hx => by rw [BitVec.toNat_ofNat, Nat.mod_eq_of_lt ((h x).mp hx)]

theorem read_iso (h : (c.iso f g hgf hfg).read bs = some (b, rest)) :
    c.read bs = some (g b, rest) := by
  obtain ⟨⟨a, r⟩, hr, he⟩ := Option.map_eq_some_iff.mp h
  cases he
  rw [hr, hgf]

/-- The byte written before an optional value. -/
def tag (o : Option α) : UInt8 := if o.isSome then 1 else 0

theorem write_option (c : Codec α) (o : Option α) : c.option.write o = tag o :: o.elim [] c.write := by
  cases o <;> rfl

/-- An optional value is absent after a zero and read after any other byte; that byte is written again if it is at most
one. -/
theorem read_option (h : Canonical c) {o : Option α} (hread : c.option.read bs = some (o, rest)) :
    ∃ d, bs = d :: (o.elim [] c.write ++ rest) ∧ (o = none ↔ d = 0) ∧ (tag o = d ↔ d ≤ 1) := by
  cases bs with
  | nil => cases hread
  | cons d bs =>
    simp only [option] at hread
    split_ifs at hread with hd
    · cases hread
      exact ⟨d, rfl, iff_of_true rfl hd, iff_of_true hd.symm (hd ▸ by decide)⟩
    · obtain ⟨⟨a, r⟩, hr, he⟩ := Option.map_eq_some_iff.mp hread
      cases he
      refine ⟨d, congrArg (d :: ·) (h _ _ _ hr).symm, iff_of_false (Option.some_ne_none a) hd, ?_⟩
      show 1 = d ↔ d ≤ 1
      rw [← UInt8.toNat_inj, UInt8.le_iff_toNat_le]
      have : d.toNat ≠ 0 := fun h0 => hd (UInt8.toNat_inj.mp h0)
      show 1 = d.toNat ↔ d.toNat ≤ 1
      omega

end Codec

end Lib
