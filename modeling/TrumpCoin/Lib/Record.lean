import TrumpCoin.Lib.Codec

/-!
# Records given by their fields

A record type with a list of fields, each with its accessor, its update, its byte format and its bit in a mask.
From the list come the format of the whole record (`Record.codec`), the difference of two records as a mask and the
changed fields (`Record.diff`), its format (`Record.diffCodec`) and its application (`Record.apply`).

* `Record.apply_diff`: applying the difference of `a` and `b` to `a` gives `b`;
* `Record.diff_fields_eq_zero`: the mask is empty exactly when the records are equal.
-/

namespace Lib

variable {σ : Type} {w : Nat}

structure Field (σ : Type) (w : Nat) where
  type : Type
  [decEq : DecidableEq type]
  mask : BitVec w
  codec : Codec type
  get : σ → type
  set : type → σ → σ
  get_set : ∀ v s, get (set v s) = v

attribute [instance] Field.decEq

/-- Updating one field leaves the other alone. -/
def Field.Independent (f g : Field σ w) : Prop :=
  (∀ v s, g.get (f.set v s) = g.get s) ∧ ∀ v s, f.get (g.set v s) = f.get s

structure Record (σ : Type) (w : Nat) where
  fields : List (Field σ w)
  independent : fields.Pairwise Field.Independent
  disjoint : fields.Pairwise fun f g => f.mask &&& g.mask = 0
  mask_ne : ∀ f ∈ fields, f.mask ≠ 0
  ext : ∀ a b, (∀ f ∈ fields, f.get a = f.get b) → a = b

/-! ## Selected fields -/

namespace Field

variable {sel : Field σ w → Bool} {fs : List (Field σ w)} {f : Field σ w} {src dst : σ}

variable (sel fs src dst) in
def copy : σ :=
  fs.foldl (fun s f => if sel f then f.set (f.get src) s else s) dst

variable (sel fs) in
def writeSel (s : σ) : Bytes :=
  fs.flatMap fun f => if sel f then f.codec.write (f.get s) else []

def readSel (sel : Field σ w → Bool) : List (Field σ w) → σ → Bytes → Option (σ × Bytes)
  | [], s, bs => some (s, bs)
  | f :: fs, s, bs =>
    if sel f then (f.codec.read bs).bind fun r => readSel sel fs (f.set r.1 s) r.2 else readSel sel fs s bs

theorem get_copy_of_independent : ∀ {fs : List (Field σ w)} {dst : σ}, (∀ g ∈ fs, f.Independent g) →
    f.get (copy sel fs src dst) = f.get dst
  | [], _, _ => rfl
  | g :: fs, dst, h => by
    rw [copy, List.foldl_cons]
    refine (get_copy_of_independent fun g' hg' => h g' (List.mem_cons_of_mem g hg')).trans ?_
    split
    · exact (h g List.mem_cons_self).2 _ _
    · rfl

theorem get_copy : ∀ {fs : List (Field σ w)} {dst : σ}, fs.Pairwise Independent → f ∈ fs →
    f.get (copy sel fs src dst) = if sel f then f.get src else f.get dst
  | g :: fs, dst, hind, hf => by
    rw [List.pairwise_cons] at hind
    rw [copy, List.foldl_cons]
    rcases List.mem_cons.mp hf with rfl | hf
    · refine (get_copy_of_independent hind.1).trans ?_
      split
      · exact f.get_set _ _
      · rfl
    · refine (get_copy hind.2 hf).trans ?_
      congr 1
      split
      · exact (hind.1 f hf).1 _ _
      · rfl

theorem readSel_writeSel : ∀ {fs : List (Field σ w)} {dst : σ}, (∀ f ∈ fs, sel f = true → f.codec.valid (f.get src)) →
    ∀ rest, readSel sel fs dst (writeSel sel fs src ++ rest) = some (copy sel fs src dst, rest)
  | [], _, _, _ => rfl
  | f :: fs, dst, h, rest => by
    have ih : ∀ dst', readSel sel fs dst' (writeSel sel fs src ++ rest) = some (copy sel fs src dst', rest) :=
      fun dst' => readSel_writeSel (fun g hg => h g (List.mem_cons_of_mem f hg)) rest
    rw [writeSel, List.flatMap_cons, readSel, copy, List.foldl_cons]
    split_ifs with hsel
    · rw [List.append_assoc, f.codec.read_write _ (h f List.mem_cons_self hsel), Option.bind_some]
      exact ih _
    · exact ih _

theorem get_readSel_of_independent : ∀ {fs : List (Field σ w)} {s s' : σ} {bs rest : Bytes},
    (∀ g ∈ fs, f.Independent g) → readSel sel fs s bs = some (s', rest) → f.get s' = f.get s
  | [], _, _, _, _, _, h => by cases h; rfl
  | g :: fs, s, s', bs, rest, hind, h => by
    have hind' := fun g' hg' => hind g' (List.mem_cons_of_mem g hg')
    rw [readSel] at h
    split at h
    · obtain ⟨r, _, hr⟩ := Option.bind_eq_some_iff.mp h
      exact (get_readSel_of_independent hind' hr).trans ((hind g List.mem_cons_self).2 _ _)
    · exact get_readSel_of_independent hind' h

theorem readSel_valid : ∀ {fs : List (Field σ w)} {s s' : σ} {bs rest : Bytes}, fs.Pairwise Independent →
    readSel sel fs s bs = some (s', rest) →
    ∀ f ∈ fs, if sel f then f.codec.valid (f.get s') else f.get s' = f.get s
  | g :: fs, s, s', bs, rest, hind, h, f, hf => by
    rw [List.pairwise_cons] at hind
    rw [readSel] at h
    rcases List.mem_cons.mp hf with rfl | hf
    · split_ifs at h with hsel
      · obtain ⟨r, hread, hr⟩ := Option.bind_eq_some_iff.mp h
        rw [if_pos hsel, get_readSel_of_independent hind.1 hr, f.get_set]
        exact f.codec.read_valid _ _ _ hread
      · rw [if_neg hsel]
        exact get_readSel_of_independent hind.1 h
    · split at h
      · obtain ⟨r, _, hr⟩ := Option.bind_eq_some_iff.mp h
        have := readSel_valid hind.2 hr f hf
        rwa [(hind.1 f hf).1] at this
      · exact readSel_valid hind.2 h f hf

end Field

/-! ## Masks -/

namespace Field

variable {sel : Field σ w → Bool} {f : Field σ w}

def flagged (m : BitVec w) (f : Field σ w) : Bool := m &&& f.mask ≠ 0

def maskOf (sel : Field σ w → Bool) (fs : List (Field σ w)) (m : BitVec w) : BitVec w :=
  fs.foldl (fun m f => if sel f then m ||| f.mask else m) m

theorem or_mask_and {m m' k : BitVec w} (h : k &&& m' = 0) : (m ||| m') &&& k = m &&& k := by
  rw [BitVec.and_comm, BitVec.and_or_distrib_left, h, BitVec.and_comm]
  exact BitVec.or_zero

theorem maskOf_and_of_disjoint : ∀ {fs : List (Field σ w)} {m : BitVec w}, (∀ g ∈ fs, f.mask &&& g.mask = 0) →
    maskOf sel fs m &&& f.mask = m &&& f.mask
  | [], _, _ => rfl
  | g :: fs, m, h => by
    rw [maskOf, List.foldl_cons]
    refine (maskOf_and_of_disjoint fun g' hg' => h g' (List.mem_cons_of_mem g hg')).trans ?_
    split
    · exact or_mask_and (h g List.mem_cons_self)
    · rfl

theorem flagged_maskOf : ∀ {fs : List (Field σ w)} {m : BitVec w}, fs.Pairwise (fun f g => f.mask &&& g.mask = 0) →
    f ∈ fs → f.mask ≠ 0 → m &&& f.mask = 0 → flagged (maskOf sel fs m) f = sel f
  | g :: fs, m, hdis, hf, hne, hm => by
    rw [List.pairwise_cons] at hdis
    rw [maskOf, List.foldl_cons]
    rcases List.mem_cons.mp hf with rfl | hf
    · have hrest : maskOf sel fs (if sel f then m ||| f.mask else m) &&& f.mask =
          (if sel f then m ||| f.mask else m) &&& f.mask := maskOf_and_of_disjoint hdis.1
      rw [← maskOf, flagged, hrest]
      cases sel f with
      | true =>
        rw [if_pos rfl, BitVec.and_comm, BitVec.and_or_distrib_left, BitVec.and_self, BitVec.and_comm, hm]
        simpa using hne
      | false => simpa using hm
    · refine flagged_maskOf hdis.2 hf hne ?_
      split
      · rw [or_mask_and, hm]
        rw [BitVec.and_comm]
        exact hdis.1 f hf
      · exact hm

end Field

/-! ## Records and differences -/

/-- The changed fields of a record, as noted by a mask. -/
structure Diff (σ : Type) (w : Nat) where
  fields : BitVec w
  state : σ
deriving DecidableEq

namespace Record

open Lib.Field

variable (r : Record σ w) (dflt : σ)

def codec : Codec σ where
  write := writeSel (fun _ => true) r.fields
  read := readSel (fun _ => true) r.fields dflt
  valid s := ∀ f ∈ r.fields, f.codec.valid (f.get s)
  read_write s hs rest := by
    rw [readSel_writeSel fun f hf _ => hs f hf]
    congr 2
    exact r.ext _ _ fun f hf => get_copy r.independent hf
  read_valid bs s rest h f hf := readSel_valid r.independent h f hf

/-- The format of a difference: the mask, then the fields it notes. -/
def diffCodec (mask : Codec (BitVec w)) : Codec (Diff σ w) where
  write d := mask.write d.fields ++ writeSel (flagged d.fields) r.fields d.state
  read bs := (mask.read bs).bind fun m =>
    (readSel (flagged m.1) r.fields dflt m.2).map fun s => (⟨m.1, s.1⟩, s.2)
  valid d := mask.valid d.fields ∧ ∀ f ∈ r.fields,
    if flagged d.fields f then f.codec.valid (f.get d.state) else f.get d.state = f.get dflt
  read_write d hd rest := by
    have hcopy : copy (flagged d.fields) r.fields d.state dflt = d.state := r.ext _ _ fun f hf => by
      rw [get_copy r.independent hf]
      split_ifs with hflag
      · rfl
      · have := hd.2 f hf
        rw [if_neg hflag] at this
        exact this.symm
    rw [List.append_assoc, mask.read_write _ hd.1, Option.bind_some,
      readSel_writeSel fun f hf hflag => by simpa only [hflag, if_true] using hd.2 f hf, Option.map_some, hcopy]
  read_valid bs d rest h := by
    obtain ⟨m, hm, hs⟩ := Option.bind_eq_some_iff.mp h
    obtain ⟨s, hread, he⟩ := Option.map_eq_some_iff.mp hs
    obtain ⟨rfl, rfl⟩ := Prod.mk.inj he
    exact ⟨mask.read_valid _ _ _ hm, readSel_valid r.independent hread⟩

/-- The difference from `a` to `b`: one step for each field. -/
def diff (a b : σ) : Diff σ w :=
  r.fields.foldl (fun d f => if f.get a = f.get b then d else ⟨d.fields ||| f.mask, f.set (f.get b) d.state⟩)
    ⟨0, dflt⟩

def apply (d : Diff σ w) (target : σ) : σ :=
  r.fields.foldl (fun s f => if flagged d.fields f then f.set (f.get d.state) s else s) target

variable {r dflt} {a b : σ}

theorem diff_eq : r.diff dflt a b =
    ⟨maskOf (fun f => f.get a ≠ f.get b) r.fields 0, copy (fun f => f.get a ≠ f.get b) r.fields b dflt⟩ := by
  have : ∀ (fs : List (Field σ w)) (d : Diff σ w),
      fs.foldl (fun d f => if f.get a = f.get b then d else ⟨d.fields ||| f.mask, f.set (f.get b) d.state⟩) d =
      ⟨maskOf (fun f => f.get a ≠ f.get b) fs d.fields, copy (fun f => f.get a ≠ f.get b) fs b d.state⟩ := by
    intro fs
    induction fs with
    | nil => intro d; rfl
    | cons f fs ih =>
      intro d
      rw [List.foldl_cons, ih]
      by_cases h : f.get a = f.get b <;> simp [maskOf, copy, h]
  exact this r.fields ⟨0, dflt⟩

theorem flagged_diff {f : Field σ w} (hf : f ∈ r.fields) :
    flagged (r.diff dflt a b).fields f = decide (f.get a ≠ f.get b) := by
  rw [diff_eq]
  exact flagged_maskOf r.disjoint hf (r.mask_ne f hf) BitVec.zero_and

theorem get_diff {f : Field σ w} (hf : f ∈ r.fields) :
    f.get (r.diff dflt a b).state = if f.get a = f.get b then f.get dflt else f.get b := by
  rw [diff_eq, get_copy r.independent hf]
  by_cases h : f.get a = f.get b <;> simp [h]

theorem apply_diff : r.apply (r.diff dflt a b) a = b := by
  refine r.ext _ _ fun f hf => ?_
  refine (get_copy r.independent hf).trans ?_
  rw [flagged_diff hf, get_diff hf]
  by_cases h : f.get a = f.get b <;> simp [h]

theorem diff_fields_eq_zero : (r.diff dflt a b).fields = 0 ↔ a = b := by
  constructor
  · intro hzero
    refine r.ext _ _ fun f hf => ?_
    have hflag : flagged (r.diff dflt a b).fields f = decide (f.get a ≠ f.get b) := flagged_diff hf
    rw [hzero] at hflag
    simp_all [flagged]
  · rintro rfl
    have : ∀ fs : List (Field σ w), maskOf (fun f => f.get a ≠ f.get a) fs 0 = 0 := by
      intro fs
      induction fs with
      | nil => rfl
      | cons f fs ih => simpa [maskOf] using ih
    rw [diff_eq, this]

theorem diff_valid {mask : Codec (BitVec w)} (hmask : ∀ m, mask.valid m)
    (hb : ∀ f ∈ r.fields, f.codec.valid (f.get b)) : (r.diffCodec dflt mask).valid (r.diff dflt a b) := by
  refine ⟨hmask _, fun f hf => ?_⟩
  rw [flagged_diff hf, get_diff hf]
  by_cases h : f.get a = f.get b
  · simp [h]
  · simpa [h] using hb f hf

end Record

end Lib
