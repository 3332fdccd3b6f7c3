/-
Records of fixed layout.

A record is written as the concatenation of its fields and read back by offsets.

* `slice` — the bytes at an offset;
* `slice_flatten` — the fields from the `j`-th on, read at their offset;
* `wordAt`, `halfAt` — little-endian words at an offset, with what they read of a record;
* `Buffer` — an array of bytes, with what is copied to its start.
-/
import Bexos.Codec
import Mathlib.Data.List.TakeDrop

namespace Bexos

variable {off : ℕ} {segs : List Bytes} {new bs : Bytes}

/-- The `len` bytes from `off` on. -/
def slice (off len : ℕ) (bs : Bytes) : Bytes := (bs.drop off).take len

def zeros (n : ℕ) : Bytes := List.replicate n 0

@[simp] theorem length_zeros (n) : (zeros n).length = n := List.length_replicate

theorem zeros_append (m n) : zeros m ++ zeros n = zeros (m + n) :=
  List.replicate_append_replicate

def wordAt (off : ℕ) (bs : Bytes) : UInt64 := UInt64.ofNat (leValue (slice off 8 bs))

def halfAt (off : ℕ) (bs : Bytes) : UInt32 := UInt32.ofNat (leValue (slice off 4 bs))

def halfBytes (w : UInt32) : Bytes := leBytes 4 w.toNat

@[simp] theorem length_halfBytes (w) : (halfBytes w).length = 4 := length_leBytes 4 _

theorem ofNat_wordBytes (w) : UInt64.ofNat (leValue (wordBytes w)) = w := by
  rw [leValue_wordBytes]
  exact UInt64.ofNat_toNat

theorem ofNat_halfBytes (w) : UInt32.ofNat (leValue (halfBytes w)) = w := by
  have hw : w.toNat < 256 ^ 4 := w.toNat_lt
  rw [halfBytes, leValue_leBytes, Nat.mod_eq_of_lt hw]
  exact UInt32.ofNat_toNat

variable {len k : ℕ}

/-- The `m` fields of a record after the first `j`. -/
theorem slice_flatten (j m : ℕ) (hoff : (segs.take j).flatten.length = off)
    (hlen : ((segs.drop j).take m).flatten.length = len) :
    slice off len segs.flatten = ((segs.drop j).take m).flatten := by
  have hsegs : segs.flatten = (segs.take j).flatten ++
      (((segs.drop j).take m).flatten ++ ((segs.drop j).drop m).flatten) := by
    rw [← List.flatten_append, List.take_append_drop, ← List.flatten_append,
      List.take_append_drop]
  rw [slice, hsegs, List.drop_left' hoff, List.take_left' hlen]

/-- The end of a slice. -/
theorem slice_add (off skip len : ℕ) (bs : Bytes) :
    slice (off + skip) (len - skip) bs = (slice off len bs).drop skip := by
  rw [slice, slice, List.drop_take, List.drop_drop]

/-- The `k`-th field. -/
theorem slice_field {seg} (hk : segs[k]? = some seg) (hoff : (segs.take k).flatten.length = off)
    (hlen : seg.length = len) : slice off len segs.flatten = seg := by
  have hseg : ((segs.drop k).take 1).flatten = seg := by
    obtain ⟨hlt, rfl⟩ := getElem?_eq_some_iff.mp hk
    rw [List.drop_eq_getElem_cons hlt]
    exact List.append_nil _
  rw [slice_flatten k 1 hoff (hseg ▸ hlen), hseg]

theorem wordAt_field {w} (hk : segs[k]? = some (wordBytes w))
    (hoff : (segs.take k).flatten.length = off) : wordAt off segs.flatten = w := by
  rw [wordAt, slice_field hk hoff (length_wordBytes w), ofNat_wordBytes]

theorem halfAt_field {w} (hk : segs[k]? = some (halfBytes w))
    (hoff : (segs.take k).flatten.length = off) : halfAt off segs.flatten = w := by
  rw [halfAt, slice_field hk hoff (length_halfBytes w), ofNat_halfBytes]

/-! ### Buffers -/

/-- An array of bytes. -/
abbrev Buffer (size : ℕ) := List.Vector UInt8 size

namespace Buffer

variable {size : ℕ}

def zero : Buffer size := List.Vector.replicate size 0

/-- Copy bytes to the start of a buffer. -/
def put (bs : Bytes) (b : Buffer size) : Buffer size :=
  ⟨(bs ++ b.toList.drop bs.length).take size, by
    rw [List.length_take, List.length_append, List.length_drop, List.Vector.toList_length]
    omega⟩

/-- Bytes of the right length, as a buffer. -/
def ofBytes (bs : Bytes) : Buffer size := put bs zero

theorem ofBytes_toList (b : Buffer size) : ofBytes b.toList = b := by
  refine Subtype.ext ?_
  show (b.toList ++ _).take size = b.toList
  exact List.take_left' b.toList_length

theorem toList_put (h : bs.length ≤ size) (b : Buffer size) :
    (put bs b).toList = bs ++ b.toList.drop bs.length := by
  show (bs ++ b.toList.drop bs.length).take size = _
  refine List.take_of_length_le ?_
  rw [List.length_append, List.length_drop, b.toList_length]
  omega

theorem take_put (h : bs.length ≤ size) (b : Buffer size) :
    (put bs b).toList.take bs.length = bs := by
  rw [toList_put h, List.take_left' rfl]

theorem drop_put (h : bs.length ≤ size) (b : Buffer size) :
    (put bs b).toList.drop bs.length = b.toList.drop bs.length := by
  rw [toList_put h, List.drop_left' rfl]

theorem drop_ofBytes (h : bs.length ≤ size) :
    (ofBytes bs : Buffer size).toList.drop bs.length = zeros (size - bs.length) := by
  rw [ofBytes, drop_put h]
  exact List.drop_replicate

end Buffer

/-! ### Writes at an offset -/

/-- Overwrite the bytes from `off` on. -/
def splice (off : ℕ) (new bs : Bytes) : Bytes :=
  bs.take off ++ new ++ bs.drop (off + new.length)

theorem length_splice (h : off + new.length ≤ bs.length) :
    (splice off new bs).length = bs.length := by
  rw [splice, List.length_append, List.length_append, List.length_take, List.length_drop]
  omega

/-- A write is read back. -/
theorem slice_splice_self (h : off + new.length ≤ bs.length) :
    slice off new.length (splice off new bs) = new := by
  have hlen : (bs.take off).length = off := by
    rw [List.length_take]
    omega
  rw [slice, splice, List.append_assoc, List.drop_append_of_le_length (by omega),
    List.drop_of_length_le (by omega), List.nil_append, List.take_left']
  rfl

/-- Other bytes are as they were. -/
theorem slice_splice_of_disjoint {off'} (h : off + new.length ≤ bs.length)
    (hapart : off' + len ≤ off ∨ off + new.length ≤ off') :
    slice off' len (splice off new bs) = slice off' len bs := by
  have htake : (bs.take off).length = off := by
    rw [List.length_take]
    omega
  rcases hapart with hapart | hapart
  · rw [slice, slice, splice, List.append_assoc, List.drop_append_of_le_length (by omega),
      List.take_append_of_le_length (by rw [List.length_drop, htake]; omega), List.drop_take,
      List.take_take, Nat.min_eq_left (by omega)]
  · have hhead : (bs.take off ++ new).length = off + new.length := by
      rw [List.length_append, htake]
    obtain ⟨k, rfl⟩ := Nat.exists_eq_add_of_le hapart
    rw [slice, slice, splice, List.drop_append, List.drop_of_length_le (by omega), List.nil_append,
      List.drop_drop, hhead, Nat.add_sub_cancel_left]

end Bexos
