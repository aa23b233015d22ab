import Mathlib.Data.List.Basic
import Mathlib.Tactic.Ring

/-!
# Packed records in memory

The little-endian image of a number, and a stream cut into records of equal size.

* `leBytes n v` is the image of `v` in `n` bytes, `readLE` reads it back.
* `records n bs` are the consecutive `n`-byte records of a stream, `rest n bs` what is left behind
  the last one. `records_flatMap`: the records of a stream of images are the images;
  `records_split`: a stream that comes in two parts has the same records.
-/

namespace Bytes

/-! ## Numbers -/

/-- The little-endian image of a number in `n` bytes. -/
def leBytes : ℕ → ℕ → List UInt8
  | 0, _ => []
  | n + 1, v => UInt8.ofNat v :: leBytes n (v / 256)

/-- The number with a given little-endian image. -/
def ofLE : List UInt8 → ℕ
  | [] => 0
  | b :: bs => b.toNat + 256 * ofLE bs

/-- A number takes as many bytes as it is given. -/
@[simp] theorem length_leBytes (n v : ℕ) : (leBytes n v).length = n := by
  induction n generalizing v with
  | zero => rfl
  | succ n ih => rw [leBytes, List.length_cons, ih]

/-- **Round trip**: the bytes of a number give it back, as far as it fits into them. -/
theorem ofLE_leBytes (n v : ℕ) : ofLE (leBytes n v) = v % 256 ^ n := by
  induction n generalizing v with
  | zero => rw [leBytes, ofLE, Nat.pow_zero, Nat.mod_one]
  | succ n ih =>
    have hbyte : (UInt8.ofNat v).toNat = v % 256 := UInt8.toNat_ofNat'
    rw [leBytes, ofLE, ih, hbyte, Nat.pow_succ', Nat.mod_mul]

/-- Read a number of `n` bytes at the head of a stream. -/
def readLE (n : ℕ) (bs : List UInt8) : ℕ × List UInt8 := (ofLE (bs.take n), bs.drop n)

/-- A number is read back from in front of other bytes. -/
theorem readLE_append {n v : ℕ} (hv : v < 256 ^ n) (bs : List UInt8) :
    readLE n (leBytes n v ++ bs) = (v, bs) := by
  rw [readLE, List.take_left' (length_leBytes n v), List.drop_left' (length_leBytes n v),
    ofLE_leBytes, Nat.mod_eq_of_lt hv]

/-- A byte is read back. -/
@[simp] theorem readLE_uint8 (x : UInt8) (bs : List UInt8) :
    readLE 1 (leBytes 1 x.toNat ++ bs) = (x.toNat, bs) :=
  readLE_append (UInt8.toNat_lt x) bs

/-- Four bytes are read back. -/
@[simp] theorem readLE_uint32 (x : UInt32) (bs : List UInt8) :
    readLE 4 (leBytes 4 x.toNat ++ bs) = (x.toNat, bs) :=
  readLE_append (UInt32.toNat_lt x) bs

/-- Eight bytes are read back. -/
@[simp] theorem readLE_uint64 (x : UInt64) (bs : List UInt8) :
    readLE 8 (leBytes 8 x.toNat ++ bs) = (x.toNat, bs) :=
  readLE_append (UInt64.toNat_lt x) bs

/-! ## Records -/

/-- The consecutive records of `n` bytes of a stream. -/
def records (n : ℕ) (bs : List UInt8) : List (List UInt8) :=
  (List.range (bs.length / n)).map fun k => (bs.drop (k * n)).take n

/-- What is left of a stream behind its last whole record. -/
def rest (n : ℕ) (bs : List UInt8) : List UInt8 := bs.drop (bs.length / n * n)

/-- Too few bytes hold no record, -/
theorem records_of_lt {n : ℕ} {bs : List UInt8} (h : bs.length < n) : records n bs = [] := by
  rw [records, Nat.div_eq_of_lt h]
  rfl

/-- and are all left over. -/
theorem rest_of_lt {n : ℕ} {bs : List UInt8} (h : bs.length < n) : rest n bs = bs := by
  rw [rest, Nat.div_eq_of_lt h, Nat.zero_mul, List.drop_zero]

/-- A record in front is the first one. -/
theorem records_append {n : ℕ} (hn : 0 < n) {r : List UInt8} (hr : r.length = n)
    (bs : List UInt8) : records n (r ++ bs) = r :: records n bs := by
  have hcount : (r ++ bs).length / n = bs.length / n + 1 := by
    rw [List.length_append, hr, Nat.add_comm, Nat.add_div_right _ hn]
  rw [records, hcount, List.range_succ_eq_map, List.map_cons, List.map_map, Nat.zero_mul,
    List.drop_zero, List.take_left' hr, records]
  congr 1
  apply List.map_congr_left
  intro k _
  show ((r ++ bs).drop ((k + 1) * n)).take n = _
  rw [Nat.succ_mul, Nat.add_comm, ← List.drop_drop, List.drop_left' hr]

/-- What is left over does not depend on a record in front. -/
theorem rest_append_record {n : ℕ} (hn : 0 < n) {r : List UInt8} (hr : r.length = n)
    (bs : List UInt8) : rest n (r ++ bs) = rest n bs := by
  have hcount : (r ++ bs).length / n = bs.length / n + 1 := by
    rw [List.length_append, hr, Nat.add_comm, Nat.add_div_right _ hn]
  rw [rest, hcount, Nat.succ_mul, Nat.add_comm, ← List.drop_drop, List.drop_left' hr, rest]

/-- **Induction over the records of a stream**: less than a record, or a record in front. -/
theorem record_induction {n : ℕ} (hn : 0 < n) {P : List UInt8 → Prop}
    (hshort : ∀ bs, bs.length < n → P bs) (hrecord : ∀ r bs, r.length = n → P bs → P (r ++ bs))
    (bs : List UInt8) : P bs := by
  induction h : bs.length using Nat.strong_induction_on generalizing bs with
  | _ m ih =>
    by_cases hlen : bs.length < n
    · exact hshort bs hlen
    · have htake : (bs.take n).length = n := by
        rw [List.length_take]
        omega
      rw [← List.take_append_drop n bs]
      apply hrecord _ _ htake
      apply ih (bs.drop n).length _ _ rfl
      rw [List.length_drop]
      omega

/-- There are as many records as fit. -/
@[simp] theorem length_records (n : ℕ) (bs : List UInt8) : (records n bs).length = bs.length / n := by
  rw [records, List.length_map, List.length_range]

/-- Less than a record is left. -/
theorem length_rest_lt {n : ℕ} (hn : 0 < n) (bs : List UInt8) : (rest n bs).length < n := by
  induction bs using record_induction hn with
  | hshort bs hlen =>
    rw [rest_of_lt hlen]
    exact hlen
  | hrecord r bs hr ih =>
    rw [rest_append_record hn hr]
    exact ih

/-- **A stream is its records and what is left behind them.** -/
theorem flatten_records {n : ℕ} (hn : 0 < n) (bs : List UInt8) :
    (records n bs).flatten ++ rest n bs = bs := by
  induction bs using record_induction hn with
  | hshort bs hlen =>
    rw [records_of_lt hlen, rest_of_lt hlen]
    rfl
  | hrecord r bs hr ih =>
    rw [records_append hn hr, rest_append_record hn hr, List.flatten_cons, List.append_assoc, ih]

/-- **A stream may be read in two parts**, what the first leaves being read with the second. -/
theorem records_split {n : ℕ} (hn : 0 < n) (bs cs : List UInt8) :
    records n (bs ++ cs) = records n bs ++ records n (rest n bs ++ cs) ∧
      rest n (bs ++ cs) = rest n (rest n bs ++ cs) := by
  induction bs using record_induction hn with
  | hshort bs hlen =>
    rw [records_of_lt hlen, rest_of_lt hlen]
    exact ⟨rfl, rfl⟩
  | hrecord r bs hr ih =>
    rw [List.append_assoc, records_append hn hr, records_append hn hr, rest_append_record hn hr,
      rest_append_record hn hr, ih.1, ih.2]
    exact ⟨rfl, rfl⟩

/-- **The records of a stream of images are the images.** -/
theorem records_flatMap {α : Type*} {n : ℕ} (hn : 0 < n) {f : α → List UInt8}
    (hf : ∀ x, (f x).length = n) (xs : List α) : records n (xs.flatMap f) = xs.map f := by
  induction xs with
  | nil => exact records_of_lt hn
  | cons x xs ih => rw [List.flatMap_cons, records_append hn (hf x), ih, List.map_cons]

end Bytes
