import HftSys.Lib.Exec
import HftSys.Lib.Runs
import HftSys.MemoryPool
import Mathlib.Data.Fintype.Card

/-!
# The pool's bookkeeping

`MemoryPool.WellFormed`: the count is the number of free blocks, and the cursor is on a free block
as long as there is one. The cursor of a full pool is stale; `deallocate` moves it back.

* `scanNextFree_ok`: the circular scan finds a free block if there is one.
* `allocate_of_pos` and `allocate_of_zero`: what `allocate` does, in the two cases of the count.
* `Lending.Accounted`: what the pool has in use is what has been handed out and not given back.
* `hands_out_once`: the pool's contract, after any sequence of calls.
-/

namespace HftSys

open Exec

namespace MemoryPool

variable {T : Type} {size : ℕ} {pool pool' : MemoryPool T size}

/-- The blocks that are free. -/
def freeBlocks (pool : MemoryPool T size) : Finset (Fin size) :=
  Finset.univ.filter fun i => (pool.memoryBlocks i).isFree = true

@[simp] theorem mem_freeBlocks {i : Fin size} : i ∈ pool.freeBlocks ↔ ¬ pool.Live i := by
  simp [freeBlocks, Live]

/-- The count and the cursor agree with the blocks. -/
structure WellFormed (pool : MemoryPool T size) : Prop where
  count : pool.freeBlocksCount = pool.freeBlocks.card
  cursor : 0 < pool.freeBlocksCount → ¬ pool.Live pool.nextFreeIndex

theorem freeBlocks_of_blocks (h : pool'.memoryBlocks = pool.memoryBlocks) :
    pool'.freeBlocks = pool.freeBlocks := by
  rw [freeBlocks, freeBlocks, h]

theorem freeBlocks_take (pool : MemoryPool T size) (i : Fin size) (x : T) :
    (pool.take i x).freeBlocks = pool.freeBlocks.erase i := by
  ext j
  simp [Finset.mem_erase]

theorem freeBlocks_release (pool : MemoryPool T size) (i : Fin size) :
    (pool.release i).freeBlocks = insert i pool.freeBlocks := by
  ext j
  rw [mem_freeBlocks, live_release, Finset.mem_insert, mem_freeBlocks]
  tauto

/-- No block is free exactly when all are in use. -/
theorem WellFormed.count_eq_zero (h : pool.WellFormed) :
    pool.freeBlocksCount = 0 ↔ ∀ i, pool.Live i := by
  rw [h.count, Finset.card_eq_zero, Finset.eq_empty_iff_forall_notMem]
  simp

theorem wellFormed_create (hsize : 0 < size) (blank : T) : (create size hsize blank).WellFormed where
  count := by
    have hall : (create size hsize blank).freeBlocks = Finset.univ := by
      ext i
      simp
    rw [hall, Finset.card_univ, Fintype.card_fin]
    rfl
  cursor _ := live_create hsize blank _

/-! ## The scan -/

theorem succIndex_iterate (i : Fin size) (k : ℕ) :
    (succIndex^[k] i).val = (i.val + k) % size := by
  induction k with
  | zero => simp [Nat.mod_eq_of_lt i.isLt]
  | succ k ih =>
    rw [Function.iterate_succ_apply', succIndex]
    simp only [ih, Nat.mod_add_mod, Nat.add_assoc]

/-- Fewer than `size` turns do not come back to where they started. -/
theorem succIndex_iterate_ne (i : Fin size) {k : ℕ} (hpos : 0 < k) (hk : k < size) :
    succIndex^[k] i ≠ i := by
  intro h
  have hval := congrArg Fin.val h
  rw [succIndex_iterate] at hval
  have hi := i.isLt
  rcases Nat.lt_or_ge (i.val + k) size with hlt | hge
  · rw [Nat.mod_eq_of_lt hlt] at hval
    omega
  · rw [Nat.mod_eq_sub_mod hge, Nat.mod_eq_of_lt (by omega)] at hval
    omega

/-- Every block is met on the way round. -/
theorem exists_succIndex_iterate (i j : Fin size) : ∃ k < size, succIndex^[k] i = j := by
  have hi := i.isLt
  have hj := j.isLt
  rcases Nat.lt_or_ge j.val i.val with hlt | hge
  · refine ⟨size + j.val - i.val, by omega, Fin.ext ?_⟩
    rw [succIndex_iterate, show i.val + (size + j.val - i.val) = j.val + size by omega,
      Nat.add_mod_right, Nat.mod_eq_of_lt hj]
  · refine ⟨j.val - i.val, by omega, Fin.ext ?_⟩
    rw [succIndex_iterate, show i.val + (j.val - i.val) = j.val by omega, Nat.mod_eq_of_lt hj]

/-- The scan stops at a free block that it meets before it is back at `start`. -/
theorem scanNextFree_of_meets {start : Fin size} {fuel k : ℕ} {i : Fin size} (hk : k < fuel)
    (hfree : ¬ pool.Live (succIndex^[k + 1] i))
    (hstart : ∀ j < k, succIndex^[j + 1] i ≠ start) :
    ∃ r, pool.scanNextFree start fuel i = .ok r ∧ ¬ pool.Live r := by
  induction fuel generalizing i k with
  | zero => exact absurd hk (Nat.not_lt_zero k)
  | succ fuel ih =>
    unfold scanNextFree
    by_cases hnext : pool.Live (succIndex i)
    · cases k with
      | zero => exact absurd hnext hfree
      | succ k =>
        have hne : succIndex i ≠ start := hstart 0 (Nat.succ_pos k)
        rw [if_neg (by simpa [Live] using hnext), if_neg hne]
        refine ih (i := succIndex i) (Nat.lt_of_succ_lt_succ hk) hfree ?_
        intro j hj
        exact hstart (j + 1) (Nat.succ_lt_succ hj)
    · rw [if_pos (by simpa [Live] using hnext)]
      exact ⟨_, rfl, hnext⟩

/-- **The scan ends on a free block** when there is one. -/
theorem scanNextFree_ok {start free : Fin size} (hstart : pool.Live start)
    (hfree : ¬ pool.Live free) :
    ∃ r, pool.scanNextFree start size start = .ok r ∧ ¬ pool.Live r := by
  obtain ⟨k, hk, hmeets⟩ := exists_succIndex_iterate start free
  cases k with
  | zero =>
    rw [Function.iterate_zero, id_eq] at hmeets
    exact absurd (hmeets ▸ hstart) hfree
  | succ k =>
    rw [← hmeets] at hfree
    refine scanNextFree_of_meets (k := k) (by omega) hfree ?_
    intro j hj
    exact succIndex_iterate_ne start (Nat.succ_pos j) (by omega)

/-- `updateNextFreeIndex` leaves the cursor on a free block when there is one. -/
theorem updateNextFreeIndex_ok {free : Fin size} (hfree : ¬ pool.Live free) :
    ∃ pool', pool.updateNextFreeIndex = .ok pool' ∧
      pool'.memoryBlocks = pool.memoryBlocks ∧ pool'.freeBlocksCount = pool.freeBlocksCount ∧
      ¬ pool'.Live pool'.nextFreeIndex := by
  unfold updateNextFreeIndex
  by_cases hcursor : pool.Live pool.nextFreeIndex
  · obtain ⟨r, hscan, hr⟩ := scanNextFree_ok hcursor hfree
    rw [if_neg (by simpa [Live] using hcursor), hscan]
    exact ⟨_, rfl, rfl, rfl, hr⟩
  · rw [if_pos (by simpa [Live] using hcursor)]
    exact ⟨pool, rfl, rfl, rfl, hcursor⟩

/-! ## The operations -/

/-- A full pool hands out no block. -/
theorem allocate_of_zero (h : pool.freeBlocksCount = 0) (x : T) :
    pool.allocate x = .ok (none, pool) := if_pos h

/-- **A pool with a free block hands out the one at its cursor**, and stays well-formed. -/
theorem WellFormed.allocate_of_pos (h : pool.WellFormed) (hpos : 0 < pool.freeBlocksCount)
    (x : T) :
    ∃ pool', pool.allocate x = .ok (some pool.nextFreeIndex, pool') ∧
      pool'.memoryBlocks = (pool.take pool.nextFreeIndex x).memoryBlocks ∧
      pool'.freeBlocksCount + 1 = pool.freeBlocksCount ∧ pool'.WellFormed := by
  have hcursor := h.cursor hpos
  set taken := pool.take pool.nextFreeIndex x with htaken
  have hcount : taken.freeBlocksCount = taken.freeBlocks.card := by
    rw [htaken, freeBlocks_take, Finset.card_erase_of_mem (mem_freeBlocks.mpr hcursor), ← h.count]
    rfl
  have hone : taken.freeBlocksCount + 1 = pool.freeBlocksCount := Nat.sub_add_cancel hpos
  unfold allocate
  rw [if_neg (Nat.ne_of_gt hpos), if_neg hcursor]
  simp only []
  by_cases hleft : 0 < taken.freeBlocksCount
  · obtain ⟨free, hfree⟩ : ∃ free, free ∈ taken.freeBlocks := by
      rw [hcount] at hleft
      exact Finset.card_pos.mp hleft
    obtain ⟨pool', hupdate, hblocks, hcount', hfree'⟩ :=
      updateNextFreeIndex_ok (mem_freeBlocks.mp hfree)
    rw [if_pos hleft, hupdate]
    refine ⟨pool', rfl, hblocks, by rw [hcount', hone], ?_, fun _ => hfree'⟩
    rw [hcount', hcount, freeBlocks_of_blocks hblocks]
  · rw [if_neg hleft]
    exact ⟨taken, rfl, rfl, hone, hcount, fun hc => absurd hc hleft⟩

/-- A block in use is given back. -/
theorem deallocate_of_live {i : Fin size} (h : pool.Live i) :
    pool.deallocate (some i) = .ok (pool.release i) := if_pos h

/-- Giving a block back keeps the pool well-formed: the cursor is on it. -/
theorem WellFormed.release (h : pool.WellFormed) {i : Fin size} (hi : pool.Live i) :
    (pool.release i).WellFormed where
  count := by
    have hnotin : i ∉ pool.freeBlocks := by simpa using hi
    rw [freeBlocks_release, Finset.card_insert_of_notMem hnotin, ← h.count]
    rfl
  cursor _ := by
    show ¬ (pool.release i).Live i
    simp

/-- An assignment to an object leaves the flags as they are. -/
theorem WellFormed.set (h : pool.WellFormed) (i : Fin size) (x : T) : (pool.set i x).WellFormed := by
  have hfree : (pool.set i x).freeBlocks = pool.freeBlocks := by
    ext j
    simp
  refine ⟨?_, ?_⟩
  · rw [hfree]
    exact h.count
  · intro hpos
    rw [live_set]
    exact h.cursor hpos

/-! ## Sequences of calls -/

/-- A call on the pool. -/
inductive Call (T : Type) (size : ℕ) where
  | allocate (x : T)
  | deallocate (i : Fin size)

/-- A pool among its users. -/
structure Lending (T : Type) (size : ℕ) where
  pool : MemoryPool T size
  /-- The blocks `allocate` has returned that have not been passed to `deallocate` since. -/
  held : List (Fin size)

/-- A new pool, nothing of which has been handed out. -/
def Lending.create (hsize : 0 < size) (blank : T) : Lending T size :=
  ⟨MemoryPool.create size hsize blank, []⟩

/-- A call, unless an assertion of the pool fails. What is given back is a block that is held;
whether the pool has it in use is the pool's business. -/
def Lending.call (s : Lending T size) : Call T size → Option (Lending T size)
  | .allocate x =>
    match s.pool.allocate x with
    | .ok (q, pool) => some ⟨pool, s.held ++ q.toList⟩
    | .error _ => none
  | .deallocate i =>
    if i ∈ s.held then
      match s.pool.deallocate (some i) with
      | .ok pool => some ⟨pool, s.held.erase i⟩
      | .error _ => none
    else none

/-- The calls `cs` lead from a new pool to `s`. -/
abbrev CallsTo (hsize : 0 < size) (blank : T) (cs : List (Call T size)) (s : Lending T size) : Prop :=
  cs.foldlM Lending.call (.create hsize blank) = some s

/-- The pool is well-formed, and has in use what is held, each block of which has been handed out
once. -/
structure Lending.Accounted (s : Lending T size) : Prop where
  wellFormed : s.pool.WellFormed
  nodup : s.held.Nodup
  mem_held : ∀ i, i ∈ s.held ↔ s.pool.Live i

namespace Lending

variable {s s' : Lending T size} {hsize : 0 < size} {blank : T} {cs : List (Call T size)}

theorem accounted_create (hsize : 0 < size) (blank : T) : (create hsize blank).Accounted where
  wellFormed := wellFormed_create hsize blank
  nodup := List.nodup_nil
  mem_held i := iff_of_false List.not_mem_nil (live_create hsize blank i)

/-- **A call keeps the account.** -/
theorem Accounted.call {c : Call T size} (h : s.Accounted) (hc : s.call c = some s') :
    s'.Accounted := by
  cases c with
  | allocate x =>
    rcases Nat.eq_zero_or_pos s.pool.freeBlocksCount with hzero | hpos
    · rw [Lending.call, allocate_of_zero hzero] at hc
      cases hc
      rw [Option.toList_none, List.append_nil]
      exact h
    · obtain ⟨pool', hok, hblocks, -, hwf⟩ := h.wellFormed.allocate_of_pos hpos x
      rw [Lending.call, hok] at hc
      cases hc
      have hfresh : s.pool.nextFreeIndex ∉ s.held := by
        rw [h.mem_held]
        exact h.wellFormed.cursor hpos
      constructor
      case wellFormed => exact hwf
      case nodup =>
        exact h.nodup.append (List.nodup_singleton _) (List.disjoint_singleton.mpr hfresh)
      case mem_held =>
        intro i
        rw [live_of_blocks hblocks, live_take, Option.toList_some, List.mem_append,
          List.mem_singleton, h.mem_held, or_comm]
  | deallocate i =>
    rw [Lending.call] at hc
    split at hc
    · rename_i hmem
      have hlive := (h.mem_held i).mp hmem
      rw [deallocate_of_live hlive] at hc
      cases hc
      constructor
      case wellFormed => exact h.wellFormed.release hlive
      case nodup => exact h.nodup.erase i
      case mem_held =>
        intro j
        rw [live_release, h.nodup.mem_erase_iff, h.mem_held, and_comm]
    · cases hc

/-- **Every sequence of calls keeps the account.** -/
theorem accounted_of_callsTo (h : CallsTo hsize blank cs s) : s.Accounted := by
  refine (Runs.RunsOf.ofStep Lending.call _).induction (P := fun _ s => s.Accounted)
    (accounted_create hsize blank) ?_ h
  intro cs c s s' _ haccounted hc
  exact haccounted.call hc

/-- What `allocate` promises: null exactly when every block is held, or else a block that nobody
holds, the others untouched. -/
def Allocates (s : Lending T size) (x : T) : Prop :=
  ∃ q pool', s.pool.allocate x = .ok (q, pool') ∧
    (q = none ↔ ∀ i, i ∈ s.held) ∧
    (q = none → pool' = s.pool) ∧
    ∀ i, q = some i →
      (s.pool.memoryBlocks i).isFree = true ∧ i ∉ s.held ∧ pool'.memoryBlocks i = ⟨x, false⟩ ∧
        ∀ j, j ≠ i → pool'.memoryBlocks j = s.pool.memoryBlocks j

theorem Accounted.allocates (h : s.Accounted) (x : T) : s.Allocates x := by
  have hall : (∀ i, i ∈ s.held) ↔ ∀ i, s.pool.Live i := forall_congr' h.mem_held
  rcases Nat.eq_zero_or_pos s.pool.freeBlocksCount with hzero | hpos
  · refine ⟨none, s.pool, allocate_of_zero hzero x, ?_, fun _ => rfl, ?_⟩
    · exact iff_of_true rfl (hall.mpr (h.wellFormed.count_eq_zero.mp hzero))
    · intro i hi
      cases hi
  · obtain ⟨pool', hok, hblocks, -, -⟩ := h.wellFormed.allocate_of_pos hpos x
    have hfree := h.wellFormed.cursor hpos
    refine ⟨some s.pool.nextFreeIndex, pool', hok, ?_, ?_, ?_⟩
    · exact iff_of_false (Option.some_ne_none _) fun heach => hfree (hall.mp heach _)
    · intro hq
      cases hq
    · rintro i hi
      cases hi
      rw [hblocks]
      refine ⟨by simpa [Live] using hfree, (h.mem_held _).not.mpr hfree, by simp [take, blocksWith], ?_⟩
      intro j hj
      simp [take, blocksWith, hj]

/-- What `deallocate` promises: no assertion fails, and no other block is touched. -/
def Deallocates (s : Lending T size) (i : Fin size) : Prop :=
  ∃ pool', s.pool.deallocate (some i) = .ok pool' ∧ (pool'.memoryBlocks i).isFree = true ∧
    ∀ j, j ≠ i → pool'.memoryBlocks j = s.pool.memoryBlocks j

theorem Accounted.deallocates (h : s.Accounted) {i : Fin size} (hi : i ∈ s.held) :
    s.Deallocates i := by
  refine ⟨_, deallocate_of_live ((h.mem_held i).mp hi), by simp [release, blocksWith], ?_⟩
  intro j hj
  simp [release, blocksWith, hj]

end Lending

/-- **The pool hands out each block at most once.** After any sequence of calls that give back only
what is held, no block is held twice, and the blocks in use are those held; the count is that of the
free blocks, and the cursor is on one of them while there are any; every further `allocate` succeeds
with a block that was free and that nobody holds or, when all are held, with null; and every block
held can be given back. -/
theorem hands_out_once (hsize : 0 < size) (blank : T) (cs : List (Call T size))
    (s : Lending T size) (h : CallsTo hsize blank cs s) :
    s.held.Nodup ∧ (∀ i, i ∈ s.held ↔ (s.pool.memoryBlocks i).isFree = false) ∧
      s.pool.freeBlocksCount =
        (Finset.univ.filter fun i => (s.pool.memoryBlocks i).isFree = true).card ∧
      (0 < s.pool.freeBlocksCount →
        (s.pool.memoryBlocks s.pool.nextFreeIndex).isFree = true) ∧
      (∀ x, s.Allocates x) ∧ ∀ i ∈ s.held, s.Deallocates i := by
  have haccounted := Lending.accounted_of_callsTo h
  have hwf := haccounted.wellFormed
  refine ⟨haccounted.nodup, haccounted.mem_held, hwf.count, ?_, haccounted.allocates,
    fun i hi => haccounted.deallocates hi⟩
  intro hpos
  simpa [Live] using hwf.cursor hpos

/-- Three blocks of a pool of three handed out, a fourth asked for in vain, the first given back and
handed out again: what is held is what has been handed out and not given back, each once. -/
theorem hands_out_once_sample :
    ∃ s : Lending ℕ 3,
      CallsTo (by decide) 0 [.allocate 5, .allocate 6, .allocate 7, .allocate 8, .deallocate 0,
        .deallocate 2, .allocate 9] s ∧
        s.held = [1, 2] ∧ s.held.Nodup ∧
        (∀ i, i ∈ s.held ↔ (s.pool.memoryBlocks i).isFree = false) ∧ s.pool.freeBlocksCount = 1 ∧
        s.Allocates 10 ∧ s.Deallocates 1 := by
  have hrun : ((([.allocate 5, .allocate 6, .allocate 7, .allocate 8, .deallocate 0, .deallocate 2,
      .allocate 9] : List (Call ℕ 3)).foldlM Lending.call (.create (by decide) 0)).map fun s =>
      (s.held, s.pool.freeBlocksCount)) = some ([1, 2], 1) := by decide
  obtain ⟨s, h, heq⟩ := Option.map_eq_some_iff.mp hrun
  obtain ⟨hheld, hcount⟩ := Prod.mk.inj heq
  obtain ⟨hnodup, hmem, -, -, hallocates, hdeallocates⟩ := hands_out_once (by decide) 0 _ s h
  exact ⟨s, h, hheld, hnodup, hmem, hcount, hallocates 10, hdeallocates 1 (by simp [hheld])⟩

end MemoryPool

end HftSys
