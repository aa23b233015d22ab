import HftSys.Types
import Mathlib.Logic.Function.Basic

/-!
# The fixed-size memory pool

`utils::MemoryPool<T>`: a vector of blocks with an `isFree` flag each, a count of free blocks and
a cursor to the next free one.

* A pointer into the pool is the index of its block (`Fin size`), a nullable one an `Option`.
* `Fault` lists the ways a run of the program stops being defined: a null pointer or a freed block
  is dereferenced, an array is indexed out of range, an assertion or an uncaught exception ends the
  process, or a loop goes round for ever. Reading through a pointer (`deref`) and writing through it
  (`store`) check the first two.
* `allocate`, `deallocate` and `updateNextFreeIndex` are the source's, with its assertions.
-/

namespace HftSys

/-- Why a run of the program has no further defined state. -/
inductive Fault where
  | nullDereference
  | freedBlock
  | outOfRange
  | abort
  | diverges
deriving DecidableEq, Repr

/-- `MemoryPool::MemoryBlock`. Source: `memory_pool.h` -/
@[ext]
structure MemoryBlock (T : Type) where
  storage : T
  isFree : Bool := true

/-- `utils::MemoryPool<T>`. Source: `memory_pool.h` -/
@[ext]
structure MemoryPool (T : Type) (size : ℕ) where
  memoryBlocks : Fin size → MemoryBlock T
  nextFreeIndex : Fin size
  freeBlocksCount : ℕ
  lastFreedIndex : Fin size

namespace MemoryPool

variable {T : Type} {size : ℕ}

/-- The constructor: every block free, the cursor on block `0`. `blank` is what the untouched
storage holds. Source: `memory_pool.h`, `MemoryPool::MemoryPool` -/
def create (size : ℕ) (hsize : 0 < size) (blank : T) : MemoryPool T size where
  memoryBlocks := fun _ => { storage := blank }
  nextFreeIndex := ⟨0, hsize⟩
  freeBlocksCount := size
  lastFreedIndex := ⟨0, hsize⟩

/-- The object in block `i`. -/
def get (pool : MemoryPool T size) (i : Fin size) : T := (pool.memoryBlocks i).storage

/-- Block `i` is in use. -/
def Live (pool : MemoryPool T size) (i : Fin size) : Prop := (pool.memoryBlocks i).isFree = false

instance (pool : MemoryPool T size) (i : Fin size) : Decidable (pool.Live i) :=
  inferInstanceAs (Decidable (_ = false))

/-- The blocks with block `i` replaced. -/
def blocksWith (pool : MemoryPool T size) (i : Fin size) (block : MemoryBlock T) :
    Fin size → MemoryBlock T :=
  Function.update pool.memoryBlocks i block

/-- Overwrite the object in block `i`. -/
def set (pool : MemoryPool T size) (i : Fin size) (x : T) : MemoryPool T size :=
  { pool with memoryBlocks := pool.blocksWith i ⟨x, (pool.memoryBlocks i).isFree⟩ }

/-- Read through a pointer: `*p`. -/
def deref (pool : MemoryPool T size) : Option (Fin size) → Except Fault T
  | none => .error .nullDereference
  | some i => if pool.Live i then .ok (pool.get i) else .error .freedBlock

/-- Write through a pointer: `f` is applied to the object in place. -/
def store (pool : MemoryPool T size) (f : T → T) : Option (Fin size) → Except Fault (MemoryPool T size)
  | none => .error .nullDereference
  | some i => if pool.Live i then .ok (pool.set i (f (pool.get i))) else .error .freedBlock

/-- `(i + 1) % memoryBlocks_.size()`. -/
def succIndex (i : Fin size) : Fin size :=
  ⟨(i.val + 1) % size, Nat.mod_lt _ (Nat.lt_of_le_of_lt (Nat.zero_le _) i.isLt)⟩

/-- The `do … while (nextFreeIndex_ != startIndex)` scan, at most `fuel` turns; the assertion after
the loop fails when it comes back to `startIndex`. Source: `memory_pool.h`, `updateNextFreeIndex` -/
def scanNextFree (pool : MemoryPool T size) (startIndex : Fin size) :
    ℕ → Fin size → Except Fault (Fin size)
  | 0, _ => .error .diverges
  | fuel + 1, i =>
      if (pool.memoryBlocks (succIndex i)).isFree then .ok (succIndex i)
      else if succIndex i = startIndex then .error .abort
      else scanNextFree pool startIndex fuel (succIndex i)

/-- `updateNextFreeIndex`: move the cursor to a free block, round the vector once at most.
Source: `memory_pool.h`, `MemoryPool::updateNextFreeIndex` -/
def updateNextFreeIndex (pool : MemoryPool T size) : Except Fault (MemoryPool T size) :=
  if (pool.memoryBlocks pool.nextFreeIndex).isFree then .ok pool
  else do
    let i ← pool.scanNextFree pool.nextFreeIndex size pool.nextFreeIndex
    .ok { pool with nextFreeIndex := i }

/-- Block `i` taken into use for `x`. -/
def take (pool : MemoryPool T size) (i : Fin size) (x : T) : MemoryPool T size :=
  { pool with
    memoryBlocks := pool.blocksWith i ⟨x, false⟩
    freeBlocksCount := pool.freeBlocksCount - 1 }

/-- `allocate`: null when no block is free, else the block at the cursor, constructed from `x`.
Source: `memory_pool.h`, `MemoryPool::allocate` -/
def allocate (pool : MemoryPool T size) (x : T) :
    Except Fault (Option (Fin size) × MemoryPool T size) :=
  if pool.freeBlocksCount = 0 then .ok (none, pool)
  else if pool.Live pool.nextFreeIndex then .error .abort
  else do
    let taken := pool.take pool.nextFreeIndex x
    let pool' ← if 0 < taken.freeBlocksCount then taken.updateNextFreeIndex else .ok taken
    .ok (some pool.nextFreeIndex, pool')

/-- Block `i` given back: its storage keeps the stale object. -/
def release (pool : MemoryPool T size) (i : Fin size) : MemoryPool T size where
  memoryBlocks := pool.blocksWith i ⟨pool.get i, true⟩
  nextFreeIndex := i
  freeBlocksCount := pool.freeBlocksCount + 1
  lastFreedIndex := i

/-- `deallocate`: a null pointer has no index in the vector and a block that is free already is
refused, both by an assertion. Source: `memory_pool.h`, `MemoryPool::deallocate` -/
def deallocate (pool : MemoryPool T size) : Option (Fin size) → Except Fault (MemoryPool T size)
  | none => .error .abort
  | some i => if pool.Live i then .ok (pool.release i) else .error .abort

/-- Every object rewritten in place. -/
def mapBlocks (pool : MemoryPool T size) (f : Fin size → T → T) : MemoryPool T size :=
  { pool with memoryBlocks := fun i => ⟨f i (pool.get i), (pool.memoryBlocks i).isFree⟩ }

/-! ## What each operation does to the blocks -/

@[simp] theorem get_set (pool : MemoryPool T size) (i j : Fin size) (x : T) :
    (pool.set i x).get j = if j = i then x else pool.get j := by
  unfold get set blocksWith
  by_cases h : j = i
  · subst h; simp
  · simp [h]

@[simp] theorem live_set (pool : MemoryPool T size) (i j : Fin size) (x : T) :
    (pool.set i x).Live j ↔ pool.Live j := by
  unfold Live set blocksWith
  by_cases h : j = i
  · subst h; simp
  · simp [h]

@[simp] theorem get_take (pool : MemoryPool T size) (i j : Fin size) (x : T) :
    (pool.take i x).get j = if j = i then x else pool.get j := by
  unfold get take blocksWith
  by_cases h : j = i
  · subst h; simp
  · simp [h]

@[simp] theorem live_take (pool : MemoryPool T size) (i j : Fin size) (x : T) :
    (pool.take i x).Live j ↔ j = i ∨ pool.Live j := by
  unfold Live take blocksWith
  by_cases h : j = i
  · subst h; simp
  · simp [h]

@[simp] theorem get_release (pool : MemoryPool T size) (i j : Fin size) :
    (pool.release i).get j = pool.get j := by
  unfold get release blocksWith
  by_cases h : j = i
  · subst h; simp [get]
  · simp [h]

@[simp] theorem live_release (pool : MemoryPool T size) (i j : Fin size) :
    (pool.release i).Live j ↔ pool.Live j ∧ j ≠ i := by
  unfold Live release blocksWith
  by_cases h : j = i
  · subst h; simp
  · simp [h]

@[simp] theorem get_mapBlocks (pool : MemoryPool T size) (f : Fin size → T → T) (i : Fin size) :
    (pool.mapBlocks f).get i = f i (pool.get i) := rfl

@[simp] theorem live_mapBlocks (pool : MemoryPool T size) (f : Fin size → T → T) (i : Fin size) :
    (pool.mapBlocks f).Live i ↔ pool.Live i := Iff.rfl

/-- One object overwritten, as a rewriting of all that leaves the others as they are. -/
theorem set_eq_mapBlocks {pool : MemoryPool T size} {i : Fin size} {x : T} {f : Fin size → T → T}
    (hi : f i (pool.get i) = x) (hf : ∀ j, j ≠ i → f j (pool.get j) = pool.get j) :
    pool.set i x = pool.mapBlocks f := by
  ext j
  · by_cases h : j = i
    · subst h; simp [set, mapBlocks, blocksWith, hi]
    · have := hf j h
      simp only [get] at this
      simp [set, mapBlocks, blocksWith, get, h, this]
  · by_cases h : j = i
    · subst h; simp [set, mapBlocks, blocksWith]
    · simp [set, mapBlocks, blocksWith, h]
  all_goals rfl

@[simp] theorem live_create (hsize : 0 < size) (blank : T) (i : Fin size) :
    ¬ (create size hsize blank).Live i := by
  simp [create, Live]

/-- Moving the cursor leaves the blocks as they are. -/
theorem updateNextFreeIndex_blocks {pool pool' : MemoryPool T size}
    (h : pool.updateNextFreeIndex = .ok pool') : pool'.memoryBlocks = pool.memoryBlocks := by
  unfold updateNextFreeIndex at h
  split at h
  · cases h
    rfl
  · cases hscan : pool.scanNextFree pool.nextFreeIndex size pool.nextFreeIndex with
    | error e =>
      rw [hscan] at h
      cases h
    | ok i =>
      rw [hscan] at h
      cases h
      rfl

/-- **`allocate`** gives no block, or one that was not in use. -/
theorem allocate_eq_ok {pool pool' : MemoryPool T size} {x : T} {q : Option (Fin size)}
    (h : pool.allocate x = .ok (q, pool')) :
    q = none ∨ ∃ i, q = some i ∧ ¬ pool.Live i ∧
      pool'.memoryBlocks = (pool.take i x).memoryBlocks := by
  unfold allocate at h
  split at h
  · cases h
    exact .inl rfl
  · split at h
    · cases h
    · rename_i hfree
      refine .inr ⟨pool.nextFreeIndex, ?_⟩
      simp only [] at h
      split at h
      · cases hupd : (pool.take pool.nextFreeIndex x).updateNextFreeIndex with
        | error e =>
          rw [hupd] at h
          cases h
        | ok taken =>
          rw [hupd] at h
          cases h
          exact ⟨rfl, hfree, updateNextFreeIndex_blocks hupd⟩
      · cases h
        exact ⟨rfl, hfree, rfl⟩

/-- Pools with the same blocks hold the same objects. -/
theorem get_of_blocks {pool pool' : MemoryPool T size}
    (h : pool'.memoryBlocks = pool.memoryBlocks) (i : Fin size) : pool'.get i = pool.get i := by
  rw [get, get, h]

/-- Pools with the same blocks have the same blocks in use. -/
theorem live_of_blocks {pool pool' : MemoryPool T size}
    (h : pool'.memoryBlocks = pool.memoryBlocks) (i : Fin size) : pool'.Live i ↔ pool.Live i := by
  rw [Live, Live, h]

end MemoryPool

end HftSys
