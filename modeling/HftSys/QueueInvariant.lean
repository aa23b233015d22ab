import HftSys.Lib.Sums
import HftSys.LFQueue
import Mathlib.Algebra.BigOperators.Fin
import Mathlib.Algebra.Order.Group.Multiset

/-!
# The invariant of the lock-free queue

An index goes round the ring, so places of the queue are written `k % cap` with `k` the number of
the element from the first push on.

* `Clear` is what the algorithm needs of a producer that takes a slot: nobody else has one, and the
  slot holds nothing the consumer has still to read.
* `Inv` ties the indices, the count and the slots to what has been written and popped. `Inv.step`: a
  step that meets `Clear` keeps it.
* `Inv.popped_append_waiting` reads it when no thread is inside one of the functions.
-/

namespace HftSys

namespace LFQueue

open Sums

variable {ι T : Type}

/-! ## The invariant -/

/-- The thread has a slot it has not yet made part of the queue. -/
def Producer.Claims : Producer T → Prop
  | .hasSlot _ _ => True
  | .copied _ => True
  | .loaded _ _ => True
  | _ => False

/-- The value of a push that has advanced the write index and not yet the count. -/
def Producer.uncounted : Producer T → Multiset T
  | .advanced value => {value}
  | _ => 0

/-- The value of a push that has not advanced the write index. -/
def Producer.unwritten : Producer T → Multiset T
  | .hasRoom value => {value}
  | .hasSlot value _ => {value}
  | .copied value => {value}
  | .loaded value _ => {value}
  | _ => 0

/-- The slot the consumer has a pointer to. -/
def Consumer.slot : Consumer → Option ℕ
  | .hasSlot slot => some slot
  | .copied slot => some slot
  | .checked slot => some slot
  | _ => none

/-- Elements taken, whose place the read index has not passed. -/
def Consumer.unpassed : Consumer → ℕ
  | .copied _ => 1
  | .checked _ => 1
  | _ => 0

/-- Elements taken, that are still counted. -/
def Consumer.uncounted : Consumer → ℕ
  | .copied _ => 1
  | .checked _ => 1
  | .advanced => 1
  | _ => 0

/-- What holds between the steps of the threads, as long as every slot is taken by one thread
only. -/
structure Inv [Fintype ι] (cap : ℕ) (s : State ι T) : Prop where
  writeIndex : s.nextIndexToWrite = s.written.length % cap
  readIndex : s.nextIndexToRead = (s.popped.length - s.consumer.unpassed) % cap
  unpassed_le : s.consumer.unpassed ≤ s.popped.length
  popped_prefix : s.popped <+: s.written
  place : ∀ k, s.popped.length ≤ k → k < s.written.length →
    s.written[k]? = some (s.queue (k % cap))
  counted : s.numElements + s.popped.length = s.pushed.length + s.consumer.uncounted
  busy : s.consumer ≠ .idle → 0 < s.numElements
  notFailed : s.consumer ≠ .failed
  slot_eq : ∀ slot, s.consumer.slot = some slot → slot = s.nextIndexToRead
  written_eq : (s.pushed : Multiset T) + ∑ i, (s.producer i).uncounted = s.written
  begun_eq : (s.written : Multiset T) + ∑ i, (s.producer i).unwritten = s.begun
  claims : ∀ i, (s.producer i).Claims →
    (∀ j, (s.producer j).Claims → j = i) ∧ s.written.length < s.popped.length + cap
  claimed_slot : ∀ i value slot, s.producer i = .hasSlot value slot → slot = s.nextIndexToWrite
  claimed_value : ∀ i value, s.producer i = .copied value → s.queue s.nextIndexToWrite = value
  loaded_index : ∀ i value index, s.producer i = .loaded value index →
    index = s.nextIndexToWrite ∧ s.queue index = value

/-- A thread that takes a slot takes one nobody else has, and whose last element has been read. -/
def Clear (cap : ℕ) (s : State ι T) : Action ι T → Prop
  | .pickSlot _ => (∀ j, ¬ (s.producer j).Claims) ∧ s.written.length < s.popped.length + cap
  | _ => True

/-- It depends on where the thread stands only. -/
instance (p : Producer T) : Decidable p.Claims :=
  match p with
  | .hasSlot _ _ => .isTrue trivial
  | .copied _ => .isTrue trivial
  | .loaded _ _ => .isTrue trivial
  | .idle => .isFalse fun h => h
  | .hasRoom _ => .isFalse fun h => h
  | .advanced _ => .isFalse fun h => h

/-- All producers are looked at for the one step that matters. -/
instance [Fintype ι] (cap : ℕ) (s : State ι T) (a : Action ι T) : Decidable (Clear cap s a) :=
  match a with
  | .pickSlot _ => inferInstanceAs (Decidable (_ ∧ _))
  | .beginPush _ _ | .copyIn _ | .loadWrite _ | .advanceWrite _ | .countUp _ | .beginPop
  | .pickElement | .copyOut | .letGo | .checkElements | .advanceRead | .countDown => .isTrue trivial

/-- Every slot taken in the run is clear, checked step by step. -/
def clears [Fintype ι] [DecidableEq ι] (cap : ℕ) (blank : T) (acts : List (Action ι T)) : Bool :=
  (List.range acts.length).all fun k =>
    (acts[k]?).all fun a => (run cap blank (acts.take k)).all fun s => decide (Clear cap s a)

/-- A run that has been checked step by step takes clear slots only. -/
theorem meets_of_clears [Fintype ι] [DecidableEq ι] {cap : ℕ} {blank : T}
    {acts : List (Action ι T)} (h : clears cap blank acts = true) :
    Runs.Meets (fun acts s => Reaches cap s blank acts) (Clear cap) acts := by
  rintro acts₀ a acts₁ s rfl hrun
  have hk := List.all_eq_true.mp h acts₀.length (by simp)
  rw [List.getElem?_append_right le_rfl, Nat.sub_self, List.take_left,
    show run cap blank acts₀ = some s from hrun] at hk
  simpa using hk

/-- Two places of one round are different slots. -/
theorem place_ne {cap a b : ℕ} (hab : a < b) (hba : b < a + cap) : a % cap ≠ b % cap := by
  intro heq
  have hdvd : cap ∣ b - a := Nat.dvd_of_mod_eq_zero (Nat.sub_mod_eq_zero_of_mod_eq heq.symm)
  have := Nat.le_of_dvd (by omega) hdvd
  omega

section invariant

variable [Fintype ι] {cap : ℕ} {s : State ι T}

/-- A new queue holds nothing, and no thread is inside of it. -/
theorem inv_init (cap : ℕ) (blank : T) : Inv cap (State.init blank : State ι T) where
  writeIndex := by simp [State.init]
  readIndex := by simp [State.init]
  unpassed_le := Nat.zero_le _
  popped_prefix := List.prefix_refl _
  place k _ hk := by simp [State.init] at hk
  counted := rfl
  busy h := absurd rfl h
  notFailed := by simp [State.init]
  slot_eq slot h := by simp [State.init, Consumer.slot] at h
  written_eq := by simp [State.init, Producer.uncounted]
  begun_eq := by simp [State.init, Producer.unwritten]
  claims i h := h.elim
  claimed_slot i value slot h := by simp [State.init] at h
  claimed_value i value h := by simp [State.init] at h
  loaded_index i value index h := by simp [State.init] at h

namespace Inv

/-- The element the consumer is about to take is there. -/
theorem popped_lt (h : Inv cap s) (hc : s.consumer ≠ .idle) (hun : s.consumer.uncounted = 0) :
    s.popped.length < s.written.length := by
  have hpos := h.busy hc
  have hcounted := h.counted
  have hle : s.pushed.length ≤ s.written.length := by
    have := congrArg Multiset.card h.written_eq
    simp only [Multiset.card_add, Multiset.coe_card] at this
    omega
  omega

/-- The place of the next element is not one that is still to be read. -/
theorem place_ne_write (h : Inv cap s) (hroom : s.written.length < s.popped.length + cap) {k : ℕ}
    (hk : s.popped.length ≤ k) (hlt : k < s.written.length) : k % cap ≠ s.nextIndexToWrite := by
  rw [h.writeIndex]
  exact place_ne hlt (by omega)

/-! ### The consumer -/

/-- The consumer finds an element. -/
theorem beginPop (h : Inv cap s) (hpc : s.consumer = .idle) (hpos : 0 < s.numElements) :
    Inv cap { s with consumer := .hasElement } := by
  have hread := h.readIndex
  have hcounted := h.counted
  rw [hpc] at hread hcounted
  exact { h with
    readIndex := hread
    unpassed_le := Nat.zero_le _
    counted := hcounted
    busy := fun _ => hpos
    notFailed := fun hc => by cases hc
    slot_eq := fun slot hslot => by cases hslot }

/-- The consumer takes the address of the first one. -/
theorem pickElement (h : Inv cap s) (hpc : s.consumer = .hasElement) :
    Inv cap { s with consumer := .hasSlot s.nextIndexToRead } := by
  have hread := h.readIndex
  have hcounted := h.counted
  have hbusy := h.busy (by simp [hpc])
  rw [hpc] at hread hcounted
  exact { h with
    readIndex := hread
    unpassed_le := Nat.zero_le _
    counted := hcounted
    busy := fun _ => hbusy
    notFailed := fun hc => by cases hc
    slot_eq := fun slot hslot => by cases hslot; rfl }

/-- The element the consumer's pointer leads to is the next one of the queue. -/
theorem next_element {slot : ℕ} (h : Inv cap s) (hpc : s.consumer = .hasSlot slot) :
    s.written[s.popped.length]? = some (s.queue slot) := by
  have hlt := h.popped_lt (by simp [hpc]) (by rw [hpc]; rfl)
  have hslot : slot = s.nextIndexToRead := h.slot_eq slot (by rw [hpc]; rfl)
  have hread := h.readIndex
  rw [hpc] at hread
  rw [h.place _ le_rfl hlt, hslot, hread]
  rfl

/-- The consumer copies it: what it has taken gets longer by the next value written. -/
theorem copyOut {slot : ℕ} (h : Inv cap s) (hpc : s.consumer = .hasSlot slot) :
    Inv cap { s with consumer := .copied slot, popped := s.popped ++ [s.queue slot] } := by
  have hnext := h.next_element hpc
  have hslot : slot = s.nextIndexToRead := h.slot_eq slot (by rw [hpc]; rfl)
  have hread := h.readIndex
  have hcounted := h.counted
  have hbusy := h.busy (by simp [hpc])
  rw [hpc] at hread hcounted
  have hlen : (s.popped ++ [s.queue slot]).length = s.popped.length + 1 := by simp
  refine { h with
    readIndex := ?_
    unpassed_le := ?_
    popped_prefix := ?_
    place := ?_
    counted := ?_
    busy := fun _ => hbusy
    notFailed := fun hc => by cases hc
    slot_eq := ?_
    claims := ?_ }
  · show s.nextIndexToRead = ((s.popped ++ [s.queue slot]).length - 1) % cap
    rw [hlen, Nat.add_sub_cancel]
    exact hread
  · show 1 ≤ (s.popped ++ [s.queue slot]).length
    omega
  · obtain ⟨rest, hrest⟩ := h.popped_prefix
    rw [← hrest, List.getElem?_append_right le_rfl, Nat.sub_self] at hnext
    cases rest with
    | nil => simp at hnext
    | cons x rest =>
      simp only [List.getElem?_cons_zero, Option.some.injEq] at hnext
      exact ⟨rest, by rw [← hrest, ← hnext]; simp⟩
  · intro k hk hlt
    rw [hlen] at hk
    exact h.place k (by omega) hlt
  · show s.numElements + (s.popped ++ [s.queue slot]).length = s.pushed.length + 1
    rw [hlen, ← Nat.add_assoc, hcounted]
    rfl
  · intro slot' hslot'
    cases hslot'
    exact hslot
  · intro j hj
    obtain ⟨honly, hroom⟩ := h.claims j hj
    refine ⟨honly, ?_⟩
    show s.written.length < (s.popped ++ [s.queue slot]).length + cap
    omega

/-- The consumer gives its pointer up, and has taken nothing. -/
theorem letGo {slot : ℕ} (h : Inv cap s) (hpc : s.consumer = .hasSlot slot) :
    Inv cap { s with consumer := .idle } := by
  have hread := h.readIndex
  have hcounted := h.counted
  rw [hpc] at hread hcounted
  exact { h with
    readIndex := hread
    unpassed_le := Nat.zero_le _
    counted := hcounted
    busy := fun hc => absurd rfl hc
    notFailed := fun hc => by cases hc
    slot_eq := fun slot hslot => by cases hslot }

/-- The assertion of `updateReadIndex` holds: the element read is still counted. -/
theorem checkElements {slot : ℕ} (h : Inv cap s) (hpc : s.consumer = .copied slot) :
    Inv cap { s with consumer := if 0 < s.numElements then .checked slot else .failed } := by
  have hread := h.readIndex
  have hle := h.unpassed_le
  have hcounted := h.counted
  have hslot := h.slot_eq slot (by rw [hpc]; rfl)
  have hbusy := h.busy (by simp [hpc])
  rw [hpc] at hread hle hcounted
  rw [if_pos hbusy]
  exact { h with
    readIndex := hread
    unpassed_le := hle
    counted := hcounted
    busy := fun _ => hbusy
    notFailed := fun hc => by cases hc
    slot_eq := fun slot' hslot' => by cases hslot'; exact hslot }

/-- The read index passes the element read. -/
theorem advanceRead {slot : ℕ} (h : Inv cap s) (hpc : s.consumer = .checked slot) :
    Inv cap
      { s with consumer := .advanced, nextIndexToRead := (s.nextIndexToRead + 1) % cap } := by
  have hread := h.readIndex
  have hle := h.unpassed_le
  have hcounted := h.counted
  have hbusy := h.busy (by simp [hpc])
  rw [hpc] at hread hle hcounted
  refine { h with
    readIndex := ?_
    unpassed_le := Nat.zero_le _
    counted := hcounted
    busy := fun _ => hbusy
    notFailed := fun hc => by cases hc
    slot_eq := fun slot hslot => by cases hslot }
  show (s.nextIndexToRead + 1) % cap = s.popped.length % cap
  have hone : s.popped.length - 1 + 1 = s.popped.length := Nat.sub_add_cancel hle
  rw [hread, Nat.mod_add_mod]
  exact congrArg (· % cap) hone

/-- The element read is no longer counted. -/
theorem countDown (h : Inv cap s) (hpc : s.consumer = .advanced) :
    Inv cap { s with consumer := .idle, numElements := s.numElements - 1 } := by
  have hread := h.readIndex
  have hcounted := h.counted
  have hbusy := h.busy (by simp [hpc])
  rw [hpc] at hread hcounted
  refine { h with
    readIndex := hread
    unpassed_le := Nat.zero_le _
    counted := ?_
    busy := fun hc => absurd rfl hc
    notFailed := fun hc => by cases hc
    slot_eq := fun slot hslot => by cases hslot }
  show s.numElements - 1 + s.popped.length = s.pushed.length + 0
  change s.numElements + s.popped.length = s.pushed.length + 1 at hcounted
  omega

/-! ### The producers -/

variable [DecidableEq ι] {i : ι} {value : T}

/-- A thread moves on, and its share of a sum over the threads stays what it was. -/
theorem sum_keeps (f : Producer T → Multiset T) (s : State ι T) {p q : Producer T}
    (hpc : s.producer i = q) (hshare : f q = f p) :
    ∑ j, f ((s.setProducer i p).producer j) = ∑ j, f (s.producer j) := by
  have hsum := sum_update_add f s.producer i p
  rw [hpc, hshare] at hsum
  exact add_right_cancel hsum

/-- A thread moves on, and its share `x` comes in. -/
theorem sum_gains (f : Producer T → Multiset T) (s : State ι T) {p q : Producer T}
    {x : Multiset T} (hpc : s.producer i = q) (hq : f q = 0) (hp : f p = x) :
    ∑ j, f ((s.setProducer i p).producer j) = ∑ j, f (s.producer j) + x := by
  have hsum := sum_update_add f s.producer i p
  rw [hpc, hq, hp, add_zero] at hsum
  exact hsum

/-- A thread moves on, and its share `x` goes out. -/
theorem sum_loses (f : Producer T → Multiset T) (s : State ι T) {p q : Producer T}
    {x : Multiset T} (hpc : s.producer i = q) (hq : f q = x) (hp : f p = 0) :
    ∑ j, f ((s.setProducer i p).producer j) + x = ∑ j, f (s.producer j) := by
  have hsum := sum_update_add f s.producer i p
  rw [hpc, hq, hp, add_zero] at hsum
  exact hsum

/-- The other threads' slots are not touched by a thread that has none afterwards. -/
theorem claims_setProducer (h : Inv cap s) {p : Producer T} (hp : ¬ p.Claims) :
    ∀ j, ((s.setProducer i p).producer j).Claims →
      (∀ k, ((s.setProducer i p).producer k).Claims → k = j) ∧
        s.written.length < s.popped.length + cap := by
  have hold : ∀ j, ((s.setProducer i p).producer j).Claims → (s.producer j).Claims := by
    intro j hj
    rw [producer_setProducer] at hj
    split at hj
    · exact absurd hj hp
    · exact hj
  intro j hj
  obtain ⟨honly, hroom⟩ := h.claims j (hold j hj)
  exact ⟨fun k hk => honly k (hold k hk), hroom⟩

/-- The only thread that claims a slot, once it no longer does. -/
theorem no_claims_setProducer (h : Inv cap s) (hi : (s.producer i).Claims) {p : Producer T}
    (hp : ¬ p.Claims) (j : ι) : ¬ ((s.setProducer i p).producer j).Claims := by
  rw [producer_setProducer]
  split
  · exact hp
  · rename_i hj
    exact fun hc => hj ((h.claims i hi).1 j hc)

/-- What a thread's place says of its slot holds for the other threads as before. -/
theorem claimed_setProducer (h : Inv cap s) {p : Producer T} (hp : ¬ p.Claims) :
    (∀ j v slot, (s.setProducer i p).producer j = .hasSlot v slot → slot = s.nextIndexToWrite) ∧
      (∀ j v, (s.setProducer i p).producer j = .copied v → s.queue s.nextIndexToWrite = v) ∧
      ∀ j v index, (s.setProducer i p).producer j = .loaded v index →
        index = s.nextIndexToWrite ∧ s.queue index = v := by
  refine ⟨?_, ?_, ?_⟩
  · intro j v slot hj
    rw [producer_setProducer] at hj
    split at hj
    · rw [hj] at hp
      exact absurd trivial hp
    · exact h.claimed_slot j v slot hj
  · intro j v hj
    rw [producer_setProducer] at hj
    split at hj
    · rw [hj] at hp
      exact absurd trivial hp
    · exact h.claimed_value j v hj
  · intro j v index hj
    rw [producer_setProducer] at hj
    split at hj
    · rw [hj] at hp
      exact absurd trivial hp
    · exact h.loaded_index j v index hj

omit [Fintype ι] in
/-- A thread that is the only one to claim a slot is the one that has moved on. -/
theorem eq_of_claims {p q : Producer T}
    (honly : ∀ j, ((s.setProducer i p).producer j).Claims → j = i) {j : ι}
    (hj : (s.setProducer i p).producer j = q) (hq : q.Claims) : p = q := by
  have hji : j = i := honly j (by rw [hj]; exact hq)
  rw [producer_setProducer, if_pos hji] at hj
  exact hj

/-- A producer finds room. It has no slot yet, so that the others do not notice. -/
theorem beginPush (h : Inv cap s) (hpc : s.producer i = .idle) :
    Inv cap { s.setProducer i (.hasRoom value) with begun := s.begun ++ [value] } := by
  have hclaims : ¬ (Producer.hasRoom value).Claims := fun hc => hc
  obtain ⟨hslot, hvalue, hindex⟩ := h.claimed_setProducer (i := i) hclaims
  have huncounted := sum_keeps (p := .hasRoom value) Producer.uncounted s hpc rfl
  have hunwritten := sum_gains (p := .hasRoom value) Producer.unwritten s hpc rfl rfl
  refine { h with
    written_eq := ?_
    begun_eq := ?_
    claims := h.claims_setProducer hclaims
    claimed_slot := hslot
    claimed_value := hvalue
    loaded_index := hindex }
  · show (s.pushed : Multiset T) + _ = (s.written : Multiset T)
    rw [← h.written_eq]
    exact congrArg _ huncounted
  · rw [← Multiset.coe_add, ← h.begun_eq, add_assoc]
    exact congrArg _ hunwritten

/-- A producer takes the slot at the write index. The condition on the step says that no one else
has it and that it holds nothing that is still to be read. -/
theorem pickSlot (h : Inv cap s) (hpc : s.producer i = .hasRoom value)
    (hclear : Clear cap s (.pickSlot i)) :
    Inv cap (s.setProducer i (.hasSlot value s.nextIndexToWrite)) := by
  obtain ⟨hnone, hroom⟩ := hclear
  have huncounted :=
    sum_keeps (p := .hasSlot value s.nextIndexToWrite) Producer.uncounted s hpc rfl
  have hunwritten :=
    sum_keeps (p := .hasSlot value s.nextIndexToWrite) Producer.unwritten s hpc rfl
  have honly : ∀ j, ((s.setProducer i (.hasSlot value s.nextIndexToWrite)).producer j).Claims →
      j = i := by
    intro j hj
    rw [producer_setProducer] at hj
    split at hj
    · assumption
    · exact absurd hj (hnone j)
  refine { h with
    written_eq := ?_
    begun_eq := ?_
    claims := ?_
    claimed_slot := ?_
    claimed_value := ?_
    loaded_index := ?_ }
  · show (s.pushed : Multiset T) + _ = (s.written : Multiset T)
    rw [← h.written_eq]
    exact congrArg _ huncounted
  · show (s.written : Multiset T) + _ = (s.begun : Multiset T)
    rw [← h.begun_eq]
    exact congrArg _ hunwritten
  · intro j hj
    rw [honly j hj]
    exact ⟨honly, hroom⟩
  · intro j v slot hj
    cases eq_of_claims honly hj trivial
    rfl
  · intro j v hj
    cases eq_of_claims honly hj trivial
  · intro j v index hj
    cases eq_of_claims honly hj trivial

/-- The value goes into the slot, which no one is going to read before the index has passed it. -/
theorem copyIn {slot : ℕ} (h : Inv cap s) (hpc : s.producer i = .hasSlot value slot) :
    Inv cap
      { s.setProducer i (.copied value) with queue := Function.update s.queue slot value } := by
  obtain ⟨honly, hroom⟩ := h.claims i (by rw [hpc]; trivial)
  have hslot : slot = s.nextIndexToWrite := h.claimed_slot i value slot hpc
  subst hslot
  have huncounted := sum_keeps (p := .copied value) Producer.uncounted s hpc rfl
  have hunwritten := sum_keeps (p := .copied value) Producer.unwritten s hpc rfl
  have honly' : ∀ j, ((s.setProducer i (.copied value)).producer j).Claims → j = i := by
    intro j hj
    rw [producer_setProducer] at hj
    split at hj
    · assumption
    · exact honly j hj
  refine { h with
    place := ?_
    written_eq := ?_
    begun_eq := ?_
    claims := ?_
    claimed_slot := ?_
    claimed_value := ?_
    loaded_index := ?_ }
  · intro k hk hlt
    show _ = some (Function.update s.queue s.nextIndexToWrite value (k % cap))
    rw [Function.update_of_ne (h.place_ne_write hroom hk hlt)]
    exact h.place k hk hlt
  · show (s.pushed : Multiset T) + _ = (s.written : Multiset T)
    rw [← h.written_eq]
    exact congrArg _ huncounted
  · show (s.written : Multiset T) + _ = (s.begun : Multiset T)
    rw [← h.begun_eq]
    exact congrArg _ hunwritten
  · intro j hj
    rw [honly' j hj]
    exact ⟨honly', hroom⟩
  · intro j v slot hj
    cases eq_of_claims honly' hj trivial
  · intro j v hj
    cases eq_of_claims honly' hj trivial
    exact Function.update_self _ _ _
  · intro j v index hj
    cases eq_of_claims honly' hj trivial

/-- The write index is loaded: it is still the index of the slot, as no other producer is at one. -/
theorem loadWrite (h : Inv cap s) (hpc : s.producer i = .copied value) :
    Inv cap (s.setProducer i (.loaded value s.nextIndexToWrite)) := by
  obtain ⟨honly, hroom⟩ := h.claims i (by rw [hpc]; trivial)
  have hvalue : s.queue s.nextIndexToWrite = value := h.claimed_value i value hpc
  have huncounted :=
    sum_keeps (p := .loaded value s.nextIndexToWrite) Producer.uncounted s hpc rfl
  have hunwritten :=
    sum_keeps (p := .loaded value s.nextIndexToWrite) Producer.unwritten s hpc rfl
  have honly' : ∀ j, ((s.setProducer i (.loaded value s.nextIndexToWrite)).producer j).Claims →
      j = i := by
    intro j hj
    rw [producer_setProducer] at hj
    split at hj
    · assumption
    · exact honly j hj
  refine { h with
    written_eq := ?_
    begun_eq := ?_
    claims := ?_
    claimed_slot := ?_
    claimed_value := ?_
    loaded_index := ?_ }
  · show (s.pushed : Multiset T) + _ = (s.written : Multiset T)
    rw [← h.written_eq]
    exact congrArg _ huncounted
  · show (s.written : Multiset T) + _ = (s.begun : Multiset T)
    rw [← h.begun_eq]
    exact congrArg _ hunwritten
  · intro j hj
    rw [honly' j hj]
    exact ⟨honly', hroom⟩
  · intro j v slot hj
    cases eq_of_claims honly' hj trivial
  · intro j v hj
    cases eq_of_claims honly' hj trivial
  · intro j v index hj
    cases eq_of_claims honly' hj trivial
    exact ⟨rfl, hvalue⟩

/-- The write index passes the slot, and the value counts as written. -/
theorem advanceWrite {index : ℕ} (h : Inv cap s) (hpc : s.producer i = .loaded value index) :
    Inv cap
      { s.setProducer i (.advanced value) with
        nextIndexToWrite := (index + 1) % cap
        written := s.written ++ [value] } := by
  have hi : (s.producer i).Claims := by rw [hpc]; trivial
  have hclaims : ¬ (Producer.advanced value).Claims := fun hc => hc
  have hnone := h.no_claims_setProducer hi hclaims
  -- nobody has advanced the index since it was loaded
  obtain ⟨rfl, hvalue⟩ := h.loaded_index i value index hpc
  have huncounted := sum_gains (p := .advanced value) Producer.uncounted s hpc rfl rfl
  have hunwritten := sum_loses (p := .advanced value) Producer.unwritten s hpc rfl rfl
  refine { h with
    writeIndex := ?_
    popped_prefix := h.popped_prefix.trans (List.prefix_append _ _)
    place := ?_
    written_eq := ?_
    begun_eq := ?_
    claims := fun j hj => absurd hj (hnone j)
    claimed_slot := ?_
    claimed_value := ?_
    loaded_index := ?_ }
  · show (s.nextIndexToWrite + 1) % cap = (s.written ++ [value]).length % cap
    rw [h.writeIndex, Nat.mod_add_mod, List.length_append, List.length_singleton]
  · intro k hk hlt
    rw [List.length_append, List.length_singleton] at hlt
    show (s.written ++ [value])[k]? = some (s.queue (k % cap))
    by_cases hold : k < s.written.length
    · rw [List.getElem?_append_left hold]
      exact h.place k hk hold
    · -- the place of the new element
      have hlast : k = s.written.length := by omega
      rw [hlast, ← h.writeIndex, hvalue, List.getElem?_concat_length]
  · show (s.pushed : Multiset T) + _ = ((s.written ++ [value] : List T) : Multiset T)
    rw [← Multiset.coe_add, ← h.written_eq, add_assoc]
    exact congrArg _ huncounted
  · show ((s.written ++ [value] : List T) : Multiset T) + _ = (s.begun : Multiset T)
    rw [← h.begun_eq, ← hunwritten, ← Multiset.coe_add, add_assoc]
    congr 1
    exact add_comm _ _
  · intro j v slot hj
    exact absurd (by rw [show (s.setProducer i (.advanced value)).producer j = _ from hj]; trivial)
      (hnone j)
  · intro j v hj
    exact absurd (by rw [show (s.setProducer i (.advanced value)).producer j = _ from hj]; trivial)
      (hnone j)
  · intro j v index hj
    exact absurd (by rw [show (s.setProducer i (.advanced value)).producer j = _ from hj]; trivial)
      (hnone j)

/-- The count goes up, and the value counts as pushed. -/
theorem countUp (h : Inv cap s) (hpc : s.producer i = .advanced value) :
    Inv cap
      { s.setProducer i .idle with
        numElements := s.numElements + 1
        pushed := s.pushed ++ [value] } := by
  have hclaims : ¬ (Producer.idle : Producer T).Claims := fun hc => hc
  obtain ⟨hslot, hvalue, hindex⟩ := h.claimed_setProducer (i := i) hclaims
  have huncounted := sum_loses (p := .idle) Producer.uncounted s hpc rfl rfl
  have hunwritten := sum_keeps (p := .idle) Producer.unwritten s hpc rfl
  refine { h with
    counted := ?_
    busy := fun _ => Nat.succ_pos _
    written_eq := ?_
    begun_eq := ?_
    claims := h.claims_setProducer hclaims
    claimed_slot := hslot
    claimed_value := hvalue
    loaded_index := hindex }
  · have := h.counted
    show s.numElements + 1 + s.popped.length =
      (s.pushed ++ [value]).length + s.consumer.uncounted
    rw [List.length_append, List.length_singleton]
    omega
  · show ((s.pushed ++ [value] : List T) : Multiset T) + _ = (s.written : Multiset T)
    rw [← h.written_eq, ← huncounted, ← Multiset.coe_add, add_assoc]
    congr 1
    exact add_comm _ _
  · show (s.written : Multiset T) + _ = (s.begun : Multiset T)
    rw [← h.begun_eq]
    exact congrArg _ hunwritten

/-- **A step keeps the invariant**, if a slot that is taken is clear. -/
theorem step {a : Action ι T} {s' : State ι T} (h : Inv cap s) (hclear : Clear cap s a)
    (hstep : LFQueue.step cap s a = some s') : Inv cap s' := by
  cases step_cases hstep with
  | beginPush hpc _ => exact h.beginPush hpc
  | refused _ _ => exact h
  | pickSlot hpc => exact h.pickSlot hpc hclear
  | copyIn hpc => exact h.copyIn hpc
  | loadWrite hpc => exact h.loadWrite hpc
  | advanceWrite hpc => exact h.advanceWrite hpc
  | countUp hpc => exact h.countUp hpc
  | beginPop hpc hpos => exact h.beginPop hpc hpos
  | empty _ _ => exact h
  | pickElement hpc => exact h.pickElement hpc
  | copyOut hpc => exact h.copyOut hpc
  | letGo hpc => exact h.letGo hpc
  | checkElements hpc => exact h.checkElements hpc
  | advanceRead hpc => exact h.advanceRead hpc
  | countDown hpc => exact h.countDown hpc

/-- Every state of a run whose slots are taken clear has the invariant. -/
theorem throughout {blank : T} {acts : List (Action ι T)}
    (h : Runs.Meets (fun acts s => Reaches cap s blank acts) (Clear cap) acts) :
    Runs.Throughout (fun acts s => Reaches cap s blank acts) (Inv cap) acts :=
  h.throughout (runsOf_queue ι cap blank) (inv_init cap blank)
    fun _ _ _ _ _ hinv hclear hstep => hinv.step hclear hstep

end Inv

end invariant

/-! ## Between the calls -/

/-- No thread is inside one of the queue's functions. -/
def State.AtRest (s : State ι T) : Prop := (∀ i, s.producer i = .idle) ∧ s.consumer = .idle

/-- Every thread is looked at. -/
instance [Fintype ι] [DecidableEq T] (s : State ι T) : Decidable s.AtRest :=
  inferInstanceAs (Decidable (_ ∧ _))

/-- What further calls of `pop` will return: the elements counted, from the read index on. -/
def State.waiting (cap : ℕ) (s : State ι T) : List T :=
  (List.range s.numElements).map fun k => s.queue ((s.nextIndexToRead + k) % cap)

section rest

variable [Fintype ι] {cap : ℕ} {s : State ι T}

/-- At rest, what has been popped and what waits is what has been written. -/
theorem Inv.popped_append_waiting (h : Inv cap s) (hrest : s.AtRest) :
    s.popped ++ s.waiting cap = s.written := by
  obtain ⟨hprod, hcons⟩ := hrest
  have hcounted := h.counted
  have hread := h.readIndex
  have hlen : s.pushed.length = s.written.length := by
    have hcard := congrArg Multiset.card h.written_eq
    simpa [hprod, Producer.uncounted] using hcard
  rw [hcons] at hcounted hread
  change s.numElements + s.popped.length = s.pushed.length + 0 at hcounted
  change s.nextIndexToRead = s.popped.length % cap at hread
  have hdrop : s.waiting cap = s.written.drop s.popped.length := by
    refine List.ext_getElem? fun k => ?_
    rw [List.getElem?_drop, State.waiting, List.getElem?_map]
    by_cases hk : k < s.numElements
    · rw [List.getElem?_range hk, h.place _ (by omega) (by omega), Option.map_some, hread,
        Nat.mod_add_mod]
    · rw [List.getElem?_eq_none (by simpa using hk), List.getElem?_eq_none (by omega)]
      rfl
  obtain ⟨rest, hprefix⟩ := h.popped_prefix
  rw [hdrop, ← hprefix, List.drop_left]

/-- At rest, what has been written is what has been pushed. -/
theorem Inv.written_perm_pushed (h : Inv cap s) (hrest : s.AtRest) : s.written.Perm s.pushed := by
  have heq := h.written_eq
  simp only [hrest.1, Producer.uncounted, Finset.sum_const_zero, add_zero] at heq
  exact Multiset.coe_eq_coe.mp heq.symm

/-- What has been popped are values of pushes that have been called. -/
theorem Inv.popped_le_begun (h : Inv cap s) : (s.popped : Multiset T) ≤ s.begun := by
  have hle : (s.popped : Multiset T) ≤ s.written :=
    Multiset.coe_le.mpr h.popped_prefix.sublist.subperm
  apply hle.trans
  rw [← h.begun_eq]
  exact Multiset.le_add_right _ _

end rest

end LFQueue

end HftSys
