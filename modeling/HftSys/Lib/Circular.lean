import Mathlib.Data.List.Chain
import Mathlib.Data.List.Nodup
import Mathlib.Data.List.Range
import Mathlib.Dynamics.PeriodicPts.Lemmas
import Mathlib.Logic.Function.Basic

/-!
# Circular doubly-linked lists

Nodes of a type `ι` carry two nullable links (`Links ι`). `IsRing k l` says that the nodes of `l`,
in this order, form one closed circle of `k`, linked both ways.

* `IsRing.rotate`: the circle has no first node.
* `IsRing.append` and `IsRing.insert`: what the four link assignments of an insertion (`splice`)
  do; `IsRing.erase`: what the two assignments of a removal (`join`) do.
* `IsRing.congr`: the frame rule. Only the links of the circle's own nodes matter.
* `Closed k U`: the nodes of `U` are linked among themselves, in whatever circles. It survives the
  same assignments, and every node of a finite `U` is on a circle (`Closed.exists_ring`).
* `ringFrom`: the walk along `next` from a head pointer, once round; on a circle it visits exactly
  its nodes (`IsRing.ringFrom_eq`).
* `around`: the elements of a list closed to a circle, each between its neighbours; on a circle
  these are the nodes it is linked to (`IsRing.joined_around`).
-/

namespace Circular

universe u

/-- The two links of every node. -/
@[ext]
structure Links (ι : Type u) where
  next : ι → Option ι
  prev : ι → Option ι

namespace Links

variable {ι : Type u} (k : Links ι)

/-- `y` comes after `x`, seen from both. -/
def Joined (x y : ι) : Prop := k.next x = some y ∧ k.prev y = some x

/-- The nodes of `l` form a circle in this order. -/
structure IsRing (l : List ι) : Prop where
  nodup : l.Nodup
  chain : List.IsChain k.Joined (l ++ l.head?.toList)

variable {k}

/-- No nodes form a circle. -/
theorem isRing_nil : k.IsRing [] := ⟨List.nodup_nil, by simp⟩

/-- One node is a circle when it follows itself. -/
theorem isRing_singleton {x : ι} : k.IsRing [x] ↔ k.Joined x x := by
  constructor
  · intro h
    simpa using h.chain
  · intro h
    exact ⟨List.nodup_singleton x, by simpa using h⟩

/-! ## Rotation -/

/-- The first node may be listed last. -/
theorem IsRing.rotate_one {x : ι} {l : List ι} (h : k.IsRing (x :: l)) : k.IsRing (l ++ [x]) := by
  refine ⟨?_, ?_⟩
  · have := h.nodup
    rw [List.nodup_append_comm]
    simpa using this
  · cases l with
    | nil => simpa using h.chain
    | cons y l =>
      have hc := h.chain
      simp only [List.head?_cons, Option.toList_some, List.cons_append,
        List.isChain_cons_cons] at hc
      have hsplit : List.IsChain k.Joined ((y :: l) ++ x :: [y]) :=
        List.isChain_split.mpr ⟨hc.2, by simpa using hc.1⟩
      simpa using hsplit

/-- Any node may be listed first. -/
theorem IsRing.rotate {l₁ l₂ : List ι} (h : k.IsRing (l₁ ++ l₂)) : k.IsRing (l₂ ++ l₁) := by
  induction l₁ generalizing l₂ with
  | nil => simpa using h
  | cons x l₁ ih =>
    have h₁ : k.IsRing (l₁ ++ (l₂ ++ [x])) := by
      rw [← List.append_assoc]
      exact IsRing.rotate_one h
    simpa using ih h₁

/-! ## Neighbours -/

/-- The last node is followed by the first. -/
theorem IsRing.joined_last {l : List ι} {x y : ι} (h : k.IsRing l) (hx : l.getLast? = some x)
    (hy : l.head? = some y) : k.Joined x y := by
  obtain ⟨s, rfl⟩ := List.getLast?_eq_some_iff.mp hx
  have hc := h.chain
  rw [hy, List.append_assoc] at hc
  have := (List.isChain_split.mp hc).2
  simpa using this

/-- Consecutive nodes are joined. -/
theorem IsRing.joined {l₁ l₂ : List ι} {x y : ι} (h : k.IsRing (l₁ ++ x :: y :: l₂)) :
    k.Joined x y := by
  have hc := h.chain
  rw [List.append_assoc] at hc
  exact (List.isChain_cons_cons.mp (List.isChain_split.mp hc).2).1

/-- The first node is joined to the second. -/
theorem IsRing.joined_head {l : List ι} {x y : ι} (h : k.IsRing (x :: y :: l)) : k.Joined x y := by
  have h' : k.IsRing ([] ++ x :: y :: l) := h
  exact h'.joined

/-- Every node has a successor on the circle. -/
theorem IsRing.exists_next {l : List ι} {x : ι} (h : k.IsRing l) (hx : x ∈ l) :
    ∃ y ∈ l, k.Joined x y := by
  obtain ⟨s, t, rfl⟩ := List.append_of_mem hx
  have h' : k.IsRing (x :: (t ++ s)) := by simpa using h.rotate
  cases hts : t ++ s with
  | nil =>
    rw [hts] at h'
    exact ⟨x, hx, isRing_singleton.mp h'⟩
  | cons y r =>
    rw [hts] at h'
    have hy : y ∈ t ++ s := by rw [hts]; exact List.mem_cons_self
    refine ⟨y, ?_, h'.joined_head⟩
    rcases List.mem_append.mp hy with hy | hy <;> simp [hy]

/-- Every node has a predecessor on the circle. -/
theorem IsRing.exists_prev {l : List ι} {y : ι} (h : k.IsRing l) (hy : y ∈ l) :
    ∃ x ∈ l, k.Joined x y := by
  obtain ⟨s, t, rfl⟩ := List.append_of_mem hy
  have h' : k.IsRing (y :: (t ++ s)) := by simpa using h.rotate
  have hne : y :: (t ++ s) ≠ [] := by simp
  refine ⟨(y :: (t ++ s)).getLast hne, ?_,
    h'.joined_last (List.getLast?_eq_some_getLast hne) rfl⟩
  have := List.getLast_mem hne
  simp only [List.mem_cons, List.mem_append] at this ⊢
  tauto

/-- A node is its own successor only when it is alone. -/
theorem IsRing.eq_singleton {l : List ι} {x : ι} (h : k.IsRing l) (hx : x ∈ l)
    (hself : k.next x = some x) : l = [x] := by
  obtain ⟨s, t, rfl⟩ := List.append_of_mem hx
  have h' : k.IsRing (x :: (t ++ s)) := by simpa using h.rotate
  cases hts : t ++ s with
  | nil =>
    obtain ⟨rfl, rfl⟩ := List.append_eq_nil_iff.mp hts
    rfl
  | cons y r =>
    rw [hts] at h'
    have hj : k.Joined x y := h'.joined_head
    have hxy : x = y := by
      have := hself.symm.trans hj.1
      simpa using this
    have hnd := h'.nodup
    simp [hxy] at hnd

/-- A node is its own predecessor only when it is its own successor. -/
theorem IsRing.prev_self_iff {l : List ι} {x : ι} (h : k.IsRing l) (hx : x ∈ l) :
    k.prev x = some x ↔ k.next x = some x := by
  constructor
  · intro hp
    obtain ⟨w, _, hw⟩ := h.exists_prev hx
    have : w = x := by
      have := hw.2.symm.trans hp
      simpa using this
    subst this
    exact hw.1
  · intro hn
    obtain ⟨y, _, hy⟩ := h.exists_next hx
    have : y = x := by
      have := hy.1.symm.trans hn
      simpa using this
    subst this
    exact hy.2

/-! ## The frame rule -/

/-- A node of the closed listing is a node of the circle. -/
theorem mem_closed {l : List ι} {x : ι} (h : x ∈ l ++ l.head?.toList) : x ∈ l := by
  rcases List.mem_append.mp h with h | h
  · exact h
  · cases l with
    | nil => simp at h
    | cons y l => simp at h; simp [h]

/-- Only the links of the circle's own nodes matter. -/
theorem IsRing.congr {k' : Links ι} {l : List ι} (h : k.IsRing l)
    (hnext : ∀ x ∈ l, k'.next x = k.next x) (hprev : ∀ x ∈ l, k'.prev x = k.prev x) :
    k'.IsRing l := by
  refine ⟨h.nodup, h.chain.imp_of_mem_imp fun x y hx hy hxy => ?_⟩
  have hx := mem_closed hx
  have hy := mem_closed hy
  exact ⟨by rw [hnext x hx]; exact hxy.1, by rw [hprev y hy]; exact hxy.2⟩

/-- The pairs of an open chain keep their links when only the `next` of its last node and the
`prev` of its first node are assigned. -/
theorem chain_of_join {k' : Links ι} {l : List ι} {z w : ι} (hnd : l.Nodup)
    (hc : List.IsChain k.Joined l) (hz : ∀ b ∈ l.tail, k.next z ≠ some b)
    (hw : l.head? = some w) (hnext : ∀ a ∈ l, a ≠ z → k'.next a = k.next a)
    (hprev : ∀ b ∈ l, b ≠ w → k'.prev b = k.prev b) : List.IsChain k'.Joined l := by
  rw [List.IsChain.iff_mem_mem_tail] at hc
  apply hc.imp
  rintro a b ⟨ha, hb, hab⟩
  have hbw : b ≠ w := by
    rintro rfl
    cases l with
    | nil => simp at hw
    | cons c l =>
      simp only [List.head?_cons, Option.some.injEq] at hw
      subst hw
      exact (List.nodup_cons.mp hnd).1 hb
  have haz : a ≠ z := by
    rintro rfl
    exact hz b hb hab.1
  exact ⟨by rw [hnext a ha haz]; exact hab.1,
    by rw [hprev b (List.mem_of_mem_tail hb) hbw]; exact hab.2⟩

/-! ## Sets of nodes linked among themselves -/

/-- Every node of `U` has a successor and a predecessor in `U`. -/
structure Closed (k : Links ι) (U : ι → Prop) : Prop where
  next : ∀ x, U x → ∃ y, U y ∧ k.Joined x y
  prev : ∀ y, U y → ∃ x, U x ∧ k.Joined x y

/-- A set with no nodes is linked among itself. -/
theorem closed_empty {U : ι → Prop} (h : ∀ x, ¬ U x) : k.Closed U :=
  ⟨fun x hx => absurd hx (h x), fun x hx => absurd hx (h x)⟩

/-- The frame rule for sets of nodes. -/
theorem Closed.congr {k' : Links ι} {U : ι → Prop} (h : k.Closed U)
    (hnext : ∀ x, U x → k'.next x = k.next x) (hprev : ∀ x, U x → k'.prev x = k.prev x) :
    k'.Closed U := by
  constructor
  · intro x hx
    obtain ⟨y, hy, hxy⟩ := h.next x hx
    exact ⟨y, hy, by rw [hnext x hx]; exact hxy.1, by rw [hprev y hy]; exact hxy.2⟩
  · intro y hy
    obtain ⟨x, hx, hxy⟩ := h.prev y hy
    exact ⟨x, hx, by rw [hnext x hx]; exact hxy.1, by rw [hprev y hy]; exact hxy.2⟩

/-- In a finite set linked among itself, following `next` from a node comes back to it. -/
theorem Closed.exists_ring [Finite ι] {U : ι → Prop} (h : k.Closed U) {x : ι} (hx : U x) :
    ∃ l, k.IsRing (x :: l) ∧ ∀ y ∈ x :: l, U y := by
  choose g hg using fun a : {a // U a} => h.next a.1 a.2
  let f : {a // U a} → {a // U a} := fun a => ⟨g a, (hg a).1⟩
  have hf : ∀ a, k.Joined a.1 (f a).1 := fun a => (hg a).2
  have hinj : Function.Injective f := by
    intro a b hab
    have ha := (hf a).2
    rw [hab, (hf b).2] at ha
    exact Subtype.ext (Option.some.inj ha).symm
  let a₀ : {a // U a} := ⟨x, hx⟩
  have hpos : 0 < Function.minimalPeriod f a₀ :=
    Function.minimalPeriod_pos_of_mem_periodicPts (hinj.mem_periodicPts a₀)
  obtain ⟨n, hn⟩ := Nat.exists_eq_succ_of_ne_zero (Nat.ne_of_gt hpos)
  let orbit : ℕ → ι := fun i => (f^[i] a₀).1
  have hhead : (List.range (n + 1)).map orbit = x :: (List.range n).map (orbit ∘ Nat.succ) := by
    rw [List.range_succ_eq_map, List.map_cons, List.map_map]
    rfl
  refine ⟨(List.range n).map (orbit ∘ Nat.succ), ⟨?_, ?_⟩, ?_⟩
  · -- the nodes before the period are distinct
    rw [← hhead]
    refine List.Nodup.map_on ?_ List.nodup_range
    intro i hi j hj hij
    have hi' : i < Function.minimalPeriod f a₀ := by rw [hn]; exact List.mem_range.mp hi
    have hj' : j < Function.minimalPeriod f a₀ := by rw [hn]; exact List.mem_range.mp hj
    exact Function.iterate_injOn_Iio_minimalPeriod hi' hj' (Subtype.ext hij)
  · -- each is joined to the next, and the last to the first
    have hclosed : x :: (List.range n).map (orbit ∘ Nat.succ) ++ [x] =
        (List.range (n + 2)).map orbit := by
      have hback : orbit (n + 1) = x := by
        show (f^[n + 1] a₀).1 = x
        rw [← Nat.succ_eq_add_one, ← hn, Function.iterate_minimalPeriod]
      rw [← hhead, List.range_succ (n := n + 1), List.map_append, List.map_singleton, hback]
    rw [List.head?_cons, Option.toList_some, hclosed, List.isChain_map, List.isChain_range]
    intro i _
    show k.Joined (f^[i] a₀).1 (f^[i + 1] a₀).1
    rw [Function.iterate_succ_apply']
    exact hf _
  · rw [← hhead]
    intro y hy
    obtain ⟨i, _, rfl⟩ := List.mem_map.mp hy
    exact (f^[i] a₀).2

/-- A node alone on its circle, taken out of the set. -/
theorem Closed.erase_self {U : ι → Prop} (h : k.Closed U) {p : ι} (hp : k.Joined p p) :
    k.Closed fun z => U z ∧ z ≠ p := by
  constructor
  · rintro z ⟨hz, hzp⟩
    obtain ⟨c, hc, hzc⟩ := h.next z hz
    refine ⟨c, ⟨hc, ?_⟩, hzc⟩
    rintro rfl
    exact hzp (Option.some.inj (hzc.2.symm.trans hp.2))
  · rintro z ⟨hz, hzp⟩
    obtain ⟨c, hc, hcz⟩ := h.prev z hz
    refine ⟨c, ⟨hc, ?_⟩, hcz⟩
    rintro rfl
    exact hzp (Option.some.inj (hcz.1.symm.trans hp.1))

section updates

variable [DecidableEq ι]

/-! ## Link assignments -/

/-- `x.next = v`. -/
def setNext (k : Links ι) (x : ι) (v : Option ι) : Links ι :=
  { k with next := Function.update k.next x v }

/-- `x.prev = v`. -/
def setPrev (k : Links ι) (x : ι) (v : Option ι) : Links ι :=
  { k with prev := Function.update k.prev x v }

/-- `x.prev = x.next = nullptr`. -/
def clear (k : Links ι) (x : ι) : Links ι := (k.setPrev x none).setNext x none

/-- `x.next = y; y.prev = x`. -/
def join (k : Links ι) (x y : ι) : Links ι := (k.setNext x (some y)).setPrev y (some x)

/-- `n` put between `x` and `y`: the four assignments of an insertion. -/
def splice (k : Links ι) (x n y : ι) : Links ι := (k.join x n).join n y

theorem join_next (k : Links ι) (x y z : ι) :
    (k.join x y).next z = if z = x then some y else k.next z := by
  simp only [join, setNext, setPrev, Function.update_apply]

theorem join_prev (k : Links ι) (x y z : ι) :
    (k.join x y).prev z = if z = y then some x else k.prev z := by
  simp only [join, setNext, setPrev, Function.update_apply]

theorem splice_next (k : Links ι) (x n y z : ι) :
    (k.splice x n y).next z = if z = n then some y else if z = x then some n else k.next z := by
  simp only [splice, join_next]

theorem splice_prev (k : Links ι) (x n y z : ι) :
    (k.splice x n y).prev z = if z = y then some n else if z = n then some x else k.prev z := by
  simp only [splice, join_prev]

/-- Joining a node to itself overwrites its links. -/
theorem join_self_congr {k k' : Links ι} {n : ι}
    (hnext : ∀ z, z ≠ n → k'.next z = k.next z) (hprev : ∀ z, z ≠ n → k'.prev z = k.prev z) :
    k'.join n n = k.join n n := by
  ext z : 2
  · rw [join_next, join_next]
    by_cases hz : z = n
    · rw [if_pos hz, if_pos hz]
    · rw [if_neg hz, if_neg hz, hnext z hz]
  · rw [join_prev, join_prev]
    by_cases hz : z = n
    · rw [if_pos hz, if_pos hz]
    · rw [if_neg hz, if_neg hz, hprev z hz]

/-- Splicing a node in overwrites its links. -/
theorem splice_congr {k k' : Links ι} {n : ι} (x y : ι)
    (hnext : ∀ z, z ≠ n → k'.next z = k.next z) (hprev : ∀ z, z ≠ n → k'.prev z = k.prev z) :
    k'.splice x n y = k.splice x n y := by
  ext z : 2
  · rw [splice_next, splice_next]
    by_cases hz : z = n
    · rw [if_pos hz, if_pos hz]
    · rw [if_neg hz, if_neg hz, hnext z hz]
  · rw [splice_prev, splice_prev]
    by_cases hz : z = n
    · rw [if_pos hz, if_pos hz]
    · rw [if_neg hz, if_neg hz, hprev z hz]

/-- A node joined to itself is a circle. -/
theorem isRing_join_self (k : Links ι) (n : ι) : (k.join n n).IsRing [n] := by
  rw [isRing_singleton]
  exact ⟨by simp [join_next], by simp [join_prev]⟩

/-- A circle without `n` is not touched by joining `n` to itself. -/
theorem IsRing.join_self {l : List ι} {n : ι} (h : k.IsRing l) (hn : n ∉ l) :
    (k.join n n).IsRing l := by
  refine h.congr ?_ ?_
  · intro z hz
    rw [join_next, if_neg (fun e => hn (by rwa [← e]))]
  · intro z hz
    rw [join_prev, if_neg (fun e => hn (by rwa [← e]))]

/-- A circle without any of the three nodes is not touched by a splice. -/
theorem IsRing.splice_other {l : List ι} {x n y : ι} (h : k.IsRing l) (hx : x ∉ l) (hn : n ∉ l)
    (hy : y ∉ l) : (k.splice x n y).IsRing l := by
  refine h.congr ?_ ?_
  · intro z hz
    rw [splice_next, if_neg (fun e => hn (by rwa [← e])), if_neg (fun e => hx (by rwa [← e]))]
  · intro z hz
    rw [splice_prev, if_neg (fun e => hy (by rwa [← e])), if_neg (fun e => hn (by rwa [← e]))]

/-- A node put between the last and the first node of a circle is its new last node. -/
theorem IsRing.append {l : List ι} {x n y : ι} (h : k.IsRing l) (hx : l.getLast? = some x)
    (hy : l.head? = some y) (hn : n ∉ l) : (k.splice x n y).IsRing (l ++ [n]) := by
  have hxl : x ∈ l := List.mem_of_getLast? hx
  have hyl : y ∈ l := List.mem_of_head? hy
  have hxn : x ≠ n := fun e => hn (e ▸ hxl)
  have hyn : y ≠ n := fun e => hn (e ▸ hyl)
  have hxy := h.joined_last hx hy
  refine ⟨List.nodup_append.mpr ⟨h.nodup, List.nodup_singleton n, ?_⟩, ?_⟩
  · intro a ha b hb
    simp only [List.mem_singleton] at hb
    rintro rfl
    exact hn (hb ▸ ha)
  · have hopen : List.IsChain (k.splice x n y).Joined l := by
      refine chain_of_join (k := k) (z := x) (w := y) h.nodup h.chain.left_of_append ?_ hy ?_ ?_
      · intro b hb hxb
        have : b = y := by
          have := hxb.symm.trans hxy.1
          simpa using this
        subst this
        cases l with
        | nil => simp at hy
        | cons c l =>
          simp only [List.head?_cons, Option.some.injEq] at hy
          subst hy
          exact (List.nodup_cons.mp h.nodup).1 hb
      · intro a ha hax
        have han : a ≠ n := fun e => hn (e ▸ ha)
        simp [splice_next, han, hax]
      · intro b hb hby
        have hbn : b ≠ n := fun e => hn (e ▸ hb)
        simp [splice_prev, hbn, hby]
    have hhead : (l ++ [n]).head? = some y := by
      rw [List.head?_append, hy]
      rfl
    have h₁ : (k.splice x n y).Joined x n := by
      constructor
      · simp [splice_next, hxn]
      · simp [splice_prev, hyn.symm]
    have h₂ : (k.splice x n y).Joined n y := by
      constructor
      · simp [splice_next]
      · simp [splice_prev]
    obtain ⟨s, rfl⟩ := List.getLast?_eq_some_iff.mp hx
    rw [hhead]
    have : List.IsChain (k.splice x n y).Joined (s ++ x :: [n, y]) :=
      List.isChain_split.mpr ⟨hopen, by simp [h₁, h₂]⟩
    simpa using this

/-- A node put between two neighbours of a circle: `l₁` ends in `x` and `l₂` starts with `y`, up to
going round. -/
theorem IsRing.insert {l₁ l₂ : List ι} {x n y : ι} (h : k.IsRing (l₁ ++ l₂))
    (hx : (l₂ ++ l₁).getLast? = some x) (hy : (l₂ ++ l₁).head? = some y) (hn : n ∉ l₁ ++ l₂) :
    (k.splice x n y).IsRing (l₁ ++ n :: l₂) := by
  have hn' : n ∉ l₂ ++ l₁ := by
    simpa [or_comm] using hn
  have h' := h.rotate.append hx hy hn'
  rw [List.append_assoc] at h'
  simpa using h'.rotate

/-- The last node taken out of a circle. -/
theorem IsRing.dropLast {l : List ι} {x p y : ι} (h : k.IsRing (l ++ [p]))
    (hx : l.getLast? = some x) (hy : l.head? = some y) : (k.join x y).IsRing l := by
  have hnd : l.Nodup := (List.nodup_append.mp h.nodup).1
  have hpl : p ∉ l := by
    intro hp
    exact (List.nodup_append.mp h.nodup).2.2 p hp p (List.mem_singleton_self p) rfl
  have hxp : k.Joined x p := by
    obtain ⟨s, rfl⟩ := List.getLast?_eq_some_iff.mp hx
    have h' : k.IsRing (s ++ x :: p :: []) := by simpa using h
    exact h'.joined
  refine ⟨hnd, ?_⟩
  have hopen : List.IsChain (k.join x y).Joined l := by
    refine chain_of_join (k := k) (z := x) (w := y) hnd h.chain.left_of_append.left_of_append
      ?_ hy ?_ ?_
    · intro b hb hxb
      have : b = p := by
        have := hxb.symm.trans hxp.1
        simpa using this
      exact hpl (this ▸ List.mem_of_mem_tail hb)
    · intro a _ hax
      simp [join_next, hax]
    · intro b _ hby
      simp [join_prev, hby]
  have hclose : (k.join x y).Joined x y := ⟨by simp [join_next], by simp [join_prev]⟩
  obtain ⟨s, rfl⟩ := List.getLast?_eq_some_iff.mp hx
  rw [hy]
  have : List.IsChain (k.join x y).Joined (s ++ x :: [y]) :=
    List.isChain_split.mpr ⟨hopen, by simp [hclose]⟩
  simpa using this

/-- A node taken out of a circle by joining its neighbours. -/
theorem IsRing.erase {l : List ι} {x p y : ι} (h : k.IsRing l) (hp : p ∈ l)
    (hx : k.prev p = some x) (hy : k.next p = some y) (hne : y ≠ p) :
    (k.join x y).IsRing (l.erase p) := by
  obtain ⟨s, t, rfl⟩ := List.append_of_mem hp
  have hps : p ∉ s := by
    intro hs
    exact (List.nodup_append.mp h.nodup).2.2 p hs p List.mem_cons_self rfl
  have hr : k.IsRing ((t ++ s) ++ [p]) := by
    have h' : k.IsRing ((s ++ [p]) ++ t) := by simpa using h
    simpa using h'.rotate
  have hr' : k.IsRing (p :: (t ++ s)) := hr.rotate
  cases hts : t ++ s with
  | nil =>
    rw [hts] at hr'
    have hself := (isRing_singleton.mp hr').1.symm.trans hy
    exact absurd (Option.some.inj hself).symm hne
  | cons c r =>
    have hhead : (t ++ s).head? = some y := by
      rw [hts] at hr' ⊢
      have hj : k.Joined p c := hr'.joined_head
      simpa using hj.1.symm.trans hy
    have hlast : (t ++ s).getLast? = some x := by
      have hne' : t ++ s ≠ [] := by simp [hts]
      have hj : k.Joined ((t ++ s).getLast hne') p := by
        refine hr'.joined_last ?_ rfl
        rw [List.getLast?_cons, List.getLast?_eq_some_getLast hne']
        rfl
      rw [List.getLast?_eq_some_getLast hne', ← hx, hj.2]
    have := (hr.dropLast hlast hhead).rotate
    rwa [List.erase_append_right _ hps, List.erase_cons_head]

/-- A node put between two joined nodes of the set. -/
theorem Closed.splice {U : ι → Prop} (h : k.Closed U) {x n y : ι} (hx : U x) (hy : U y)
    (hxy : k.Joined x y) (hn : ¬ U n) : (k.splice x n y).Closed fun z => z = n ∨ U z := by
  have hxn : x ≠ n := fun e => hn (e ▸ hx)
  have hyn : y ≠ n := fun e => hn (e ▸ hy)
  have h₁ : (k.splice x n y).Joined x n :=
    ⟨by simp [splice_next, hxn], by simp [splice_prev, hyn.symm]⟩
  have h₂ : (k.splice x n y).Joined n y := ⟨by simp [splice_next], by simp [splice_prev]⟩
  -- a joined pair other than `x`, `y` is left alone
  have hkeep : ∀ a b, U a → U b → k.Joined a b → a ≠ x → (k.splice x n y).Joined a b := by
    intro a b ha hb hab hax
    have han : a ≠ n := fun e => hn (e ▸ ha)
    have hbn : b ≠ n := fun e => hn (e ▸ hb)
    have hby : b ≠ y := by
      rintro rfl
      exact hax (Option.some.inj (hab.2.symm.trans hxy.2))
    exact ⟨by simp [splice_next, han, hax, hab.1], by simp [splice_prev, hbn, hby, hab.2]⟩
  constructor
  · rintro z (rfl | hz)
    · exact ⟨y, Or.inr hy, h₂⟩
    · by_cases hzx : z = x
      · exact ⟨n, Or.inl rfl, hzx ▸ h₁⟩
      · obtain ⟨w, hw, hzw⟩ := h.next z hz
        exact ⟨w, Or.inr hw, hkeep z w hz hw hzw hzx⟩
  · rintro z (rfl | hz)
    · exact ⟨x, Or.inr hx, h₁⟩
    · by_cases hzy : z = y
      · exact ⟨n, Or.inl rfl, hzy ▸ h₂⟩
      · obtain ⟨w, hw, hwz⟩ := h.prev z hz
        refine ⟨w, Or.inr hw, hkeep w z hw hz hwz ?_⟩
        rintro rfl
        exact hzy (Option.some.inj (hwz.1.symm.trans hxy.1))

/-- A node joined to itself, added to the set. -/
theorem Closed.single {U : ι → Prop} (h : k.Closed U) {n : ι} (hn : ¬ U n) :
    (k.join n n).Closed fun z => z = n ∨ U z := by
  have h₁ : (k.join n n).Joined n n := ⟨by simp [join_next], by simp [join_prev]⟩
  have hkeep : ∀ a b, U a → U b → k.Joined a b → (k.join n n).Joined a b := by
    intro a b ha hb hab
    have han : a ≠ n := fun e => hn (e ▸ ha)
    have hbn : b ≠ n := fun e => hn (e ▸ hb)
    exact ⟨by simp [join_next, han, hab.1], by simp [join_prev, hbn, hab.2]⟩
  constructor
  · rintro z (rfl | hz)
    · exact ⟨z, Or.inl rfl, h₁⟩
    · obtain ⟨w, hw, hzw⟩ := h.next z hz
      exact ⟨w, Or.inr hw, hkeep z w hz hw hzw⟩
  · rintro z (rfl | hz)
    · exact ⟨z, Or.inl rfl, h₁⟩
    · obtain ⟨w, hw, hwz⟩ := h.prev z hz
      exact ⟨w, Or.inr hw, hkeep w z hw hz hwz⟩

/-- A node taken out of the set by joining its neighbours. -/
theorem Closed.erase {U : ι → Prop} (h : k.Closed U) {x p y : ι} (hx : k.prev p = some x)
    (hy : k.next p = some y) (hne : y ≠ p) (hp : U p) :
    (k.join x y).Closed fun z => U z ∧ z ≠ p := by
  obtain ⟨w, hw, hwp⟩ := h.prev p hp
  obtain rfl : w = x := Option.some.inj (hwp.2.symm.trans hx)
  obtain ⟨v, hv, hpv⟩ := h.next p hp
  obtain rfl : v = y := Option.some.inj (hpv.1.symm.trans hy)
  have hwne : w ≠ p := by
    rintro rfl
    exact hne (Option.some.inj (hpv.1.symm.trans hwp.1))
  have h₁ : (k.join w v).Joined w v := ⟨by simp [join_next], by simp [join_prev]⟩
  have hkeep : ∀ a b, k.Joined a b → a ≠ w → b ≠ v → (k.join w v).Joined a b := by
    intro a b hab haw hbv
    exact ⟨by simp [join_next, haw, hab.1], by simp [join_prev, hbv, hab.2]⟩
  constructor
  · rintro z ⟨hz, hzp⟩
    by_cases hzw : z = w
    · exact ⟨v, ⟨hv, hne⟩, hzw ▸ h₁⟩
    · obtain ⟨c, hc, hzc⟩ := h.next z hz
      have hcp : c ≠ p := by
        rintro rfl
        exact hzw (Option.some.inj (hzc.2.symm.trans hwp.2))
      have hcv : c ≠ v := by
        rintro rfl
        exact hzp (Option.some.inj (hzc.2.symm.trans hpv.2))
      exact ⟨c, ⟨hc, hcp⟩, hkeep z c hzc hzw hcv⟩
  · rintro z ⟨hz, hzp⟩
    by_cases hzv : z = v
    · exact ⟨w, ⟨hw, hwne⟩, hzv ▸ h₁⟩
    · obtain ⟨c, hc, hcz⟩ := h.prev z hz
      have hcp : c ≠ p := by
        rintro rfl
        exact hzv (Option.some.inj (hcz.1.symm.trans hpv.1))
      have hcw : c ≠ w := by
        rintro rfl
        exact hzp (Option.some.inj (hcz.1.symm.trans hwp.1))
      exact ⟨c, ⟨hc, hcp⟩, hkeep c z hcz hcw hzv⟩

/-- `p` taken out by joining its neighbours, its own links cleared; nothing to do when `p` is alone
on its circle. -/
def bypass (k : Links ι) (p : ι) : Links ι :=
  match k.prev p, k.next p with
  | some x, some y => if y = p then k else (k.join x y).clear p
  | _, _ => k

theorem bypass_of_ne {x p y : ι} (hx : k.prev p = some x) (hy : k.next p = some y) (hne : y ≠ p) :
    k.bypass p = (k.join x y).clear p := by
  simp only [bypass, hx, hy, if_neg hne]

theorem bypass_of_self {x p : ι} (hx : k.prev p = some x) (hy : k.next p = some p) :
    k.bypass p = k := by
  simp only [bypass, hx, hy, if_true]

theorem clear_next_of_ne (k : Links ι) {x z : ι} (h : z ≠ x) : (k.clear x).next z = k.next z := by
  simp [clear, setNext, setPrev, h]

theorem clear_prev_of_ne (k : Links ι) {x z : ι} (h : z ≠ x) : (k.clear x).prev z = k.prev z := by
  simp [clear, setNext, setPrev, h]

/-- A node spliced in and taken out again leaves the links of the others as they were. -/
theorem splice_bypass {x n y z : ι} (hxy : k.Joined x y) (hyn : y ≠ n) (hz : z ≠ n) :
    ((k.splice x n y).bypass n).next z = k.next z ∧
      ((k.splice x n y).bypass n).prev z = k.prev z := by
  have hprev : (k.splice x n y).prev n = some x := by simp [splice_prev, Ne.symm hyn]
  have hnext : (k.splice x n y).next n = some y := by simp [splice_next]
  rw [bypass_of_ne hprev hnext hyn, clear_next_of_ne _ hz, clear_prev_of_ne _ hz, join_next,
    join_prev, splice_next, splice_prev, if_neg hz, if_neg hz]
  constructor
  · by_cases hzx : z = x
    · rw [if_pos hzx, hzx, hxy.1]
    · rw [if_neg hzx, if_neg hzx]
  · by_cases hzy : z = y
    · rw [if_pos hzy, hzy, hxy.2]
    · rw [if_neg hzy, if_neg hzy]

/-- A node joined to itself and taken out again leaves the links of the others as they were. -/
theorem join_self_bypass {n z : ι} (hz : z ≠ n) :
    ((k.join n n).bypass n).next z = k.next z ∧ ((k.join n n).bypass n).prev z = k.prev z := by
  have hprev : (k.join n n).prev n = some n := by simp [join_prev]
  have hnext : (k.join n n).next n = some n := by simp [join_next]
  rw [bypass_of_self hprev hnext, join_next, join_prev, if_neg hz, if_neg hz]
  exact ⟨rfl, rfl⟩

/-- A node taken out of its circle. -/
theorem IsRing.bypass {l : List ι} {p : ι} (h : k.IsRing l) (hp : p ∈ l) :
    (k.bypass p).IsRing (l.erase p) := by
  obtain ⟨x, _, hxp⟩ := h.exists_prev hp
  obtain ⟨y, _, hpy⟩ := h.exists_next hp
  by_cases hne : y = p
  · subst hne
    rw [bypass_of_self hxp.2 hpy.1, h.eq_singleton hp hpy.1]
    simpa using isRing_nil
  · rw [bypass_of_ne hxp.2 hpy.1 hne]
    have hout : ∀ z ∈ l.erase p, z ≠ p := by
      rintro z hz rfl
      exact h.nodup.not_mem_erase hz
    refine (h.erase hp hxp.2 hpy.1 hne).congr ?_ ?_
    · intro z hz
      exact clear_next_of_ne _ (hout z hz)
    · intro z hz
      exact clear_prev_of_ne _ (hout z hz)

/-- Taking a node out of one circle leaves the others alone. -/
theorem IsRing.bypass_other {l l' : List ι} {p : ι} (h : k.IsRing l) (h' : k.IsRing l')
    (hp : p ∈ l') (hdisj : ∀ z ∈ l, z ∉ l') : (k.bypass p).IsRing l := by
  obtain ⟨x, hx, hxp⟩ := h'.exists_prev hp
  obtain ⟨y, hy, hpy⟩ := h'.exists_next hp
  by_cases hne : y = p
  · subst hne
    rwa [bypass_of_self hxp.2 hpy.1]
  · rw [bypass_of_ne hxp.2 hpy.1 hne]
    refine h.congr ?_ ?_
    · intro z hz
      have hzp : z ≠ p := fun e => hdisj z hz (e ▸ hp)
      have hzx : z ≠ x := fun e => hdisj z hz (e ▸ hx)
      rw [clear_next_of_ne _ hzp, join_next, if_neg hzx]
    · intro z hz
      have hzp : z ≠ p := fun e => hdisj z hz (e ▸ hp)
      have hzy : z ≠ y := fun e => hdisj z hz (e ▸ hy)
      rw [clear_prev_of_ne _ hzp, join_prev, if_neg hzy]

/-- Taking a node out of a set linked among itself. -/
theorem Closed.bypass {U : ι → Prop} {p : ι} (h : k.Closed U) (hp : U p) :
    (k.bypass p).Closed fun z => U z ∧ z ≠ p := by
  obtain ⟨x, _, hxp⟩ := h.prev p hp
  obtain ⟨y, _, hpy⟩ := h.next p hp
  by_cases hne : y = p
  · subst hne
    rw [bypass_of_self hxp.2 hpy.1]
    exact h.erase_self hpy
  · rw [bypass_of_ne hxp.2 hpy.1 hne]
    refine (h.erase hxp.2 hpy.1 hne hp).congr ?_ ?_
    · rintro z ⟨_, hz⟩
      exact clear_next_of_ne _ hz
    · rintro z ⟨_, hz⟩
      exact clear_prev_of_ne _ hz

end updates

end Links

/-! ## Walking round -/

section walk

variable {ι : Type u} [DecidableEq ι]

/-- The nodes met from `x` on along `next`, up to the one before `stop` or before a null link. -/
def walk (next : ι → Option ι) (stop : ι) : ℕ → ι → List ι
  | 0, _ => []
  | fuel + 1, x =>
      match next x with
      | none => [x]
      | some y => if y = stop then [x] else x :: walk next stop fuel y

/-- The nodes met from a head pointer along `next`, once round, at most `fuel` of them. -/
def ringFrom (next : ι → Option ι) (fuel : ℕ) : Option ι → List ι
  | none => []
  | some x => walk next x fuel x

@[simp] theorem ringFrom_none (next : ι → Option ι) (fuel : ℕ) : ringFrom next fuel none = [] := rfl

/-- A walk along a chain that leads to `stop` visits the chain. -/
theorem walk_eq_of_chain {k : Links ι} {stop : ι} {s : List ι} {x : ι} {fuel : ℕ}
    (hc : List.IsChain k.Joined (x :: s ++ [stop])) (hstop : stop ∉ s) (hfuel : s.length < fuel) :
    walk k.next stop fuel x = x :: s := by
  induction s generalizing x fuel with
  | nil =>
    obtain ⟨fuel, rfl⟩ := Nat.exists_eq_succ_of_ne_zero (Nat.ne_of_gt (Nat.lt_of_le_of_lt (Nat.zero_le _) hfuel))
    have : k.next x = some stop := by
      simp only [List.cons_append, List.nil_append, List.isChain_cons_cons] at hc
      exact hc.1.1
    simp [walk, this]
  | cons y s ih =>
    obtain ⟨fuel, rfl⟩ := Nat.exists_eq_succ_of_ne_zero (Nat.ne_of_gt (Nat.lt_of_le_of_lt (Nat.zero_le _) hfuel))
    simp only [List.cons_append, List.isChain_cons_cons] at hc
    have hxy : k.next x = some y := hc.1.1
    have hys : y ≠ stop := fun e => hstop (by simp [e])
    have hs : stop ∉ s := fun e => hstop (by simp [e])
    have hlen : s.length < fuel := by simpa using hfuel
    rw [walk, hxy]
    simp only [if_neg hys]
    rw [ih (by simpa using hc.2) hs hlen]

/-- The walk from the head of a circle visits exactly the circle. -/
theorem Links.IsRing.ringFrom_eq {k : Links ι} {l : List ι} {fuel : ℕ} (h : k.IsRing l)
    (hfuel : l.length ≤ fuel) : ringFrom k.next fuel l.head? = l := by
  cases l with
  | nil => rfl
  | cons x s =>
    have hc := h.chain
    simp only [List.head?_cons, Option.toList_some] at hc
    exact walk_eq_of_chain hc (List.nodup_cons.mp h.nodup).1 hfuel

end walk

/-! ## Neighbours -/

section around

variable {α β : Type*}

/-- What comes before each element of a list closed to a circle. -/
def before (l : List α) : List α := l.getLast?.toList ++ l.dropLast

/-- What comes behind each element of a list closed to a circle. -/
def behind (l : List α) : List α := l.tail ++ l.head?.toList

/-- The elements of a list closed to a circle, each between its neighbours. -/
def around (l : List α) : List (α × α × α) := (before l).zip (l.zip (behind l))

theorem length_before (l : List α) : (before l).length = l.length := by
  cases l with
  | nil => rfl
  | cons x l => simp [before, List.getLast?_cons]

theorem length_behind (l : List α) : (behind l).length = l.length := by
  cases l <;> simp [behind]

theorem before_map (f : α → β) (l : List α) : before (l.map f) = (before l).map f := by
  simp [before, List.getLast?_map, List.map_dropLast, Option.toList_map]

theorem behind_map (f : α → β) (l : List α) : behind (l.map f) = (behind l).map f := by
  simp [behind, List.map_tail, Option.toList_map]

/-- The elements renamed, between their neighbours renamed. -/
theorem around_map (f : α → β) (l : List α) :
    around (l.map f) = (around l).map fun n => (f n.1, f n.2.1, f n.2.2) := by
  simp only [around, before_map, behind_map, List.zip_map]
  rfl

/-- The elements themselves. -/
theorem map_around (l : List α) : (around l).map (fun n => n.2.1) = l := by
  have houter : (around l).map Prod.snd = l.zip (behind l) := by
    apply List.map_snd_zip
    rw [List.length_zip, length_before, length_behind, Nat.min_self]
  have hinner : (l.zip (behind l)).map Prod.fst = l := by
    apply List.map_fst_zip
    rw [length_behind]
  calc (around l).map (fun n => n.2.1)
      = ((around l).map Prod.snd).map Prod.fst := by rw [List.map_map]; rfl
    _ = l := by rw [houter, hinner]

namespace Links.IsRing

variable {ι : Type u} {k : Links ι} {l : List ι}

/-- Behind each node comes the next one. -/
theorem forall₂_behind (h : k.IsRing l) : List.Forall₂ k.Joined l (behind l) := by
  cases l with
  | nil => exact .nil
  | cons x s => exact List.isChain_cons_append_singleton_iff_forall₂.mp h.chain

/-- Before each node comes the one it follows. -/
theorem forall₂_before (h : k.IsRing l) : List.Forall₂ k.Joined (before l) l := by
  rcases List.eq_nil_or_concat l with rfl | ⟨s, x, rfl⟩
  · exact .nil
  · rw [List.concat_eq_append] at h ⊢
    have hring : k.IsRing ([x] ++ s) := h.rotate
    have hbefore : before (s ++ [x]) = x :: s := by simp [before]
    rw [hbefore]
    exact List.isChain_cons_append_singleton_iff_forall₂.mp hring.chain

/-- **The neighbours in the list are the neighbours on the circle.** -/
theorem joined_around (h : k.IsRing l) {n : ι × ι × ι} (hn : n ∈ around l) :
    k.Joined n.1 n.2.1 ∧ k.Joined n.2.1 n.2.2 := by
  obtain ⟨w, v, y⟩ := n
  have hpair : (v, y) ∈ l.zip (behind l) := (List.of_mem_zip hn).2
  refine ⟨?_, List.forall₂_zip h.forall₂_behind hpair⟩
  have hfst : (l.zip (behind l)).map Prod.fst = l := by
    apply List.map_fst_zip
    rw [length_behind]
  have hbefore : (w, v) ∈ (before l).zip ((l.zip (behind l)).map Prod.fst) := by
    rw [List.zip_map_right]
    exact List.mem_map.mpr ⟨(w, v, y), hn, rfl⟩
  rw [hfst] at hbefore
  exact List.forall₂_zip h.forall₂_before hbefore

end Links.IsRing

end around

end Circular
