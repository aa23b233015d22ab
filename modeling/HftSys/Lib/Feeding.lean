import HftSys.Lib.Fifo

/-!
# A queue and what has been pushed to it

`Fed fits q pushed`: the elements `pushed` have been pushed to the queue `q`, one after the other,
and `fits` says that each of them found room. What has entered the queue is then some of them, in
order, and all of them exactly when `fits` holds. One push adds its own condition, a pop none.
-/

namespace Fifo

variable {α : Type*} {fits fits' : Prop} {q : Queue α} {pushed : List α} {x : α}

/-- `pushed` has been pushed to the queue, and each element found room exactly when `fits` holds. -/
structure Fed (fits : Prop) (q : Queue α) (pushed : List α) : Prop where
  sublist : q.entered.Sublist pushed
  all_iff : q.entered = pushed ↔ fits

namespace Fed

/-- A new queue has been fed nothing, and nothing has been refused. -/
theorem empty (h : fits) (capacity : ℕ) : Fed fits (Queue.empty capacity : Queue α) [] :=
  ⟨List.Sublist.refl [], fun _ => h, fun _ => rfl⟩

/-- The condition may be said in other words. -/
theorem congr (h : Fed fits q pushed) (hiff : fits ↔ fits') : Fed fits' q pushed :=
  ⟨h.sublist, h.all_iff.trans hiff⟩

/-- What is taken out has been fed all the same. -/
theorem pop (h : Fed fits q pushed) : Fed fits q.pop pushed :=
  ⟨by rw [Queue.entered_pop]; exact h.sublist, by rw [Queue.entered_pop]; exact h.all_iff⟩

/-- One more push. -/
theorem push (h : Fed fits q pushed) :
    Fed (fits ∧ q.items.length < q.capacity) (q.push x) (pushed ++ [x]) := by
  by_cases hroom : q.items.length < q.capacity
  · have hentered : (q.push x).entered = q.entered ++ [x] := Queue.entered_push hroom
    refine ⟨?_, ?_⟩
    · rw [hentered]
      exact h.sublist.append_right [x]
    · rw [hentered, List.append_left_inj, h.all_iff]
      exact (and_iff_left hroom).symm
  · rw [Queue.push_of_full hroom]
    refine ⟨h.sublist.trans (List.sublist_append_left _ _), ?_⟩
    have hlen := h.sublist.length_le
    constructor
    · intro heq
      rw [heq, List.length_append, List.length_singleton] at hlen
      omega
    · exact fun hfits => absurd hfits.2 hroom

end Fed

end Fifo
