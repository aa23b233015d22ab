import HftSys.Exchange
import HftSys.Lib.Feeding
import HftSys.Tickers

/-!
# What the exchange conveys

Whatever the interleaving of the two threads, the exchange is a line of queues: the requests
published go through `rxRequests` to the engine, the calls of its books through the output queues,
and the responses from there to the sockets.

`Conveyed` says of an exchange that the engine is the one the requests taken lead to, one after the
other, that each queue holds what has been pushed to it or some of that, and that the gateway has
sent the responses taken, with the one it is about to release. A queue holds all that has been
pushed to it exactly when each push found room (`RequestFits`, `ResponseFits`, `UpdateFits`).

`exchange_conveys`: every exchange a run reaches conveys.
-/

namespace HftSys

open Fifo Runs

variable {B : Build}

namespace Exchange

/-- If the action pushes a request, `rxRequests` has room for it. -/
def RequestFits (x : Exchange B) (a : ExchangeAction) : Prop :=
  ∀ r rs, a = .publish → x.phase = .publishing (r :: rs) →
    x.rxRequests.items.length < x.rxRequests.capacity

/-- If the action pushes a response, `txResponses` has room for it. -/
def ResponseFits (x : Exchange B) (a : ExchangeAction) : Prop :=
  ∀ r cs, a = .emit → x.emitting = .response r :: cs →
    x.outputs.txResponses.items.length < x.outputs.txResponses.capacity

/-- If the action pushes an update, `txMarketUpdates` has room for it. -/
def UpdateFits (x : Exchange B) (a : ExchangeAction) : Prop :=
  ∀ u cs, a = .emit → x.emitting = .update u :: cs →
    x.outputs.txMarketUpdates.items.length < x.outputs.txMarketUpdates.capacity

/-- The calls an action makes on the output queues. -/
def made (x : Exchange B) : ExchangeAction → List Emission
  | .emit => x.emitting.head?.toList
  | _ => []

/-- The response that has been sent and is not released yet. -/
def sending (x : Exchange B) : List OMEClientResponse :=
  if x.phase = .releasing then x.outputs.txResponses.items.head?.toList else []

end Exchange

/-- Every action of the run meets a condition on the exchange it is taken in. -/
abbrev ExchangeMeets (stray : Ticker → ℕ → Qty) (Cond : Exchange B → ExchangeAction → Prop)
    (actions : List ExchangeAction) : Prop :=
  Runs.Meets (ExchangeRuns stray) Cond actions

/-- The exchange after the actions, `emitted` being the calls made on the output queues so far. -/
structure Conveyed (stray : Ticker → ℕ → Qty) (actions : List ExchangeAction) (x : Exchange B)
    (emitted : List Emission) : Prop where
  engine : EngineLogs stray x.rxRequests.taken x.engine (emitted ++ x.emitting)
  requests : ∃ pushed, x.gateway.published = pushed ++ x.phase.requests ∧
    Fed (ExchangeMeets (B := B) stray Exchange.RequestFits actions) x.rxRequests pushed
  responses : Fed (ExchangeMeets (B := B) stray Exchange.ResponseFits actions)
    x.outputs.txResponses (responsesOf emitted)
  updates : Fed (ExchangeMeets (B := B) stray Exchange.UpdateFits actions)
    x.outputs.txMarketUpdates (updatesOf emitted)
  releasing : x.phase = .releasing → x.outputs.txResponses.items ≠ []
  sent : ∃ es, GatewayRuns es x.gateway ∧
    drained es = x.outputs.txResponses.taken ++ x.sending

section steps

variable {stray : Ticker → ℕ → Qty} {actions : List ExchangeAction} {x x' : Exchange B}
  {a : ExchangeAction} {emitted : List Emission} {fits : Prop}

/-- One more action of a run. -/
theorem exchangeMeets_concat {Cond : Exchange B → ExchangeAction → Prop}
    (h : ExchangeRuns stray actions x) :
    ExchangeMeets stray Cond (actions ++ [a]) ↔ ExchangeMeets stray Cond actions ∧ Cond x a := by
  rw [ExchangeMeets, Runs.Meets.concat_iff]
  apply and_congr_right
  intro _
  constructor
  · exact fun hall => hall x h
  · intro hcond y hy
    obtain rfl : x = y := Option.some.inj (h.symm.trans hy)
    exact hcond

/-- Outside of the loop of `sequenceAndPublish` nothing is left to push. -/
theorem published_of_idle {pushed : List OMEClientRequest} (hidle : x.phase.requests = [])
    (h : x.gateway.published = pushed ++ x.phase.requests) : x.gateway.published = pushed := by
  rw [h, hidle, List.append_nil]

/-! ### The three queues -/

/-- Requests: what is published is pushed in order, and taken from the other end. -/
theorem Moves.requests {pushed : List OMEClientRequest} (hm : Moves stray x a x')
    (hpub : x.gateway.published = pushed ++ x.phase.requests) (h : Fed fits x.rxRequests pushed) :
    ∃ pushed', x'.gateway.published = pushed' ++ x'.phase.requests ∧
      Fed (fits ∧ x.RequestFits a) x'.rxRequests pushed' := by
  cases hm with
  | @sendAndRecv socket o received g hphase hcall =>
    have hr := (sendAndRecv_ok hcall).1
    refine ⟨pushed, ?_, h.congr (and_iff_left ?_).symm⟩
    · show g.published = pushed ++ x.phase.requests
      rw [hr.published, hpub]
    · intro r rs ha
      cases ha
  | @rxDone sorted hphase hsort =>
    refine ⟨pushed, ?_, h.congr (and_iff_left ?_).symm⟩
    · have hidle : x.gateway.published = pushed := published_of_idle (by rw [hphase]; rfl) hpub
      show x.gateway.published ++ _ = pushed ++ _
      rw [hidle]
      rfl
    · intro r rs ha
      cases ha
  | @push r rs hphase =>
    refine ⟨pushed ++ [r], ?_, h.push.congr (and_congr_right fun _ => ?_)⟩
    · show x.gateway.published = _
      rw [hpub, hphase, List.append_assoc]
      rfl
    · constructor
      · exact fun hroom r rs _ _ => hroom
      · exact fun hfits => hfits r rs rfl hphase
  | leave hphase =>
    refine ⟨pushed, ?_, h.congr (and_iff_left ?_).symm⟩
    · show x.gateway.published = pushed ++ []
      rw [List.append_nil]
      exact published_of_idle (by rw [hphase]; rfl) hpub
    · intro r rs _ hp
      rw [hphase] at hp
      cases hp
  | @respond res rest g hphase hhead hcall =>
    obtain ⟨-, socket, s, -, -, rfl⟩ := sendResponse_ok hcall
    refine ⟨pushed, ?_, h.congr (and_iff_left ?_).symm⟩
    · show x.gateway.published = pushed ++ []
      rw [List.append_nil]
      exact published_of_idle (by rw [hphase]; rfl) hpub
    · intro r rs ha
      cases ha
  | release hphase =>
    refine ⟨pushed, ?_, h.congr (and_iff_left ?_).symm⟩
    · show x.gateway.published = pushed ++ []
      rw [List.append_nil]
      exact published_of_idle (by rw [hphase]; rfl) hpub
    · intro r rs ha
      cases ha
  | takeRequest hemitting hhead hcall =>
    refine ⟨pushed, hpub, h.pop.congr (and_iff_left ?_).symm⟩
    intro r rs ha
    cases ha
  | emit hemitting =>
    refine ⟨pushed, hpub, h.congr (and_iff_left ?_).symm⟩
    intro r rs ha
    cases ha
  | popUpdate =>
    refine ⟨pushed, hpub, h.congr (and_iff_left ?_).symm⟩
    intro r rs ha
    cases ha

/-- The engine and its log: a request taken adds its calls to those to come, and a call made is one
of these. -/
theorem Moves.logs (hm : Moves stray x a x')
    (h : EngineLogs stray x.rxRequests.taken x.engine (emitted ++ x.emitting)) :
    EngineLogs stray x'.rxRequests.taken x'.engine (emitted ++ x.made a ++ x'.emitting) := by
  cases hm with
  | @takeRequest r rest e calls hemitting hhead hcall =>
    rw [hemitting, List.append_nil] at h
    show EngineLogs stray (x.rxRequests.taken ++ x.rxRequests.items.head?.toList) e
      (emitted ++ [] ++ calls)
    rw [hhead, List.append_nil]
    exact RunsOf.path_concat.mpr ⟨(x.engine, emitted), h, calls, hcall, rfl⟩
  | @emit c cs hemitting =>
    rw [hemitting] at h
    rw [Exchange.made, hemitting, List.append_assoc]
    exact h
  | push hphase =>
    show EngineLogs stray (x.rxRequests.push _).taken x.engine (emitted ++ [] ++ x.emitting)
    rw [Queue.taken_push, List.append_nil]
    exact h
  | _ =>
    rw [Exchange.made, List.append_nil]
    · exact h
    · exact fun ha => nomatch ha

/-- Responses. -/
theorem Moves.responses (hm : Moves stray x a x')
    (h : Fed fits x.outputs.txResponses (responsesOf emitted)) :
    Fed (fits ∧ x.ResponseFits a) x'.outputs.txResponses (responsesOf (emitted ++ x.made a)) := by
  rw [responsesOf_append]
  cases hm with
  | @emit c cs hemitting =>
    rw [Exchange.made, hemitting]
    cases c with
    | response r =>
      refine (h.push (x := r)).congr (and_congr_right fun _ => ?_)
      constructor
      · exact fun hroom r cs _ _ => hroom
      · exact fun hfits => hfits r cs rfl hemitting
    | update u =>
      refine (List.append_nil (responsesOf emitted)).symm ▸ h.congr (and_iff_left ?_).symm
      intro r cs' _ heq
      rw [hemitting] at heq
      cases heq
  | release hphase =>
    refine (List.append_nil (responsesOf emitted)).symm ▸ h.pop.congr (and_iff_left ?_).symm
    exact fun r cs ha => nomatch ha
  | _ =>
    refine (List.append_nil (responsesOf emitted)).symm ▸ h.congr (and_iff_left ?_).symm
    exact fun r cs ha => nomatch ha

/-- Market updates. -/
theorem Moves.updates (hm : Moves stray x a x')
    (h : Fed fits x.outputs.txMarketUpdates (updatesOf emitted)) :
    Fed (fits ∧ x.UpdateFits a) x'.outputs.txMarketUpdates (updatesOf (emitted ++ x.made a)) := by
  rw [updatesOf_append]
  cases hm with
  | @emit c cs hemitting =>
    rw [Exchange.made, hemitting]
    cases c with
    | response r =>
      refine (List.append_nil (updatesOf emitted)).symm ▸ h.congr (and_iff_left ?_).symm
      intro u cs' _ heq
      rw [hemitting] at heq
      cases heq
    | update u =>
      refine (h.push (x := u)).congr (and_congr_right fun _ => ?_)
      constructor
      · exact fun hroom u cs _ _ => hroom
      · exact fun hfits => hfits u cs rfl hemitting
  | popUpdate =>
    refine (List.append_nil (updatesOf emitted)).symm ▸ h.pop.congr (and_iff_left ?_).symm
    exact fun u cs ha => nomatch ha
  | _ =>
    refine (List.append_nil (updatesOf emitted)).symm ▸ h.congr (and_iff_left ?_).symm
    exact fun u cs ha => nomatch ha

/-! ### The responses sent -/

/-- A call of a book changes nothing at the front of the queue of responses, if something waits
there. -/
theorem head_txResponses_call {o : Outputs} (c : Emission) (h : o.txResponses.items ≠ []) :
    (o.act (.call c)).txResponses.taken = o.txResponses.taken ∧
      (o.act (.call c)).txResponses.items.head? = o.txResponses.items.head? ∧
      (o.act (.call c)).txResponses.items ≠ [] := by
  cases c with
  | update u => exact ⟨rfl, rfl, h⟩
  | response r =>
    show (o.txResponses.push r).taken = _ ∧ (o.txResponses.push r).items.head? = _ ∧
      (o.txResponses.push r).items ≠ []
    refine ⟨Queue.taken_push _ _, ?_⟩
    by_cases hroom : o.txResponses.items.length < o.txResponses.capacity
    · rw [Queue.items_push hroom]
      exact ⟨List.head?_append_of_ne_nil _ h, by simp⟩
    · rw [Queue.push_of_full hroom]
      exact ⟨rfl, h⟩

/-- One more event of a gateway's run. -/
theorem GatewayRuns.snoc {es : List GatewayEvent} {g g' : OrderGatewayServer B}
    (h : GatewayRuns es g) (e : GatewayEvent) (hstep : GatewayStep g e g') :
    GatewayRuns (es ++ [e]) g' :=
  (runsOf_gateway B).concat.mpr ⟨g, h, hstep⟩

/-- What the gateway has sent is what has been taken from the queue, with the response it is about
to release. -/
theorem Moves.sent {es : List GatewayEvent} (hm : Moves stray x a x')
    (hrel : x.phase = .releasing → x.outputs.txResponses.items ≠ [])
    (hes : GatewayRuns es x.gateway)
    (hdrained : drained es = x.outputs.txResponses.taken ++ x.sending) :
    (x'.phase = .releasing → x'.outputs.txResponses.items ≠ []) ∧
      ∃ es', GatewayRuns es' x'.gateway ∧
        drained es' = x'.outputs.txResponses.taken ++ x'.sending := by
  cases hm with
  | @sendAndRecv socket o received g hphase hcall =>
    refine ⟨hrel, _, hes.snoc (.sendAndRecv socket o) ⟨received, hcall⟩, ?_⟩
    rw [drained, List.filterMap_append]
    exact (List.append_nil _).trans hdrained
  | @rxDone sorted hphase hsort =>
    refine ⟨by simp, _, hes.snoc .rxDone ⟨sorted, hsort, rfl⟩, ?_⟩
    have hnone : x.sending = [] := if_neg (by rw [hphase]; simp)
    rw [hnone] at hdrained
    rw [drained, List.filterMap_append]
    exact (List.append_nil _).trans hdrained
  | @push r rs hphase =>
    refine ⟨by simp, es, hes, ?_⟩
    have hnone : x.sending = [] := if_neg (by rw [hphase]; simp)
    rw [hnone] at hdrained
    exact hdrained
  | leave hphase =>
    refine ⟨by simp, es, hes, ?_⟩
    have hnone : x.sending = [] := if_neg (by rw [hphase]; simp)
    rw [hnone] at hdrained
    exact hdrained
  | @respond res rest g hphase hhead hcall =>
    refine ⟨fun _ => by simp [hhead], _, hes.snoc (.respond res) hcall, ?_⟩
    have hnone : x.sending = [] := if_neg (by rw [hphase]; simp)
    rw [hnone, List.append_nil] at hdrained
    rw [drained, List.filterMap_append, ← drained, hdrained]
    show _ = x.outputs.txResponses.taken ++
      (if _ then x.outputs.txResponses.items.head?.toList else [])
    rw [if_pos rfl, hhead]
    rfl
  | release hphase =>
    refine ⟨by simp, es, hes, ?_⟩
    rw [Exchange.sending, if_pos hphase] at hdrained
    show drained es =
      (x.outputs.txResponses.taken ++ x.outputs.txResponses.items.head?.toList) ++ []
    rw [List.append_nil, hdrained]
  | takeRequest hemitting hhead hcall => exact ⟨hrel, es, hes, hdrained⟩
  | @emit c cs hemitting =>
    by_cases hphase : x.phase = .releasing
    · obtain ⟨htaken, hhead, hitems⟩ := head_txResponses_call c (hrel hphase)
      refine ⟨fun _ => hitems, es, hes, ?_⟩
      rw [Exchange.sending, if_pos hphase] at hdrained ⊢
      rw [htaken, hhead]
      exact hdrained
    · refine ⟨fun hp => absurd hp hphase, es, hes, ?_⟩
      rw [Exchange.sending, if_neg hphase] at hdrained ⊢
      rw [hdrained]
      cases c with
      | response r =>
        show _ = (x.outputs.txResponses.push r).taken ++ []
        rw [Queue.taken_push]
      | update u => rfl
  | popUpdate => exact ⟨hrel, es, hes, hdrained⟩

/-- An action conveys what it has to. -/
theorem Conveyed.step (h : Conveyed stray actions x emitted) (hrun : ExchangeRuns stray actions x)
    (hm : Moves stray x a x') : ∃ emitted', Conveyed stray (actions ++ [a]) x' emitted' := by
  obtain ⟨pushed, hpub, hfed⟩ := h.requests
  obtain ⟨pushed', hpub', hfed'⟩ := hm.requests hpub hfed
  obtain ⟨es, hes, hdrained⟩ := h.sent
  obtain ⟨hrel, hsent⟩ := hm.sent h.releasing hes hdrained
  exact ⟨emitted ++ x.made a,
    { engine := hm.logs h.engine
      requests := ⟨pushed', hpub', hfed'.congr (exchangeMeets_concat hrun).symm⟩
      responses := (hm.responses h.responses).congr (exchangeMeets_concat hrun).symm
      updates := (hm.updates h.updates).congr (exchangeMeets_concat hrun).symm
      releasing := hrel
      sent := hsent }⟩

end steps

theorem conveyed_create (stray : Ticker → ℕ → Qty) (B : Build) :
    Conveyed stray [] (Exchange.create B) [] where
  engine := rfl
  requests := ⟨[], rfl, .empty (Runs.Meets.nil _ _) _⟩
  responses := .empty (Runs.Meets.nil _ _) _
  updates := .empty (Runs.Meets.nil _ _) _
  releasing h := nomatch h
  sent := ⟨[], rfl, rfl⟩

/-- Every exchange a run reaches has conveyed what it had to. -/
theorem ExchangeRuns.conveyed {stray : Ticker → ℕ → Qty} {actions : List ExchangeAction}
    {x : Exchange B} (h : ExchangeRuns stray actions x) :
    ∃ emitted, Conveyed stray actions x emitted := by
  refine (runsOf_exchange B stray).induction
    (P := fun actions x => ∃ emitted, Conveyed stray actions x emitted)
    ⟨[], conveyed_create stray B⟩ ?_ h
  rintro actions a x x' hrun ⟨emitted, hconv⟩ hstep
  exact hconv.step hrun (Exchange.step_ok hstep)

/-- **The exchange conveys**: in every run, whatever the interleaving of its threads, the engine is
the one its requests lead to in the order they were taken, with the calls made and those to come;
the requests that have entered their queue are some of those published, in their order, the
responses and the updates that have entered theirs some of those in the calls made, and in each case
they are all of them exactly when every push found room; and the gateway has sent the responses
taken from the queue, with the one it is about to release. -/
theorem exchange_conveys {stray : Ticker → ℕ → Qty} {actions : List ExchangeAction} {x : Exchange B}
    (h : ExchangeRuns stray actions x) :
    ∃ emitted pushed es,
      EngineLogs stray x.rxRequests.taken x.engine (emitted ++ x.emitting) ∧
      x.gateway.published = pushed ++ x.phase.requests ∧
      x.rxRequests.entered.Sublist pushed ∧
      (x.rxRequests.entered = pushed ↔
        ExchangeMeets (B := B) stray Exchange.RequestFits actions) ∧
      x.outputs.txResponses.entered.Sublist (responsesOf emitted) ∧
      (x.outputs.txResponses.entered = responsesOf emitted ↔
        ExchangeMeets (B := B) stray Exchange.ResponseFits actions) ∧
      x.outputs.txMarketUpdates.entered.Sublist (updatesOf emitted) ∧
      (x.outputs.txMarketUpdates.entered = updatesOf emitted ↔
        ExchangeMeets (B := B) stray Exchange.UpdateFits actions) ∧
      GatewayRuns es x.gateway ∧ drained es = x.outputs.txResponses.taken ++ x.sending := by
  obtain ⟨emitted, hconv⟩ := h.conveyed
  obtain ⟨pushed, hpub, hrequests⟩ := hconv.requests
  obtain ⟨es, hes, hdrained⟩ := hconv.sent
  exact ⟨emitted, pushed, es, hconv.engine, hpub, hrequests.sublist, hrequests.all_iff,
    hconv.responses.sublist, hconv.responses.all_iff, hconv.updates.sublist, hconv.updates.all_iff,
    hes, hdrained⟩

/-- A SELL and a BUY taken by the engine, whose calls have all been made. -/
theorem exchange_conveys_sample :
    ∃ (x : Exchange .production) (emitted : List Emission),
      x.rxRequests.taken = [sampleSell, sampleBuy] ∧
        EngineLogs (fun _ _ => 0) x.rxRequests.taken x.engine (emitted ++ x.emitting) ∧
          x.outputs.txResponses.entered.Sublist (responsesOf emitted) := by
  have hrun : ((sampleActions.foldlM (Exchange.step fun _ _ => 0) (.create .production)).map
      fun x => x.rxRequests.taken) = some [sampleSell, sampleBuy] := by
    decide +kernel
  obtain ⟨x, hx, htaken⟩ := Option.map_eq_some_iff.mp hrun
  obtain ⟨emitted, pushed, es, hengine, -, -, -, hresponses, -⟩ := exchange_conveys hx
  exact ⟨x, emitted, htaken, hengine, hresponses⟩

/-! ## Short runs -/

section short

variable {stray : Ticker → ℕ → Qty} {actions : List ExchangeAction} {x : Exchange B}

/-- A step on the output queues adds one element at most, and changes no capacity. -/
theorem Outputs.length_act_le (o : Outputs) (step : OutputStep) :
    ((o.act step).txResponses.items.length ≤ o.txResponses.items.length + 1 ∧
        (o.act step).txResponses.capacity = o.txResponses.capacity) ∧
      (o.act step).txMarketUpdates.items.length ≤ o.txMarketUpdates.items.length + 1 ∧
        (o.act step).txMarketUpdates.capacity = o.txMarketUpdates.capacity := by
  cases step with
  | call c =>
    cases c with
    | response r =>
      exact ⟨⟨Queue.length_push_le _ _, Queue.capacity_push _ _⟩, Nat.le_succ _, rfl⟩
    | update u =>
      exact ⟨⟨Nat.le_succ _, rfl⟩, Queue.length_push_le _ _, Queue.capacity_push _ _⟩
  | popResponse =>
    refine ⟨⟨?_, rfl⟩, Nat.le_succ _, rfl⟩
    show o.txResponses.items.tail.length ≤ _
    rw [List.length_tail]
    omega
  | popUpdate =>
    refine ⟨⟨Nat.le_succ _, rfl⟩, ?_, rfl⟩
    show o.txMarketUpdates.items.tail.length ≤ _
    rw [List.length_tail]
    omega

/-- The output queues hold no more than the steps of the run. -/
theorem ExchangeRuns.length_outputs_le (h : ExchangeRuns stray actions x) :
    (x.outputs.txResponses.items.length ≤ actions.length ∧
        x.outputs.txResponses.capacity = maxClientUpdates B) ∧
      x.outputs.txMarketUpdates.items.length ≤ actions.length ∧
        x.outputs.txMarketUpdates.capacity = maxMarketUpdates B := by
  refine (runsOf_exchange B stray).induction
    (P := fun actions x => (x.outputs.txResponses.items.length ≤ actions.length ∧
        x.outputs.txResponses.capacity = maxClientUpdates B) ∧
      x.outputs.txMarketUpdates.items.length ≤ actions.length ∧
        x.outputs.txMarketUpdates.capacity = maxMarketUpdates B)
    ⟨⟨le_rfl, rfl⟩, le_rfl, rfl⟩ ?_ h
  rintro actions a x x' - ⟨⟨hr, hrc⟩, hu, huc⟩ hstep
  have houtputs : x'.outputs = x.outputs ∨ ∃ step, x'.outputs = x.outputs.act step := by
    cases Exchange.step_ok hstep with
    | release => exact .inr ⟨.popResponse, rfl⟩
    | @emit c => exact .inr ⟨.call c, rfl⟩
    | popUpdate => exact .inr ⟨.popUpdate, rfl⟩
    | _ => exact .inl rfl
  rw [List.length_append, List.length_singleton]
  rcases houtputs with hsame | ⟨step, heq⟩
  · rw [hsame]
    exact ⟨⟨by omega, hrc⟩, by omega, huc⟩
  · obtain ⟨⟨hr', hrc'⟩, hu', huc'⟩ := x.outputs.length_act_le step
    rw [heq]
    exact ⟨⟨by omega, hrc'.trans hrc⟩, by omega, huc'.trans huc⟩

/-- In a short run every push finds room. -/
theorem fits_of_length_le (hresponses : actions.length ≤ maxClientUpdates B)
    (hupdates : actions.length ≤ maxMarketUpdates B) :
    ExchangeMeets (B := B) stray Exchange.ResponseFits actions ∧
      ExchangeMeets (B := B) stray Exchange.UpdateFits actions := by
  constructor
  · rintro before a after x rfl hx r cs - -
    obtain ⟨⟨hlen, hcapacity⟩, -⟩ := ExchangeRuns.length_outputs_le hx
    simp only [List.length_append, List.length_cons] at hresponses
    omega
  · rintro before a after x rfl hx u cs - -
    obtain ⟨-, hlen, hcapacity⟩ := ExchangeRuns.length_outputs_le hx
    simp only [List.length_append, List.length_cons] at hupdates
    omega

end short

end HftSys
