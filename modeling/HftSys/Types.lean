import Mathlib.Algebra.Group.Nat.Defs
import Mathlib.Data.Fintype.Basic

/-!
# The exchange's types and messages

The fixed-width types of `exchange/types.h`, the two build sizes its `IS_TEST_SUITE` switch
selects between, and the two messages an order book hands to its matching engine
(`OMEClientResponse`, `OMEMarketUpdate`).

* Ids, quantities and priorities are the source's unsigned integers and prices its `int64_t`, so
  wrap-around is the machine's.
* `Side` is the C++ `enum class Side : std::int8_t`: a request carries it as a raw byte, so every
  `int8_t` value is a side, of which `BUY`, `SELL` and `INVALID` are three.
-/

namespace HftSys

/-! ## Build sizes -/

/-- The two builds of the exchange, told apart by `IS_TEST_SUITE`. Source: `types.h` -/
inductive Build where
  | production
  | testSuite
deriving DecidableEq, Repr

/-- `OME_SIZE`. Source: `types.h` -/
def omeSize : Build → ℕ
  | .production => 256
  | .testSuite => 16

/-- `MAX_N_CLIENTS`. Source: `types.h` -/
def maxNClients (B : Build) : ℕ := omeSize B

/-- `MAX_ORDER_IDS`. Source: `types.h` -/
def maxOrderIds : ℕ := 1024 * 1024

/-- `MAX_PRICE_LEVELS`. Source: `types.h` -/
def maxPriceLevels (B : Build) : ℕ := omeSize B

/-- Both builds have room for a price level. -/
theorem maxPriceLevels_pos (B : Build) : 0 < maxPriceLevels B := by
  cases B <;> decide

/-- The order pool is not empty. -/
theorem maxOrderIds_pos : 0 < maxOrderIds := by decide

/-! ## Scalar types -/

abbrev OrderID := UInt64
abbrev TickerID := UInt32
abbrev ClientID := UInt32
abbrev Price := Int64
abbrev Qty := UInt32
abbrev Priority := UInt64

/-- `OrderID_INVALID`: the largest id. Source: `types.h` -/
def orderIdInvalid : OrderID := 18446744073709551615

/-- `Price_INVALID`: the largest price. Source: `types.h` -/
def priceInvalid : Price := 9223372036854775807

/-- `Qty_INVALID`: the largest quantity. Source: `types.h` -/
def qtyInvalid : Qty := 4294967295

/-- `Priority_INVALID`: the largest priority. Source: `types.h` -/
def priorityInvalid : Priority := 18446744073709551615

/-- `enum class Side : std::int8_t`, with every value of its underlying type. Source: `types.h` -/
structure Side where
  /-- The byte on the wire. -/
  raw : Int8
deriving DecidableEq, Repr

namespace Side

/-- `Side::INVALID`. Source: `types.h` -/
def invalid : Side := ⟨0⟩

/-- `Side::BUY`. Source: `types.h` -/
def buy : Side := ⟨1⟩

/-- `Side::SELL`. Source: `types.h` -/
def sell : Side := ⟨-1⟩

@[simp] theorem buy_ne_sell : buy ≠ sell := by decide

@[simp] theorem sell_ne_buy : sell ≠ buy := by decide

end Side

/-! ## Messages -/

/-- `OMEClientResponse::Type`. Source: `order_server_response.h` -/
inductive ResponseType where
  | invalid
  | accepted
  | cancelled
  | filled
  | cancelRejected
deriving DecidableEq, Repr

/-- A message from the matching engine to a client. Source: `order_server_response.h` -/
structure OMEClientResponse where
  type : ResponseType
  clientId : ClientID
  tickerId : TickerID
  clientOrderId : OrderID
  marketOrderId : OrderID
  side : Side
  price : Price
  qtyExec : Qty
  qtyRemain : Qty
deriving DecidableEq, Repr

/-- `OMEMarketUpdate::Type`. Source: `market_data.h` -/
inductive UpdateType where
  | invalid
  | clear
  | add
  | modify
  | cancel
  | trade
  | snapshotStart
  | snapshotEnd
deriving DecidableEq, Repr

/-- A message from the matching engine to the market data publisher. Source: `market_data.h` -/
structure OMEMarketUpdate where
  type : UpdateType
  orderId : OrderID
  tickerId : TickerID
  side : Side
  price : Price
  qty : Qty
  priority : Priority
deriving DecidableEq, Repr

/-- What an order book hands to its engine: the argument of `dispatchClientResponse` or of
`publishMarketUpdate`. Source: `matching_engine.h` -/
inductive Emission where
  | response (r : OMEClientResponse)
  | update (u : OMEMarketUpdate)
deriving DecidableEq, Repr

/-- The responses among the calls on the engine. -/
def responsesOf (log : List Emission) : List OMEClientResponse :=
  log.filterMap fun
    | .response r => some r
    | .update _ => none

/-- The updates among the calls on the engine. -/
def updatesOf (log : List Emission) : List OMEMarketUpdate :=
  log.filterMap fun
    | .update u => some u
    | .response _ => none

theorem responsesOf_append (log log' : List Emission) :
    responsesOf (log ++ log') = responsesOf log ++ responsesOf log' := List.filterMap_append

theorem updatesOf_append (log log' : List Emission) :
    updatesOf (log ++ log') = updatesOf log ++ updatesOf log' := List.filterMap_append

end HftSys
