import HftSys.Lib.Bytes
import HftSys.Types

/-!
# The messages on the wire

The requests a client sends, the responses it gets, and their images as `#pragma pack(push, 1)` lays
them out: the fields in order, without padding, every number little-endian as on the machines the
exchange is built for. A field of an enumeration is its byte.
-/

namespace HftSys

open Bytes

/-! ## Requests -/

/-- `OMEClientRequest::Type`, with every value of its underlying type: a request carries it as the
byte it was received with. Source: `order_server_request.h` -/
structure RequestType where
  raw : UInt8
deriving DecidableEq, Repr

/-- `Type::NEW`. Source: `order_server_request.h` -/
def RequestType.new : RequestType := ⟨1⟩

/-- `Type::CANCEL`. Source: `order_server_request.h` -/
def RequestType.cancel : RequestType := ⟨2⟩

/-- A request passed to the matching engine. Source: `order_server_request.h` -/
structure OMEClientRequest where
  type : RequestType
  clientId : ClientID
  tickerId : TickerID
  orderId : OrderID
  side : Side
  price : Price
  qty : Qty
deriving DecidableEq, Repr

/-- A request as a client sends it. Source: `order_server_request.h` -/
structure OGSClientRequest where
  nSeq : UInt64
  omeRequest : OMEClientRequest
deriving DecidableEq, Repr

/-- `sizeof(OGSClientRequest)`. -/
def sizeofOGSClientRequest : ℕ := 38

/-- The request at the head of a stream, read in place: every byte pattern is one.
Source: `order_gateway_server.cpp`, `OrderGatewayServer::rxCallback` -/
def OGSClientRequest.ofBytes (bs : List UInt8) : OGSClientRequest :=
  let (nSeq, bs) := readLE 8 bs
  let (type, bs) := readLE 1 bs
  let (clientId, bs) := readLE 4 bs
  let (tickerId, bs) := readLE 4 bs
  let (orderId, bs) := readLE 8 bs
  let (side, bs) := readLE 1 bs
  let (price, bs) := readLE 8 bs
  let (qty, _) := readLE 4 bs
  ⟨.ofNat nSeq, ⟨⟨.ofNat type⟩, .ofNat clientId, .ofNat tickerId, .ofNat orderId,
    ⟨(UInt8.ofNat side).toInt8⟩, (UInt64.ofNat price).toInt64, .ofNat qty⟩⟩

/-- The image of a request. -/
def OGSClientRequest.image (r : OGSClientRequest) : List UInt8 :=
  leBytes 8 r.nSeq.toNat ++ leBytes 1 r.omeRequest.type.raw.toNat ++
    leBytes 4 r.omeRequest.clientId.toNat ++ leBytes 4 r.omeRequest.tickerId.toNat ++
    leBytes 8 r.omeRequest.orderId.toNat ++ leBytes 1 r.omeRequest.side.raw.toUInt8.toNat ++
    leBytes 8 r.omeRequest.price.toUInt64.toNat ++ leBytes 4 r.omeRequest.qty.toNat

@[simp] theorem OGSClientRequest.length_image (r : OGSClientRequest) :
    r.image.length = sizeofOGSClientRequest := by
  simp [image, sizeofOGSClientRequest]

/-- A request is read back from its image, whatever follows. -/
theorem OGSClientRequest.ofBytes_image (r : OGSClientRequest) (bs : List UInt8) :
    ofBytes (r.image ++ bs) = r := by
  simp only [image, List.append_assoc, ofBytes, readLE_uint8, readLE_uint32, readLE_uint64]
  simp

/-! ## Responses -/

/-- The byte of a response type. Source: `order_server_response.h` -/
def ResponseType.raw : ResponseType → UInt8
  | .invalid => 0
  | .accepted => 1
  | .cancelled => 2
  | .filled => 3
  | .cancelRejected => 4

/-- The response type with a given byte, if there is one. -/
def ResponseType.ofRaw? (b : UInt8) : Option ResponseType :=
  if b = 0 then some .invalid
  else if b = 1 then some .accepted
  else if b = 2 then some .cancelled
  else if b = 3 then some .filled
  else if b = 4 then some .cancelRejected
  else none

@[simp] theorem ResponseType.ofRaw?_raw (t : ResponseType) : ofRaw? t.raw = some t := by
  cases t <;> rfl

/-- A response as a client gets it. Source: `order_server_response.h` -/
structure OGSClientResponse where
  nSeq : UInt64
  omeResponse : OMEClientResponse
deriving DecidableEq, Repr

/-- `sizeof(OMEClientResponse)`. -/
def sizeofOMEClientResponse : ℕ := 42

/-- `sizeof(OGSClientResponse)`. -/
def sizeofOGSClientResponse : ℕ := 50

/-- The image of a sequence number, the bytes of a `size_t`. -/
def sizeImage (n : UInt64) : List UInt8 := leBytes 8 n.toNat

/-- The image of a response of the matching engine. -/
def OMEClientResponse.image (r : OMEClientResponse) : List UInt8 :=
  leBytes 1 r.type.raw.toNat ++ leBytes 4 r.clientId.toNat ++ leBytes 4 r.tickerId.toNat ++
    leBytes 8 r.clientOrderId.toNat ++ leBytes 8 r.marketOrderId.toNat ++
    leBytes 1 r.side.raw.toUInt8.toNat ++ leBytes 8 r.price.toUInt64.toNat ++
    leBytes 4 r.qtyExec.toNat ++ leBytes 4 r.qtyRemain.toNat

/-- The image of a response as a client gets it. -/
def OGSClientResponse.image (r : OGSClientResponse) : List UInt8 :=
  leBytes 8 r.nSeq.toNat ++ leBytes 1 r.omeResponse.type.raw.toNat ++
    leBytes 4 r.omeResponse.clientId.toNat ++ leBytes 4 r.omeResponse.tickerId.toNat ++
    leBytes 8 r.omeResponse.clientOrderId.toNat ++ leBytes 8 r.omeResponse.marketOrderId.toNat ++
    leBytes 1 r.omeResponse.side.raw.toUInt8.toNat ++
    leBytes 8 r.omeResponse.price.toUInt64.toNat ++ leBytes 4 r.omeResponse.qtyExec.toNat ++
    leBytes 4 r.omeResponse.qtyRemain.toNat

/-- The response at the head of a stream, as a client decodes it. -/
def OGSClientResponse.ofBytes (bs : List UInt8) : Option OGSClientResponse :=
  let (nSeq, bs) := readLE 8 bs
  let (type, bs) := readLE 1 bs
  let (clientId, bs) := readLE 4 bs
  let (tickerId, bs) := readLE 4 bs
  let (clientOrderId, bs) := readLE 8 bs
  let (marketOrderId, bs) := readLE 8 bs
  let (side, bs) := readLE 1 bs
  let (price, bs) := readLE 8 bs
  let (qtyExec, bs) := readLE 4 bs
  let (qtyRemain, _) := readLE 4 bs
  (ResponseType.ofRaw? (.ofNat type)).map fun type =>
    ⟨.ofNat nSeq, ⟨type, .ofNat clientId, .ofNat tickerId, .ofNat clientOrderId,
      .ofNat marketOrderId, ⟨(UInt8.ofNat side).toInt8⟩, (UInt64.ofNat price).toInt64,
      .ofNat qtyExec, .ofNat qtyRemain⟩⟩

@[simp] theorem length_sizeImage (n : UInt64) : (sizeImage n).length = 8 :=
  length_leBytes _ _

@[simp] theorem OMEClientResponse.length_image (r : OMEClientResponse) :
    r.image.length = sizeofOMEClientResponse := by
  simp [image, sizeofOMEClientResponse]

@[simp] theorem OGSClientResponse.length_image (r : OGSClientResponse) :
    r.image.length = sizeofOGSClientResponse := by
  simp [image, sizeofOGSClientResponse]

/-- A response is read back from its image, whatever follows. -/
theorem OGSClientResponse.ofBytes_image (r : OGSClientResponse) (bs : List UInt8) :
    ofBytes (r.image ++ bs) = some r := by
  simp only [image, List.append_assoc, ofBytes, readLE_uint8, readLE_uint32, readLE_uint64]
  simp

/-- **The two sends of a response make up the image of one record.** -/
theorem sizeImage_append_image (n : UInt64) (r : OMEClientResponse) :
    sizeImage n ++ r.image = OGSClientResponse.image ⟨n, r⟩ := by
  simp only [sizeImage, OMEClientResponse.image, OGSClientResponse.image, List.append_assoc]

end HftSys
