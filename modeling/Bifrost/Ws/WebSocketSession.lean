/-
  The frames of a websocket connection: `WebSocketSessionBase` and what `WebSocketClient` adds.

  `HandleFrame` takes the frames off what has arrived. The payload of each goes behind those
  kept in `recv_buffer_vec_`, and a frame with the FIN bit hands them up, one by one, as its
  opcode says (`frameStep`). `SendWsFrame` writes a frame, masked with a key drawn at random.
  The server of the connection is not part of the library: what arrives is any byte string.

  Left out is that `SendWsFrame` takes the address `&data_vec[0]` for a payload of no bytes
  too, where the vector has no element to refer to. No byte is read or written there.
-/
import Bifrost.Ws.FrameParse

namespace Bifrost.Ws

open Bytes Text

def wsOpContinueType : UInt8 := 0x00
def wsOpTextType : UInt8 := 0x01
def wsOpBinType : UInt8 := 0x02
def wsOpCloseType : UInt8 := 0x08
def wsOpPingType : UInt8 := 0x09
def wsOpPongType : UInt8 := 0x0a

/-- What the client does: calls of its `WebSocketConnectionCallBackI`, and of its TCP client. -/
inductive Output where
  | onReadText (code : Int) (text : List UInt8)
  | onReadData (code : Int) (data : List UInt8)
  | onConnection
  | onClose (code : Int) (desc : List UInt8)
  | send (bytes : List UInt8)
  | close
  deriving DecidableEq, Repr

/-- The masking keys drawn and the readings of `now_millisec()`, each in order. -/
structure Host where
  key : Nat → MaskingKey
  nowMs : Nat → Int

/-- The members of both classes, but for the frame parser and the handshake. -/
structure Session where
  recvBuffer : List (List UInt8) := []
  lastOpCode : UInt8 := wsOpTextType
  lastRecvPongMs : Int := -1
  lastSendPingMs : Int := -1
  isConnected : Bool := false
  closed : Bool := false
  /-- How many keys have been drawn, and how often the time has been read. -/
  drawn : Nat := 0
  readings : Nat := 0
  deriving DecidableEq, Repr

/-! ## Writing frames -/

/-- The header `SendWsFrame` writes, up to the masking key. -/
def wsHeader (len : Nat) (opCode : UInt8) : List UInt8 :=
  let first := 0x80 ||| (opCode &&& 0x0f)
  if 126 ≤ len then
    if 65535 < len then first :: (0x80 ||| 127) :: put64be (UInt64.ofNat len)
    else first :: (0x80 ||| 126) :: put16be (UInt16.ofNat len)
  else [first, 0x80 ||| UInt8.ofNat len]

namespace Session

variable (host : Host)

/-- `SendWsFrame`. -/
def sendWsFrame (s : Session) (data : List UInt8) (opCode : UInt8) :
    Except Fault (Session × List Output) := do
  let key := host.key s.drawn
  let payload ← maskBytes key data.length data
  .ok ({ s with drawn := s.drawn + 1 },
    [.send (wsHeader data.length opCode ++ key.toList ++ payload)])

/-- `SendClose`. The code is not sent. -/
def sendClose (s : Session) (_code : UInt16) (reason : List UInt8) :
    Except Fault (Session × List Output) := s.sendWsFrame host reason wsOpCloseType

/-- `SendPingFrame`. -/
def sendPingFrame (s : Session) (nowMs : Int) : Except Fault (Session × List Output) :=
  s.sendWsFrame host (put32be (UInt32.ofInt (nowMs.tdiv 1000))) wsOpPingType

/-! ## The frames received -/

/-- `HandleWsData`. -/
def handleWsData (data : List UInt8) (opCode : UInt8) : List Output :=
  if opCode = wsOpTextType then [.onReadText 0 data]
  else if opCode = wsOpBinType then [.onReadData 0 data]
  else []

/-- The codes of a close frame that `HandleWsClose` takes for invalid. -/
def invalidCloseCode (code : UInt16) : Bool :=
  code < 1000 || code ≥ 5000 || code = 1004 || code = 1005 || code = 1006 || code = 1015

/-- What `HandleWsClose` answers. -/
def answerClose (s : Session) (data : List UInt8) : Except Fault (Session × List Output) :=
  if h : 0 + 2 ≤ data.length then
    if invalidCloseCode (u16be data 0 h) then s.sendClose host 1002 (ascii "Invalid close code")
    else s.sendWsFrame host data wsOpCloseType
  else s.sendClose host 1002 (ascii "Incomplete close code")

/-- `HandleWsClose`. -/
def handleWsClose (s : Session) (data : List UInt8) : Except Fault (Session × List Output) :=
  if s.closed then .ok (s, [])
  else do
    let (s, answer) ← s.answerClose host data
    .ok ({ s with closed := true, isConnected := false },
      answer ++ [.onClose 0 (ascii "close"), .close])

/-- The `switch` over the opcode of a frame with the FIN bit. -/
def dispatch (s : Session) (opCode : UInt8) : Except Fault (Session × List Output) :=
  if opCode = wsOpPingType then
    Trace.runOut (fun s data => s.sendWsFrame host data wsOpPongType) s s.recvBuffer
  else if opCode = wsOpPongType then
    .ok ({ s with lastRecvPongMs := host.nowMs s.readings, readings := s.readings + 1 }, [])
  else if opCode = wsOpCloseType then Trace.runOut (handleWsClose host) s s.recvBuffer
  else if opCode = wsOpContinueType then
    .ok (s, s.recvBuffer.flatMap fun data => handleWsData data s.lastOpCode)
  else if opCode = wsOpTextType ∨ opCode = wsOpBinType then
    .ok (s, s.recvBuffer.flatMap fun data => handleWsData data opCode)
  else .ok (s, [])

/-- The opcode that continuation frames take over. -/
def noteOpCode (s : Session) (opCode : UInt8) : Session :=
  if opCode = wsOpTextType ∨ opCode = wsOpBinType then { s with lastOpCode := opCode } else s

/-- `HandleFrame` from the payload on. -/
def handlePayload (s : Session) (fin : Bool) (opCode : UInt8) (payload : List UInt8) :
    Except Fault (Session × List Output) :=
  let s := { s with recvBuffer := s.recvBuffer ++ [payload] }
  if fin then do
    let (s, out) ← s.dispatch host opCode
    .ok ({ s with recvBuffer := [] }, out)
  else .ok (s, [])

/-- All that one frame does. -/
def frameStep (s : Session) (frame : Frame) : Except Fault (Session × List Output) :=
  (s.noteOpCode frame.opcode).handlePayload host frame.fin frame.opcode frame.payload

end Session

/-! ## `HandleFrame` -/

/-- The frame parser and the session. -/
structure Receiver where
  frame : WebSocketFrame := {}
  session : Session := {}

namespace Receiver

variable (host : Host)

/-- The loop of `HandleFrame` after `Parse` has returned 0: whether to go on, with what has
    come out so far. -/
def handleParsed (r : Receiver) : Except Fault (Receiver × List Output × Bool) :=
  let f := r.frame
  let s := r.session.noteOpCode f.opcode
  if f.payloadIsReady then do
    let item ← DataBuffer.new (sizeOf (f.payloadLen + 1024))
    let item ← item.appendData f.payloadData (sizeOf f.payloadLen)
    let frame := (f.consume (f.payloadStart + f.payloadLen)).reset
    let (s, out) ← s.handlePayload host f.fin f.opcode item.bytes
    .ok ({ frame := frame, session := s }, out, true)
  else .ok ({ r with session := s }, [], false)

/-- The loop, at most `fuel` times, the first time with the bytes that have arrived. -/
def loop : Nat → Receiver → List UInt8 → Except Fault (Receiver × List Output)
  | 0, _, _ => .error .endlessLoop
  | fuel + 1, r, input => do
    let (frame, ret) ← r.frame.parse input
    let r := { r with frame := frame }
    if ret ≠ 0 then .ok (r, [])
    else do
      let (r, out, go) ← r.handleParsed host
      if go ∧ 0 < r.frame.buffer.dataLen then do
        let (r, rest) ← loop fuel r []
        .ok (r, out ++ rest)
      else .ok (r, out)

/-- `HandleFrame`. Every turn of the loop takes bytes out of the buffer, so that one more turn
    than there are bytes is enough. -/
def handleFrame (r : Receiver) (data : List UInt8) : Except Fault (Receiver × List Output) :=
  r.loop host (r.frame.buffer.dataLen + data.length + 1) data

end Receiver

end Bifrost.Ws
