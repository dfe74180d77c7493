/-
  The event texts: `FindParentheses` and `ReadResponseJson`, which the repository has twice
  (`rtc/rtc_transport.cpp`, `io/websocket_client.h`), and `StringSplit`
  (`cpp_websocket/utils/stringex.hpp`).

  The scanner looks for a key, takes the text between the first braces behind it, splits that
  at the commas, and looks in each piece for the names of the members. A value is what
  stands a fixed number of bytes behind the name, less the last byte. The copies have the
  same `FindParentheses` and the same offsets; they differ in the place from which the
  payload's braces are looked for, which is the parameter of `readEvent`.

  `FindParentheses` pops an empty stack at a brace that closes nothing, and ends without a
  value where no brace closes the first one; both are undefined and faults here. What a call
  that fails has stored before is left out.
-/
import Bifrost.Lib.Text
import Bifrost.Lib.Trace

namespace Bifrost.Io

open Bifrost.Text

structure WebsocketEventResponseHeader where
  messageType : List UInt8
  connectId : List UInt8
  statusMessage : List UInt8
  status : Int
  deriving DecidableEq

structure WebsocketEventResponsePayload where
  requestId : List UInt8
  simpleRate : List UInt8
  packOverlap : List UInt8
  deriving DecidableEq

structure WebsocketEventResponse where
  header : WebsocketEventResponseHeader
  payload : WebsocketEventResponsePayload
  deriving DecidableEq

/-! ## Pieces of the text -/

/-- The loop of `FindParentheses` over the rest of the text, from index `i`. -/
def findParenthesesLoop : List (UInt8 × Nat) → Nat → List UInt8 → Except TextFault (Nat × Nat)
  | _, _, [] => .error .noReturn
  | parentheses, i, c :: text =>
    if c = 123 then findParenthesesLoop ((c, i) :: parentheses) (i + 1) text
    else if c = 125 then
      match parentheses with
      | [] => .error .emptyStack
      | [result] => .ok (result.2 + 1, i)
      | _ :: parentheses => findParenthesesLoop parentheses (i + 1) text
    else findParenthesesLoop parentheses (i + 1) text

def findParentheses (text : List UInt8) : Except TextFault (Nat × Nat) :=
  findParenthesesLoop [] 0 text

/-- What stands between the first braces from `start` on. -/
def braceGroup (text : List UInt8) (start : Nat) : Except TextFault (List UInt8) := do
  let str ← substr text start
  let splitIndex ← findParentheses str
  substrCount str splitIndex.1 (sizeSub splitIndex.2 splitIndex.1)

/-- The loop of `StringSplit`. Every round removes a separator, so one round for each byte
    is enough. -/
def stringSplitLoop (splitStr : List UInt8) : Nat → List UInt8 → List (List UInt8)
  | 0, _ => []
  | fuel + 1, tempString =>
    match find splitStr tempString with
    | none => [tempString]
    | some pos =>
      let rest := tempString.drop (pos + splitStr.length)
      tempString.take pos :: if rest.length > 0 then stringSplitLoop splitStr fuel rest else []

def stringSplit (inputStr splitStr : List UInt8) : List (List UInt8) :=
  if inputStr.length = 0 then [] else stringSplitLoop splitStr inputStr.length inputStr

/-! ## Members -/

/-- The string member `name` of a line: the value begins `offset` bytes behind the name's
    first one, and the last byte of the line is its quote. -/
def stringMember (name : String) (offset : Nat) (line : List UInt8) :
    Except TextFault (Option (List UInt8)) :=
  match find (ascii name) line with
  | none => .ok none
  | some pos =>
    some <$> substrCount line (pos + offset) (sizeSub line.length (pos + (offset + 1)))

/-- The member `status`, the only one that is searched with its closing quote. -/
def statusMember (line : List UInt8) : Except TextFault (Option Int) :=
  match find (ascii "status\"") line with
  | none => .ok none
  | some pos => do
    some <$> stoi (← substrCount line (pos + 8) (sizeSub line.length (pos + 8)))

def readHeaderLine (header : WebsocketEventResponseHeader) (line : List UInt8) :
    Except TextFault WebsocketEventResponseHeader := do
  let messageType ← stringMember "messageType" 14 line
  let connectId ← stringMember "connectId" 12 line
  let statusMessage ← stringMember "statusMessage" 16 line
  let status ← statusMember line
  .ok { messageType := messageType.getD header.messageType
        connectId := connectId.getD header.connectId
        statusMessage := statusMessage.getD header.statusMessage
        status := status.getD header.status }

def readPayloadLine (payload : WebsocketEventResponsePayload) (line : List UInt8) :
    Except TextFault WebsocketEventResponsePayload := do
  let requestId ← stringMember "requestId" 12 line
  let simpleRate ← stringMember "simpleRate" 13 line
  let packOverlap ← stringMember "packOverlap" 14 line
  .ok { requestId := requestId.getD payload.requestId
        simpleRate := simpleRate.getD payload.simpleRate
        packOverlap := packOverlap.getD payload.packOverlap }

/-! ## The two halves -/

def readHeader (header : WebsocketEventResponseHeader) (text : List UInt8) :
    Except TextFault WebsocketEventResponseHeader :=
  match find (ascii "header") text with
  | none => .ok header
  | some posHeader => do
    let headerStr ← braceGroup text (posHeader + 8)
    Trace.runE readHeaderLine header (stringSplit headerStr (ascii ","))

/-- The payload is only read if the text has the key; `start` is where its braces are looked
    for. -/
def readPayload (start : Nat) (payload : WebsocketEventResponsePayload) (text : List UInt8) :
    Except TextFault WebsocketEventResponsePayload :=
  match find (ascii "payload") text with
  | none => .ok payload
  | some _ => do
    let payloadStr ← braceGroup text start
    Trace.runE readPayloadLine payload (stringSplit payloadStr (ascii ","))

/-- `ReadResponseJson`, with the place from which the payload's braces are looked for. -/
def readEvent (start : Nat) (response : WebsocketEventResponse) (text : List UInt8) :
    Except TextFault WebsocketEventResponse := do
  -- the text without its first and last byte is taken and never used
  let _ ← substrCount text 1 (sizeSub text.length 2)
  let header ← readHeader response.header text
  let payload ← readPayload start response.payload text
  .ok { header, payload }

namespace WebsocketClient

/-- `pos_paylad + 9`. -/
def payloadStart (text : List UInt8) : Nat := offsetFrom (find (ascii "payload") text) 9

def readResponseJson (response : WebsocketEventResponse) (text : List UInt8) :
    Except TextFault WebsocketEventResponse := readEvent (payloadStart text) response text

end WebsocketClient

end Bifrost.Io

namespace Bifrost.Rtc.RtcTransport

open Bifrost.Io Bifrost.Text

/-- `pos_header + 9`. -/
def payloadStart (text : List UInt8) : Nat := offsetFrom (find (ascii "header") text) 9

def readResponseJson (response : WebsocketEventResponse) (text : List UInt8) :
    Except TextFault WebsocketEventResponse := readEvent (payloadStart text) response text

end Bifrost.Rtc.RtcTransport
