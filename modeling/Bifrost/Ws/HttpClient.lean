/-
  The handshake of a websocket connection: `HttpClient` and what `WebSocketClient` makes of the
  response.

  `OnRead` collects what arrives until there is an empty line, parses the header before it and
  hands the response over (`handleHttpRespone`). Once the response is accepted, everything that
  arrives goes to `HandleFrame`. When a piece reaches beyond the header, `OnRead` calls itself
  with the end of the piece: it takes the place of the empty line in all that has arrived for
  a place in the piece.

  Names of headers are compared as they are written.
-/
import Bifrost.Io.EventText
import Bifrost.Lib.OrderedMap
import Bifrost.Ws.Sha1
import Bifrost.Ws.WebSocketSession

namespace Bifrost.Ws

open Io Text

/-! ## Text -/

/-- `atoi`, which leaves open what a number is that is not an `int`. -/
def atoi (text : List UInt8) : Except Fault Int :=
  match stoi text with
  | .ok value => .ok value
  | .error .outOfRange => .error .overflow
  | .error _ => .ok 0

/-- `GenWebSocketHashcode`, of a key without NUL. -/
def genWebSocketHashcode (key : List UInt8) : List UInt8 :=
  printBase64
    (Sha1.finalize (Sha1.add {} (key ++ ascii "258EAFA5-E914-47DA-95CA-C5AB0DC85B11"))).state

example : genWebSocketHashcode (ascii "dGhlIHNhbXBsZSBub25jZQ==") =
    ascii "s3pPLMBiTxaQ9kYGzzhZRbK+xOo=" := by decide +kernel

/-! ## The response -/

/-- `std::map<std::string, std::string>`, in the order of the bytes of its keys. -/
abbrev Headers := List (List UInt8 × List UInt8)

namespace Headers

def keyLt (a b : List UInt8) : Bool := decide (a < b)

/-- The value of `headers[key]`. -/
def value (m : Headers) (key : List UInt8) : List UInt8 :=
  ((OrderedMap.find? keyLt key m).map Prod.snd).getD []

/-- What `headers[key]` leaves behind: an entry, with an empty value if there was none. -/
def visit (m : Headers) (key : List UInt8) : Headers := OrderedMap.emplace keyLt key [] m

/-- `headers[key] = value`. -/
def assign (m : Headers) (key value : List UInt8) : Headers :=
  (m.visit key).map fun e => if e.1 = key then (key, value) else e

/-- The headers as `HandleHttpRespone` writes them into its stream. -/
def dump (m : Headers) : List UInt8 :=
  123 :: m.flatMap (fun e => 32 :: (e.1 ++ 58 :: e.2)) ++ [125]

end Headers

structure HttpClientResponse where
  status : List UInt8 := ascii "OK"
  statusCode : Int := 200
  proto : List UInt8 := ascii "HTTP"
  version : List UInt8 := ascii "1.1"
  headers : Headers := []
  contentLength : Int := 0
  data : DataBuffer := .make extraLen
  headerReady : Bool := false
  bodyReady : Bool := false
  deriving DecidableEq, Repr

namespace HttpClientResponse

/-- The first line of the header. -/
def statusLine (r : HttpClientResponse) (line : List UInt8) : Except Fault HttpClientResponse :=
  match stringSplit line [32] with
  | first :: code :: third :: more =>
    match find [47] first with
    | none => .error .assertion
    | some pos => do
      let statusCode ← atoi code
      .ok { r with proto := first.take pos
                   version := first.drop (pos + 1)
                   statusCode := statusCode
                   status := if more = [] then third else (third :: more).flatten }
  | _ => .error .assertion

/-- Every other line. A line that ends at its colon has no byte to cut off behind it. -/
def headerLine (r : HttpClientResponse) (line : List UInt8) : Except Fault HttpClientResponse :=
  match find [58] line with
  | none => .error .assertion
  | some pos =>
    let key := line.take pos
    match substr line (pos + 2) with
    | .error _ => .error .exception
    | .ok value =>
      if key = ascii "Content-Length" then do
        let contentLength ← atoi value
        .ok { r with contentLength := contentLength, headers := r.headers.assign key value }
      else .ok { r with headers := r.headers.assign key value }

def headerLines (r : HttpClientResponse) : List (List UInt8) → Except Fault HttpClientResponse
  | [] => .ok r
  | line :: lines => do (← r.headerLine line).headerLines lines

/-- The loop over the lines of the header. -/
def parseHeader (r : HttpClientResponse) (header : List UInt8) :
    Except Fault HttpClientResponse :=
  match stringSplit header [13, 10] with
  | [] => .ok r
  | first :: lines => do (← r.statusLine first).headerLines lines

end HttpClientResponse

/-! ## The client -/

/-- `HttpClient` and `WebSocketClient`, up to their timer and the TCP client. -/
structure WebSocketClient where
  key : List UInt8
  resp : Option HttpClientResponse := none
  httpReady : Bool := false
  receiver : Receiver := {}

namespace WebSocketClient

def setConnected (c : WebSocketClient) (isConnected : Bool) : WebSocketClient :=
  { c with receiver.session.isConnected := isConnected }

/-- `OnHttpRead` of an error. -/
def readError (c : WebSocketClient) : WebSocketClient × List Output :=
  (c.setConnected false, [.onClose (-1) (ascii "http read error")])

/-- A response `HandleHttpRespone` does not accept. The stream still holds the headers. -/
def refuse (c : WebSocketClient) (r : HttpClientResponse) (headers : Headers)
    (desc : List UInt8) : WebSocketClient × List Output :=
  ({ c with resp := some { r with headers := headers } }.setConnected false,
    [.onClose (-1) (r.headers.dump ++ desc)])

/-- `HandleHttpRespone`. -/
def handleHttpRespone (c : WebSocketClient) (r : HttpClientResponse) :
    WebSocketClient × List Output :=
  if r.statusCode ≠ 101 then
    c.refuse r r.headers (ascii "websocket http response code error:" ++ decimal r.statusCode)
  else
    let connection := r.headers.value (ascii "Connection")
    let headers := r.headers.visit (ascii "Connection")
    if connection ≠ ascii "Upgrade" ∧ connection ≠ ascii "upgrade" then
      c.refuse r headers (ascii "websocket http response Connection error:" ++ connection)
    else
      let upgrade := headers.value connection
      let headers := headers.visit connection
      if upgrade ≠ ascii "websocket" then
        c.refuse r headers (ascii "websocket http response Upgrade error:" ++ connection)
      else
        let hash := genWebSocketHashcode (base64Encode c.key)
        let accept := headers.value (ascii "sec-websocket-accept")
        let headers := headers.visit (ascii "sec-websocket-accept")
        if hash ≠ accept then
          c.refuse r headers (
            ascii "websocket http response Sec-WebSocket-Accept error, response:" ++ accept ++
              ascii ", local hash:" ++ hash)
        else
          ({ c with resp := some { r with headers := headers, data := r.data.reset }
                    httpReady := true }.setConnected true, [.onConnection])

variable (host : Host)

/-- `OnHttpRead` without an error. -/
def onHttpRead (c : WebSocketClient) (r : HttpClientResponse) :
    Except Fault (WebSocketClient × List Output) :=
  if c.httpReady then do
    let (receiver, out) ← c.receiver.handleFrame host r.data.bytes
    .ok ({ c with receiver := receiver, resp := some { r with data := r.data.reset } }, out)
  else .ok (c.handleHttpRespone r)

/-- `OnRead` from the header on. -/
def onBody (c : WebSocketClient) (r : HttpClientResponse) :
    Except Fault (WebSocketClient × List Output) :=
  if 0 < r.contentLength then
    if r.contentLength ≤ r.data.dataLen then c.onHttpRead host { r with bodyReady := true }
    else .ok ({ c with resp := some r }, [])
  else c.onHttpRead host r

/-- The response with a piece put behind the others. -/
def append (c : WebSocketClient) (data : List UInt8) : Except Fault HttpClientResponse := do
  let r := c.resp.getD {}
  let data ← r.data.appendData data data.length
  .ok { r with data := data }

/-- `OnRead` with the header read before. -/
def onReadReady (c : WebSocketClient) (data : List UInt8) :
    Except Fault (WebSocketClient × List Output) := do
  c.onBody host (← c.append data)

/-- `OnRead` of a piece. Calling itself it finds the header read. -/
def onRead (c : WebSocketClient) (data : List UInt8) :
    Except Fault (WebSocketClient × List Output) :=
  if data.length = 0 then .ok c.readError
  else if (c.resp.getD {}).headerReady then c.onReadReady host data
  else do
    let r ← c.append data
    match find [13, 10, 13, 10] r.data.bytes with
    | none => .ok ({ c with resp := some r }, [])
    | some pos =>
      let header := r.data.bytes.take pos
      let r := { r with headerReady := true, data := r.data.consumeData (pos + 4) }
      let (c, out) ← c.onBody host (← r.parseHeader header)
      -- `pos` counts from the first piece, not from this one
      if pos + 4 < data.length then do
        let (c, more) ← c.onReadReady host (data.drop (pos + 4))
        .ok (c, out ++ more)
      else .ok (c, out)

end WebSocketClient

end Bifrost.Ws
