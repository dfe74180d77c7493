/-
  `CoreIO::WebsocketClient` (`io/websocket_client.h`) with the parts of its bases it uses:
  the timer (`TimerInterface`) and the set of dispatchers (`SocketInterface`).

  The callbacks run one after the other on the network thread. `std::promise` allows one
  `set_value` and one `get_future`; any further one throws (`FutureError`).

  Left out: the texts (`EventText` is about `ReadResponseJson`), `SendData`, which hands its
  bytes to the vendored client, and that client itself.
-/
import Bifrost.Utils.MemBuffer

namespace Bifrost.Io

open Bifrost.Rtc Bifrost.Utils

/-- `std::future_errc`. -/
inductive FutureError where
  | futureAlreadyRetrieved
  | promiseAlreadySatisfied
  deriving DecidableEq, Repr

/-- The client, over a type of dispatchers. -/
structure WebsocketClient (δ : Type) where
  isConnected : Bool := false
  closed : Bool := true
  /-- `ws_client_` is not null. -/
  hasWsClient : Bool := false
  timeoutMs : UInt32 := 0
  running : Bool := false
  /-- The value of `connect_promise_`, once it is set. -/
  connectPromise : Option Bool := none
  /-- `get_future` has been called. -/
  futureRetrieved : Bool := false
  connectFutureReady : Bool := false
  memBuf : MemBuffer := .membufInit 128
  /-- In the order of the set. -/
  dispatchers : List δ := []
  distinct : dispatchers.Nodup := by exact List.nodup_nil

namespace WebsocketClient

variable {δ : Type}

/-! ## Timer and promise -/

def setTimeout (c : WebsocketClient δ) (timeoutMs : UInt32) : WebsocketClient δ :=
  { c with timeoutMs }

def startTimer (c : WebsocketClient δ) : WebsocketClient δ :=
  if c.running ∨ c.timeoutMs = 0 then c else { c with running := true }

def stopTimer (c : WebsocketClient δ) : WebsocketClient δ := { c with running := false }

/-- `connect_promise_.set_value`. -/
def setValue (c : WebsocketClient δ) (value : Bool) : Except FutureError (WebsocketClient δ) :=
  match c.connectPromise with
  | none => .ok { c with connectPromise := some value }
  | some _ => .error .promiseAlreadySatisfied

/-! ## Connecting -/

def init (c : WebsocketClient δ) : WebsocketClient δ × Bool :=
  if !c.closed then (c, false) else ({ c with hasWsClient := true, closed := false }, true)

/-- `ConnectInvoke`, with whether `AsyncConnect` is called. -/
def connectInvoke (c : WebsocketClient δ) (timeoutMs : UInt32) :
    Except FutureError (WebsocketClient δ × Bool) :=
  let c := (c.setTimeout timeoutMs).startTimer
  let asyncConnect := !c.closed && !c.isConnected && c.hasWsClient
  if c.futureRetrieved then .error .futureAlreadyRetrieved
  else .ok ({ c with futureRetrieved := true }, asyncConnect)

def onTimer (c : WebsocketClient δ) : Except FutureError (WebsocketClient δ) :=
  let c := c.stopTimer
  if !c.isConnected then c.setValue false else .ok c

/-- `OnUvTimerCallback`. -/
def onUvTimerCallback (c : WebsocketClient δ) : Except FutureError (WebsocketClient δ) :=
  if c.running then c.onTimer else .ok c

def onConnection (c : WebsocketClient δ) : Except FutureError (WebsocketClient δ) :=
  let c := { c with isConnected := true }.stopTimer
  { c with connectFutureReady := true }.setValue true

def onClose (c : WebsocketClient δ) : Except FutureError (WebsocketClient δ) :=
  let c := { c with isConnected := false }.stopTimer
  if !c.connectFutureReady then do
    let c ← c.setValue false
    .ok { c with connectFutureReady := true }
  else .ok c

def close (c : WebsocketClient δ) : WebsocketClient δ :=
  { c with closed := true, isConnected := false }

/-! ## Dispatchers and data -/

/-- `AddDispatcher`: the set puts it where its order wants it, here in front. -/
def addDispatcher [DecidableEq δ] (c : WebsocketClient δ) (dispatcher : δ) :
    WebsocketClient δ × Bool :=
  if h : dispatcher ∈ c.dispatchers then (c, false)
  else
    ({ c with
       dispatchers := dispatcher :: c.dispatchers
       distinct := List.nodup_cons.mpr ⟨h, c.distinct⟩ }, true)

def removeDispatcher [DecidableEq δ] (c : WebsocketClient δ) (dispatcher : δ) :
    WebsocketClient δ :=
  { c with
    dispatchers := c.dispatchers.erase dispatcher
    distinct := c.distinct.erase dispatcher }

/-- A length at which `OnReadData` keeps the bytes back. -/
def kHoldBack : Nat := 4096

/-- `OnReadData`, with the calls of `Dispatch` it makes: the dispatcher and the
    `GetLen()` bytes from `GetData()` on. -/
def onReadData (c : WebsocketClient δ) (code : Int) (data : List UInt8) :
    Except Fault (WebsocketClient δ × List (δ × List UInt8)) :=
  if code < 0 then .ok ({ c with isConnected := false }, [])
  else do
    let memBuf ← c.memBuf.membufAppendData data
    if kHoldBack ≤ data.length then .ok ({ c with memBuf }, [])
    else
      .ok ({ c with memBuf := memBuf.membufClear 0 },
        c.dispatchers.map fun dispatcher => (dispatcher, memBuf.data))

end WebsocketClient

end Bifrost.Io
