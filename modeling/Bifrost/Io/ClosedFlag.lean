/-
  The closed flag that `RtcTransport::Dispatch` reads.

  `WebsocketClient` declares `closed_` again, over the one of its base `SocketInterface`.
  `Init` and `Close` write the client's own and follow its life (`own_closed_run`).
  `IsClosed` is a function of the base and reads the base's, which no constructor sets and
  nothing writes: it keeps what its memory held (`base_run`).

  So the flag is right exactly while it happens to read true and the client is never opened
  (`flagRight_iff`).
-/
import Bifrost.Io.WebsocketClient
import Bifrost.Lib.Trace
import Bifrost.Rtc.RtcTransport

namespace Bifrost.Io

open Bifrost.Rtc

/-- The base class; a value of `closed_` stands for the memory the object was made in. -/
structure SocketInterface where
  closed : Bool

def SocketInterface.isClosed (s : SocketInterface) : Bool := s.closed

/-- A client, its base part and the transport that is its dispatcher. -/
structure Endpoint where
  client : WebsocketClient Unit
  base : SocketInterface
  transport : RtcTransport

namespace Endpoint

/-- The calls of `Dispatch` that one read makes. -/
def dispatchAll (closed : Bool) (clock : Clock) :
    List (Unit × List UInt8) → RtcTransport → Except Fault RtcTransport
  | [], t => .ok t
  | (_, data) :: calls, t => do
    dispatchAll closed clock calls (← t.dispatch data closed .websocket none clock)

/-- `OnReadData`, with what the dispatcher makes of it when `IsClosed` answers `closed`. -/
def readData (e : Endpoint) (closed : Bool) (code : Int) (data : List UInt8) (clock : Clock) :
    Except Fault Endpoint := do
  let (client, calls) ← e.client.onReadData code data
  let transport ← dispatchAll closed clock calls e.transport
  .ok { e with client, transport }

inductive Event where
  | init
  | close
  | data (code : Int) (bytes : List UInt8) (clock : Clock)

def step (e : Endpoint) : Event → Except Fault Endpoint
  | .init => .ok { e with client := e.client.init.1 }
  | .close => .ok { e with client := e.client.close }
  | .data code bytes clock => e.readData e.base.isClosed code bytes clock

/-! ## The life of a client -/

/-- An `Init` opens a client that is not open and leaves an open one open. -/
def opens (isOpen : Bool) : Event → Bool
  | .init => true
  | .close => false
  | .data _ _ _ => isOpen

/-- Between a successful `Init` and the next `Close`, after the events. -/
def isOpen (e : Endpoint) (es : List Event) : Bool := es.foldl opens (!e.client.closed)

theorem isOpen_concat (e : Endpoint) (es : List Event) (ev : Event) :
    e.isOpen (es ++ [ev]) = opens (e.isOpen es) ev := by
  unfold isOpen
  rw [List.foldl_append]
  rfl

theorem isOpen_of_noInit {e : Endpoint} (hclosed : e.client.closed = true) {es : List Event}
    (hnone : .init ∉ es) : e.isOpen es = false := by
  induction es using List.reverseRecOn with
  | nil => simp [isOpen, hclosed]
  | append_singleton es ev ih =>
      rw [List.mem_append, not_or] at hnone
      rw [isOpen_concat, ih hnone.1]
      cases ev with
      | init => exact absurd (List.mem_singleton_self _) hnone.2
      | close => rfl
      | data code bytes clock => rfl

/-! ## The two flags -/

theorem onReadData_closed {c c' : WebsocketClient Unit} {code : Int} {data : List UInt8}
    {calls : List (Unit × List UInt8)} (h : c.onReadData code data = .ok (c', calls)) :
    c'.closed = c.closed := by
  unfold WebsocketClient.onReadData at h
  split at h
  · cases h
    rfl
  · obtain ⟨memBuf, -, h⟩ := bind_eq_ok.mp h
    split at h <;> cases h <;> rfl

theorem readData_ok {e e' : Endpoint} {closed : Bool} {code : Int} {data : List UInt8}
    {clock : Clock} (h : e.readData closed code data clock = .ok e') :
    ∃ client calls transport, e.client.onReadData code data = .ok (client, calls) ∧
      dispatchAll closed clock calls e.transport = .ok transport ∧
      e' = { e with client, transport } := by
  obtain ⟨⟨client, calls⟩, hread, h⟩ := bind_eq_ok.mp h
  obtain ⟨transport, hdispatch, h⟩ := bind_eq_ok.mp h
  cases h
  exact ⟨client, calls, transport, hread, hdispatch, rfl⟩

/-- The client's own flag follows its life. -/
theorem own_closed_run {e : Endpoint} (es : List Event) : ∀ {e' : Endpoint},
    Trace.runE step e es = .ok e' → e'.client.closed = !e.isOpen es := by
  induction es using List.reverseRecOn with
  | nil =>
      intro e' hrun
      cases hrun
      simp [isOpen]
  | append_singleton es ev ih =>
      intro e' hrun
      obtain ⟨m, hpre, hstep⟩ := (Trace.runE_concat_iff _ _ _ _).mp hrun
      have hm := ih hpre
      rw [isOpen_concat]
      cases ev with
      | init =>
          cases hstep
          simp only [WebsocketClient.init]
          split
          · next hopen => simpa [opens] using hopen
          · rfl
      | close =>
          cases hstep
          rfl
      | data code bytes clock =>
          obtain ⟨client, calls, transport, hread, -, rfl⟩ := readData_ok hstep
          exact (onReadData_closed hread).trans hm

/-- The base's flag never changes. -/
theorem base_run {e e' : Endpoint} {es : List Event} (hrun : Trace.runE step e es = .ok e') :
    e'.base = e.base := by
  refine Trace.runE_invariant (I := fun s => s.base = e.base) ?_ rfl hrun
  intro s ev s' hs hstep
  cases ev with
  | init => cases hstep; exact hs
  | close => cases hstep; exact hs
  | data code bytes clock =>
      obtain ⟨client, calls, transport, -, -, rfl⟩ := readData_ok hstep
      exact hs

/-- Closed, `Dispatch` returns at once. -/
theorem dispatchAll_closed (clock : Clock) (calls : List (Unit × List UInt8))
    (t : RtcTransport) : dispatchAll true clock calls t = .ok t := by
  induction calls with
  | nil => rfl
  | cons call calls ih => exact ih

/-! ## What the dispatcher sees -/

/-- At every point of the events: `IsClosed` is false exactly while the client is open, a
    message that comes then is passed to the streams, and one that comes otherwise changes
    none. -/
structure FlagRight (e : Endpoint) (es : List Event) : Prop where
  flag : ∀ pre post s, es = pre ++ post → Trace.runE step e pre = .ok s →
    (s.base.isClosed = false ↔ e.isOpen pre = true)
  passed : ∀ pre code bytes clock post s, es = pre ++ .data code bytes clock :: post →
    Trace.runE step e pre = .ok s → e.isOpen pre = true →
    s.step (.data code bytes clock) = s.readData false code bytes clock
  dropped : ∀ pre code bytes clock post s s', es = pre ++ .data code bytes clock :: post →
    Trace.runE step e pre = .ok s → e.isOpen pre = false →
    s.step (.data code bytes clock) = .ok s' → s'.transport = s.transport

/-- **The flag is right in a run that completes exactly when the memory of the base reads
    true and the client is never opened.** -/
theorem flagRight_iff {e e' : Endpoint} {es : List Event} (hclosed : e.client.closed = true)
    (hrun : Trace.runE step e es = .ok e') :
    e.FlagRight es ↔ e.base.closed = true ∧ .init ∉ es := by
  constructor
  · intro h
    have hbase : e.base.closed = true := by
      have hstart := h.flag [] es e rfl rfl
      simpa [isOpen, hclosed, SocketInterface.isClosed] using hstart
    refine ⟨hbase, fun hinit => ?_⟩
    obtain ⟨pre, post, rfl⟩ := List.append_of_mem hinit
    -- the run gets behind this `Init`, where the client is open
    have hsplit : pre ++ .init :: post = (pre ++ [.init]) ++ post := by simp
    rw [hsplit, Trace.runE_append] at hrun
    cases hopened : Trace.runE step e (pre ++ [.init]) with
    | error f =>
        rw [hopened] at hrun
        cases hrun
    | ok s =>
        have hflag := (h.flag _ post s hsplit hopened).mpr (by rw [isOpen_concat]; rfl)
        rw [base_run hopened, SocketInterface.isClosed, hbase] at hflag
        cases hflag
  · rintro ⟨hbase, hnone⟩
    have hnever : ∀ pre post, es = pre ++ post → e.isOpen pre = false := fun pre post hsplit =>
      isOpen_of_noInit hclosed fun hmem => hnone (hsplit ▸ List.mem_append_left _ hmem)
    constructor
    · intro pre post s hsplit hpre
      rw [base_run hpre, SocketInterface.isClosed, hbase, hnever pre post hsplit]
      decide
    · intro pre code bytes clock post s hsplit _ hopen
      rw [hnever pre _ hsplit] at hopen
      cases hopen
    · intro pre code bytes clock post s s' _ hpre _ hstep
      obtain ⟨client, calls, transport, -, hdispatch, rfl⟩ := readData_ok hstep
      rw [base_run hpre, SocketInterface.isClosed, hbase, dispatchAll_closed] at hdispatch
      cases hdispatch
      rfl

/-- A new client in memory that read `memory`, its transport without streams. -/
def created (memory : Bool) : Endpoint :=
  { client := { dispatchers := [()], distinct := by simp }
    base := ⟨memory⟩
    transport := {} }

/-- Opened, a client in memory that reads true looks closed; one in memory that reads false
    looks open before that. -/
theorem not_flagRight :
    ¬ (created true).FlagRight [.init] ∧ ¬ (created false).FlagRight [.init] := by
  constructor
  · intro h
    have hflag := (h.flag [.init] [] _ rfl rfl).mpr rfl
    cases hflag
  · intro h
    have hopen := (h.flag [] [.init] _ rfl rfl).mp rfl
    cases hopen

/-- Data to a client that was never opened. -/
theorem flagRight_never_opened :
    (created true).FlagRight [.data 0 [0x80, 0x60] (fun _ => 1), .close] :=
  (flagRight_iff rfl (by rfl)).mpr ⟨rfl, by simp⟩

end Endpoint

end Bifrost.Io
