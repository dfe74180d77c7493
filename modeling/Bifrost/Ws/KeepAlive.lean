/-
  A websocket connection over its life: what arrives, the timer, and what the application
  writes, in any order.

  The timer sends a ping every two seconds or so, and gives the connection up when no pong has
  come for fifteen (`OnTimer`). The connection ends with that, with a frame of the server that
  closes it, or with an error of the TCP connection, whichever comes first, and is reported
  closed once (`closed_once`). It is given up exactly when the last pong is too long ago, or
  the first call of the timer if there was none (`given_up_iff`).
-/
import Bifrost.Ws.FrameDelivery
import Bifrost.Ws.Handshake

namespace Bifrost.Ws

open Text Bytes

namespace Session

variable (host : Host)

/-- The ping of `OnTimer`. -/
def pingWhenDue (s : Session) (nowMs : Int) : Except Fault (Session × List Output) :=
  if nowMs - s.lastSendPingMs > 2000 then
    { s with lastSendPingMs := nowMs }.sendPingFrame host nowMs
  else .ok (s, [])

/-- `OnTimer`. -/
def onTimer (s : Session) : Except Fault (Session × List Output) :=
  if ¬ s.isConnected then .ok (s, [])
  else do
    let nowMs := host.nowMs s.readings
    let (s, ping) ← { s with readings := s.readings + 1 }.pingWhenDue host nowMs
    if s.lastRecvPongMs ≤ 0 then .ok ({ s with lastRecvPongMs := nowMs }, ping)
    else if nowMs - s.lastRecvPongMs > 15000 then
      .ok ({ s with isConnected := false },
        ping ++ [.close, .onClose (-1) (ascii "ping/pong timeout")])
    else .ok (s, ping)

end Session

/-- The client and its TCP connection. -/
structure Connection where
  client : WebSocketClient
  /-- The TCP client has not been closed, and there has been no error: after one libuv reads
      no further. -/
  reading : Bool

inductive Event where
  | read (data : List UInt8)
  | readError
  | timer
  | asyncWriteText (text : List UInt8)
  | asyncWriteData (data : List UInt8)
  deriving DecidableEq, Repr

/-- What the application writes, with the opcode of its frame. -/
def Event.written : Event → Option (List UInt8 × UInt8)
  | .asyncWriteText text => some (text, wsOpTextType)
  | .asyncWriteData data => some (data, wsOpBinType)
  | _ => none

namespace Connection

variable (host : Host)

/-- What a call has made of the session. -/
def put (c : Connection) (call : Except Fault (Session × List Output)) :
    Except Fault (Connection × List Output) := do
  let (session, out) ← call
  .ok ({ client := { c.client with receiver.session := session }
         reading := c.reading && decide (.close ∉ out) }, out)

def step (c : Connection) : Event → Except Fault (Connection × List Output)
  | .read data =>
    if c.reading then do
      let (client, out) ← c.client.onRead host data
      .ok ({ client := client, reading := decide (.close ∉ out) }, out)
    else .ok (c, [])
  | .readError =>
    if c.reading then
      .ok ({ client := c.client.readError.1, reading := false }, c.client.readError.2)
    else .ok (c, [])
  | .timer => c.put (c.client.receiver.session.onTimer host)
  | .asyncWriteText text => c.put (c.client.receiver.session.sendWsFrame host text wsOpTextType)
  | .asyncWriteData data => c.put (c.client.receiver.session.sendWsFrame host data wsOpBinType)

end Connection

/-! ## Closing -/

namespace Output

def isOnClose : Output → Bool
  | .onClose _ _ => true
  | _ => false

/-- Neither a report that the connection is closed nor a call that closes it. -/
def Quiet (o : Output) : Prop := o.isOnClose = false ∧ o ≠ .close

theorem countP_quiet {out : List Output} (h : ∀ o ∈ out, o.Quiet) : out.countP isOnClose = 0 :=
  List.countP_eq_zero.mpr fun o ho => by rw [(h o ho).1]; exact Bool.false_ne_true

end Output

namespace Session

/-- What any part of `HandleFrame` may do about closing: nothing, or close once. -/
inductive Passes (s s' : Session) (out : List Output) : Prop where
  | quiet (closed : s'.closed = s.closed) (connected : s'.isConnected = s.isConnected)
      (none : ∀ o ∈ out, o.Quiet)
  | closes (before : s.closed = false) (closed : s'.closed = true)
      (connected : s'.isConnected = false) (once : out.countP Output.isOnClose = 1)
      (shut : .close ∈ out)

theorem Passes.trans {s t u : Session} {out out' : List Output} (h : Passes s t out)
    (h' : Passes t u out') : Passes s u (out ++ out') := by
  cases h with
  | quiet hclosed hconnected hnone =>
      cases h' with
      | quiet hclosed' hconnected' hnone' =>
          exact .quiet (hclosed'.trans hclosed) (hconnected'.trans hconnected)
            (List.forall_mem_append.mpr ⟨hnone, hnone'⟩)
      | closes hbefore hclosed' hconnected' honce hshut =>
          refine .closes (hclosed ▸ hbefore) hclosed' hconnected' ?_ (List.mem_append_right _ hshut)
          rw [List.countP_append, Output.countP_quiet hnone, honce]
  | closes hbefore hclosed hconnected honce hshut =>
      cases h' with
      | quiet hclosed' hconnected' hnone' =>
          refine .closes hbefore (hclosed'.trans hclosed) (hconnected'.trans hconnected) ?_
            (List.mem_append_left _ hshut)
          rw [List.countP_append, Output.countP_quiet hnone', honce]
      | closes hbefore' =>
          rw [hclosed] at hbefore'
          cases hbefore'

section Frames

variable {host : Host} {s s' : Session} {out : List Output}

theorem passes_refl (s : Session) : Passes s s [] := .quiet rfl rfl (List.forall_mem_nil _)

theorem sendWsFrame_quiet {data : List UInt8} {opCode : UInt8}
    (h : s.sendWsFrame host data opCode = .ok (s', out)) :
    s' = { s with drawn := s.drawn + 1 } ∧ ∃ bytes, out = [.send bytes] := by
  rw [sendWsFrame_eq] at h
  cases h
  exact ⟨rfl, _, rfl⟩

theorem quiet_send (bytes : List UInt8) : ∀ o ∈ [Output.send bytes], o.Quiet :=
  List.forall_mem_singleton.mpr ⟨rfl, fun h => by cases h⟩

theorem passes_sendWsFrame {data : List UInt8} {opCode : UInt8}
    (h : s.sendWsFrame host data opCode = .ok (s', out)) : Passes s s' out := by
  obtain ⟨rfl, bytes, rfl⟩ := sendWsFrame_quiet h
  exact .quiet rfl rfl (quiet_send bytes)

theorem passes_handleWsClose {data : List UInt8} (h : s.handleWsClose host data = .ok (s', out)) :
    Passes s s' out := by
  rw [handleWsClose] at h
  split at h
  · cases h
    exact passes_refl s
  · next hopen =>
      obtain ⟨⟨t, answer⟩, hanswer, hclose⟩ := bind_eq_ok.mp h
      cases hclose
      obtain ⟨bytes, rfl⟩ : ∃ bytes, answer = [.send bytes] := by
        unfold answerClose at hanswer
        split at hanswer
        · split at hanswer
          · exact (sendWsFrame_quiet hanswer).2
          · exact (sendWsFrame_quiet hanswer).2
        · exact (sendWsFrame_quiet hanswer).2
      exact .closes (Bool.not_eq_true _ ▸ hopen) rfl rfl rfl
        (List.mem_cons_of_mem _ (List.mem_cons_of_mem _ List.mem_cons_self))

theorem passes_runOut {step : Session → List UInt8 → Except Fault (Session × List Output)}
    (hstep : ∀ s data s' out, step s data = .ok (s', out) → Passes s s' out)
    (datas : List (List UInt8)) : ∀ {s s' : Session} {out : List Output},
      Trace.runOut step s datas = .ok (s', out) → Passes s s' out := by
  induction datas with
  | nil =>
      intro s s' out h
      cases h
      exact passes_refl s
  | cons data datas ih =>
      intro s s' out h
      obtain ⟨t, first, rest, hfirst, hrest, rfl⟩ := Trace.runOut_cons_iff.mp h
      exact (hstep s data t first hfirst).trans (ih hrest)

theorem quiet_handleWsData (data : List UInt8) (opCode : UInt8) :
    ∀ o ∈ handleWsData data opCode, o.Quiet := by
  rw [handleWsData]
  split_ifs
  · exact List.forall_mem_singleton.mpr ⟨rfl, fun h => by cases h⟩
  · exact List.forall_mem_singleton.mpr ⟨rfl, fun h => by cases h⟩
  · exact List.forall_mem_nil _

theorem quiet_flatMap (datas : List (List UInt8)) (opCode : UInt8) :
    ∀ o ∈ datas.flatMap (handleWsData · opCode), o.Quiet := by
  intro o ho
  obtain ⟨data, -, hdata⟩ := List.mem_flatMap.mp ho
  exact quiet_handleWsData data opCode o hdata

theorem passes_dispatch {opCode : UInt8} (h : s.dispatch host opCode = .ok (s', out)) :
    Passes s s' out := by
  rw [dispatch] at h
  split_ifs at h
  · exact passes_runOut (fun _ _ _ _ => passes_sendWsFrame) _ h
  · cases h
    exact .quiet rfl rfl (List.forall_mem_nil _)
  · exact passes_runOut (fun _ _ _ _ => passes_handleWsClose) _ h
  · cases h
    exact .quiet rfl rfl (quiet_flatMap _ _)
  · cases h
    exact .quiet rfl rfl (quiet_flatMap _ _)
  · cases h
    exact passes_refl s

theorem passes_noteOpCode (s : Session) (opCode : UInt8) : Passes s (s.noteOpCode opCode) [] := by
  rw [noteOpCode]
  split
  · exact .quiet rfl rfl (List.forall_mem_nil _)
  · exact passes_refl s

theorem passes_handlePayload {fin : Bool} {opCode : UInt8} {payload : List UInt8}
    (h : s.handlePayload host fin opCode payload = .ok (s', out)) : Passes s s' out := by
  have hkept : Passes s { s with recvBuffer := s.recvBuffer ++ [payload] } [] :=
    .quiet rfl rfl (List.forall_mem_nil _)
  rw [handlePayload] at h
  split at h
  · obtain ⟨⟨t, dispatched⟩, hdispatch, hclear⟩ := bind_eq_ok.mp h
    cases hclear
    have hcleared : Passes t { t with recvBuffer := [] } [] :=
      .quiet rfl rfl (List.forall_mem_nil _)
    have hall := (hkept.trans (passes_dispatch hdispatch)).trans hcleared
    rwa [List.nil_append, List.append_nil] at hall
  · cases h
    exact hkept

end Frames

end Session

namespace Receiver

variable {host : Host}

theorem passes_handleParsed {r r' : Receiver} {out : List Output} {go : Bool}
    (h : r.handleParsed host = .ok (r', out, go)) : r.session.Passes r'.session out := by
  have hnoted := Session.passes_noteOpCode r.session r.frame.opcode
  unfold handleParsed at h
  dsimp only at h
  split at h
  · obtain ⟨new, -, h⟩ := bind_eq_ok.mp h
    obtain ⟨item, -, h⟩ := bind_eq_ok.mp h
    obtain ⟨⟨s, handled⟩, hpayload, h⟩ := bind_eq_ok.mp h
    cases h
    have hall := hnoted.trans (Session.passes_handlePayload hpayload)
    rwa [List.nil_append] at hall
  · cases h
    exact hnoted

theorem passes_loop (fuel : Nat) : ∀ {r r' : Receiver} {input : List UInt8} {out : List Output},
    r.loop host fuel input = .ok (r', out) → r.session.Passes r'.session out := by
  induction fuel with
  | zero =>
      intro r r' input out h
      cases h
  | succ fuel ih =>
      intro r r' input out h
      rw [loop] at h
      obtain ⟨⟨frame, ret⟩, -, h⟩ := bind_eq_ok.mp h
      dsimp only at h
      split at h
      · cases h
        exact Session.passes_refl _
      · obtain ⟨⟨r₁, first, go⟩, hparsed, h⟩ := bind_eq_ok.mp h
        have hfirst := passes_handleParsed hparsed
        dsimp only at h
        split at h
        · obtain ⟨⟨r₂, rest⟩, hrest, h⟩ := bind_eq_ok.mp h
          cases h
          exact hfirst.trans (ih hrest)
        · cases h
          exact hfirst

end Receiver

namespace Connection

variable {host : Host} {c c' : Connection} {e : Event} {out : List Output}

/-- The handshake is through and the connection has not come to its end. -/
structure Live (c : Connection) : Prop where
  opened : c.client.Opened
  reading : c.reading = true
  connected : c.client.receiver.session.isConnected = true
  closed : c.client.receiver.session.closed = false

/-- The connection has come to its end. -/
structure Done (c : Connection) : Prop where
  reading : c.reading = false
  connected : c.client.receiver.session.isConnected = false

/-- What the TCP client reads is no more than its buffer takes. -/
def Delivered : Event → Prop
  | .read data => WebSocketClient.Piece data
  | _ => True

/-- What a frame, a ping or the application's writing leaves alone. -/
theorem live_put {call : Except Fault (Session × List Output)} {s' : Session}
    (h : c.Live) (hcall : call = .ok (s', out)) (hclosed : s'.closed = false)
    (hconnected : s'.isConnected = true) (hquiet : ∀ o ∈ out, o.Quiet) :
    ∃ c', c.put call = .ok (c', out) ∧ c'.Live := by
  subst hcall
  refine ⟨_, rfl, ⟨h.opened.ready, h.opened.resp⟩, ?_, hconnected, hclosed⟩
  show (c.reading && decide (Output.close ∉ out)) = true
  rw [h.reading, Bool.true_and]
  exact decide_eq_true fun hmem => (hquiet _ hmem).2 rfl

theorem onTimer_cases (host : Host) {s : Session} (h : s.isConnected = true) :
    ∃ s' out, s.onTimer host = .ok (s', out) ∧ s'.closed = s.closed ∧
      ((s'.isConnected = true ∧ ∀ o ∈ out, o.Quiet) ∨
        (s'.isConnected = false ∧ out.countP Output.isOnClose = 1 ∧ .close ∈ out)) := by
  obtain ⟨⟨t, ping⟩, hping, hclosed, hconnected, hquiet⟩ : ∃ r : Session × List Output,
      { s with readings := s.readings + 1 }.pingWhenDue host (host.nowMs s.readings) = .ok r ∧
      r.1.closed = s.closed ∧ r.1.isConnected = s.isConnected ∧ ∀ o ∈ r.2, o.Quiet := by
    unfold Session.pingWhenDue
    split
    · rw [Session.sendPingFrame, Session.sendWsFrame_eq]
      exact ⟨_, rfl, rfl, rfl, Session.quiet_send _⟩
    · exact ⟨_, rfl, rfl, rfl, List.forall_mem_nil _⟩
  rw [Session.onTimer, if_neg (not_not_intro h)]
  dsimp only [bind, Except.bind]
  rw [hping]
  dsimp only
  split
  · exact ⟨_, _, rfl, hclosed, .inl ⟨hconnected.trans h, hquiet⟩⟩
  · split
    · refine ⟨_, _, rfl, hclosed, .inr ⟨rfl, ?_, List.mem_append_right _ List.mem_cons_self⟩⟩
      rw [List.countP_append, Output.countP_quiet hquiet]
      rfl
    · exact ⟨_, _, rfl, hclosed, .inl ⟨hconnected.trans h, hquiet⟩⟩

/-- A step of a live connection leaves it alive, or is its end and reports it. -/
theorem live_step (h : c.Live) (hdelivered : Delivered e) (hok : c.step host e = .ok (c', out)) :
    (c'.Live ∧ ∀ o ∈ out, o.Quiet) ∨ (c'.Done ∧ out.countP Output.isOnClose = 1) := by
  cases e with
  | read data =>
      rw [step, if_pos h.reading] at hok
      obtain ⟨⟨client, first⟩, hread, hok⟩ := bind_eq_ok.mp hok
      cases hok
      rcases @WebSocketClient.opened_step host _ _ h.opened hdelivered with
        ⟨f, hfail, -⟩ | ⟨client', out', hread', hframes, hopened⟩
      · cases hread.symm.trans hfail
      · cases hread.symm.trans hread'
        cases Receiver.passes_loop _ hframes with
        | quiet hclosed hconnected hquiet =>
            refine .inl
              ⟨⟨hopened, ?_, hconnected.trans h.connected, hclosed.trans h.closed⟩, hquiet⟩
            exact decide_eq_true fun hmem => (hquiet _ hmem).2 rfl
        | closes _ hclosed hconnected honce hshut =>
            exact .inr ⟨⟨decide_eq_false (not_not_intro hshut), hconnected⟩, honce⟩
  | readError =>
      rw [step, if_pos h.reading] at hok
      cases hok
      exact .inr ⟨⟨rfl, rfl⟩, rfl⟩
  | timer =>
      obtain ⟨s', out', htimer, hclosed, hend⟩ := onTimer_cases host h.connected
      rw [step] at hok
      rcases hend with ⟨hconnected, hquiet⟩ | ⟨hconnected, honce, hshut⟩
      · obtain ⟨c₁, hput, hlive⟩ := live_put h htimer (hclosed.trans h.closed) hconnected hquiet
        cases hput.symm.trans hok
        exact .inl ⟨hlive, hquiet⟩
      · rw [htimer] at hok
        cases hok
        refine .inr ⟨⟨?_, hconnected⟩, honce⟩
        show (c.reading && _) = false
        rw [decide_eq_false (not_not_intro hshut), Bool.and_false]
  | asyncWriteText text =>
      have hsend := @Session.sendWsFrame_eq host c.client.receiver.session text wsOpTextType
      obtain ⟨c₁, hput, hlive⟩ := live_put h hsend h.closed h.connected (Session.quiet_send _)
      cases hput.symm.trans hok
      exact .inl ⟨hlive, Session.quiet_send _⟩
  | asyncWriteData data =>
      have hsend := @Session.sendWsFrame_eq host c.client.receiver.session data wsOpBinType
      obtain ⟨c₁, hput, hlive⟩ := live_put h hsend h.closed h.connected (Session.quiet_send _)
      cases hput.symm.trans hok
      exact .inl ⟨hlive, Session.quiet_send _⟩

/-- The frames of some writes, one after the other. -/
def sendWrites (host : Host) (s : Session) (writes : List (List UInt8 × UInt8)) :
    Except Fault (Session × List Output) :=
  Trace.runOut (fun s write => s.sendWsFrame host write.1 write.2) s writes

theorem sendWrites_single (s : Session) (write : List UInt8 × UInt8) :
    sendWrites host s [write] = s.sendWsFrame host write.1 write.2 := by
  rw [sendWrites, Trace.runOut, Session.sendWsFrame_eq]
  rfl

theorem put_done {call : Except Fault (Session × List Output)} {s' : Session} {out' : List Output}
    (h : c.Done) (hcall : call = .ok (s', out)) (hconnected : s'.isConnected = false)
    (hok : c.put call = .ok (c', out')) :
    c'.Done ∧ c'.client.receiver.session = s' ∧ out' = out := by
  subst hcall
  cases hok
  refine ⟨⟨?_, hconnected⟩, rfl, rfl⟩
  show (c.reading && _) = false
  rw [h.reading, Bool.false_and]

/-- Afterwards only what the application writes does anything: its frame is still sent. -/
theorem done_step (h : c.Done) (hok : c.step host e = .ok (c', out)) :
    c'.Done ∧ sendWrites host c.client.receiver.session e.written.toList =
      .ok (c'.client.receiver.session, out) := by
  cases e with
  | read data =>
      rw [step, if_neg (by rw [h.reading]; exact Bool.false_ne_true)] at hok
      cases hok
      exact ⟨h, rfl⟩
  | readError =>
      rw [step, if_neg (by rw [h.reading]; exact Bool.false_ne_true)] at hok
      cases hok
      exact ⟨h, rfl⟩
  | timer =>
      have htimer : c.client.receiver.session.onTimer host =
          .ok (c.client.receiver.session, []) := by
        rw [Session.onTimer, if_pos (by rw [h.connected]; exact Bool.false_ne_true)]
      obtain ⟨hdone, hsession, rfl⟩ := put_done h htimer h.connected hok
      exact ⟨hdone, by rw [hsession]; rfl⟩
  | asyncWriteText text =>
      have hsend := @Session.sendWsFrame_eq host c.client.receiver.session text wsOpTextType
      obtain ⟨hdone, hsession, rfl⟩ := put_done h hsend h.connected hok
      exact ⟨hdone, (sendWrites_single _ _).trans (hsession ▸ hsend)⟩
  | asyncWriteData data =>
      have hsend := @Session.sendWsFrame_eq host c.client.receiver.session data wsOpBinType
      obtain ⟨hdone, hsession, rfl⟩ := put_done h hsend h.connected hok
      exact ⟨hdone, (sendWrites_single _ _).trans (hsession ▸ hsend)⟩

theorem done_run (events : List Event) : ∀ {c c' : Connection} {out : List Output}, c.Done →
    Trace.runOut (step host) c events = .ok (c', out) →
    c'.Done ∧ sendWrites host c.client.receiver.session (events.filterMap Event.written) =
      .ok (c'.client.receiver.session, out) := by
  induction events with
  | nil =>
      intro c c' out h hrun
      cases hrun
      exact ⟨h, rfl⟩
  | cons e events ih =>
      intro c c' out h hrun
      obtain ⟨c₁, first, rest, hstep, hrest, rfl⟩ := Trace.runOut_cons_iff.mp hrun
      obtain ⟨hdone, hfirst⟩ := done_step h hstep
      obtain ⟨hdone', hlater⟩ := ih hdone hrest
      refine ⟨hdone', ?_⟩
      have hwrites : (e :: events).filterMap Event.written =
          e.written.toList ++ events.filterMap Event.written := by
        rw [List.filterMap_cons]
        cases e.written <;> rfl
      rw [hwrites]
      exact Trace.runOut_append hfirst hlater

/-- **A connection is reported closed once**, at its end. Whatever arrives, times out or is
    written, either it is still alive after all of it and nothing has been said of closing,
    or one event was its end and reported it closed once, and what was sent afterwards are the
    frames of what the application wrote, one for each write and no others. -/
theorem closed_once (host : Host) (events : List Event) (hdelivered : ∀ e ∈ events, Delivered e) :
    ∀ {c c' : Connection} {out : List Output}, c.Live →
      Trace.runOut (step host) c events = .ok (c', out) →
      (c'.Live ∧ ∀ o ∈ out, o.Quiet) ∨
      ∃ pre e post out₁ out₂ out₃, events = pre ++ e :: post ∧ out = out₁ ++ out₂ ++ out₃ ∧
        (∃ c₁ c₂, Trace.runOut (step host) c pre = .ok (c₁, out₁) ∧
          c₁.step host e = .ok (c₂, out₂) ∧
          sendWrites host c₂.client.receiver.session (post.filterMap Event.written) =
            .ok (c'.client.receiver.session, out₃)) ∧
        (∀ o ∈ out₁, o.Quiet) ∧ out₂.countP Output.isOnClose = 1 ∧ c'.Done := by
  induction events with
  | nil =>
      intro c c' out h hrun
      cases hrun
      exact .inl ⟨h, List.forall_mem_nil _⟩
  | cons e events ih =>
      intro c c' out h hrun
      obtain ⟨hfirst, hlater⟩ := List.forall_mem_cons.mp hdelivered
      obtain ⟨c₁, out₁, rest, hstep, hrest, rfl⟩ := Trace.runOut_cons_iff.mp hrun
      rcases live_step h hfirst hstep with ⟨hlive, hquiet⟩ | ⟨hdone, honce⟩
      · rcases ih hlater hlive hrest with ⟨hlive', hquiet'⟩ |
          ⟨pre, e', post, out₂, out₃, out₄, rfl, rfl, ⟨c₂, c₃, hpre, hend, hsent⟩, hquiet', honce,
            hdone⟩
        · exact .inl ⟨hlive', List.forall_mem_append.mpr ⟨hquiet, hquiet'⟩⟩
        · refine .inr ⟨e :: pre, e', post, out₁ ++ out₂, out₃, out₄, rfl, ?_,
            ⟨c₂, c₃, ?_, hend, hsent⟩, List.forall_mem_append.mpr ⟨hquiet, hquiet'⟩, honce, hdone⟩
          · rw [List.append_assoc, List.append_assoc, List.append_assoc]
          · exact Trace.runOut_cons_iff.mpr ⟨c₁, out₁, out₂, hstep, hpre, rfl⟩
      · obtain ⟨hdone', hsent⟩ := done_run events hdone hrest
        exact .inr ⟨[], e, events, [], out₁, rest, rfl, rfl, ⟨c, c₁, rfl, hstep, hsent⟩,
          List.forall_mem_nil _, honce, hdone'⟩

/-- A connection just made. -/
def made : Connection :=
  { client := { key := [], httpReady := true, resp := some { headerReady := true }
                receiver := { session := { isConnected := true } } }
    reading := true }

/-- The server closes, the timer fires, the application writes, and the TCP connection breaks
    off: one report. -/
theorem closed_once_three : ∃ c out,
    Trace.runOut (step ⟨fun _ => #v[1, 2, 3, 4], fun _ => 5⟩) made
      [.timer, .read [0x88, 2, 3, 0xe8], .timer, .asyncWriteText [104, 105], .readError] =
        .ok (c, out) ∧
    out.countP Output.isOnClose = 1 ∧ c.Done := by
  have hlive : made.Live :=
    ⟨⟨rfl, _, rfl, rfl, Int.le_refl 0, DataBuffer.holds_make (by decide) (by decide)⟩,
      rfl, rfl, rfl⟩
  obtain ⟨⟨c, out⟩, hrun, honce⟩ : ∃ r, Trace.runOut
      (step ⟨fun _ => #v[1, 2, 3, 4], fun _ => 5⟩) made
      [.timer, .read [0x88, 2, 3, 0xe8], .timer, .asyncWriteText [104, 105], .readError] =
        .ok r ∧
      r.2.countP Output.isOnClose = 1 := WebSocketClient.exists_ok_of_all (by decide +kernel)
  have hdelivered : ∀ e ∈ [Event.timer, .read [0x88, 2, 3, 0xe8], .timer,
      .asyncWriteText [104, 105], .readError], Delivered e := by
    refine List.forall_mem_cons.mpr ⟨trivial, List.forall_mem_cons.mpr ⟨⟨by decide, by decide⟩, ?_⟩⟩
    exact List.forall_mem_cons.mpr ⟨trivial,
      List.forall_mem_cons.mpr ⟨trivial, List.forall_mem_singleton.mpr trivial⟩⟩
  rcases closed_once _ _ hdelivered hlive hrun with
    ⟨-, hquiet⟩ | ⟨_, _, _, _, _, _, -, -, -, -, -, hdone⟩
  · rw [Output.countP_quiet hquiet] at honce
    cases honce
  · exact ⟨c, out, hrun, honce, hdone⟩

end Connection

/-! ## Giving up -/

inductive SessionEvent where
  | frame (f : Frame)
  | timer
  deriving DecidableEq, Repr

namespace Session

variable (host : Host)

def step (s : Session) : SessionEvent → Except Fault (Session × List Output)
  | .frame f => s.frameStep host f
  | .timer => s.onTimer host

def isPong : SessionEvent → Bool
  | .frame f => f.fin && f.opcode == wsOpPongType
  | .timer => false

/-- The session reads the clock, as long as it is connected. -/
def readsClock (e : SessionEvent) : Bool := isPong e || e == .timer

/-- The events at which it does. -/
def clocked (events : List SessionEvent) : List SessionEvent := events.filter readsClock

/-- They, with what the clock says. -/
def stamped (events : List SessionEvent) : List (SessionEvent × Int) :=
  (clocked events).zipIdx.map fun e => (e.1, host.nowMs e.2)

/-- When the server has last been heard: at the last pong, else the first time the clock was
    read. -/
def heardAt (events : List SessionEvent) : Option Int :=
  (((stamped host events).filter fun e => isPong e.1).getLast?.or
    (stamped host events).head?).map Prod.snd

section Heard

variable {host} {s s' : Session} {out : List Output}

/-- The members that have to do with the clock. -/
def Unclocked (s s' : Session) : Prop :=
  s'.readings = s.readings ∧ s'.lastRecvPongMs = s.lastRecvPongMs

theorem Unclocked.trans {t : Session} (h : Unclocked s t) (h' : Unclocked t s') :
    Unclocked s s' := ⟨h'.1.trans h.1, h'.2.trans h.2⟩

theorem unclocked_sendWsFrame {data : List UInt8} {opCode : UInt8}
    (h : s.sendWsFrame host data opCode = .ok (s', out)) : Unclocked s s' := by
  obtain ⟨rfl, -⟩ := sendWsFrame_quiet h
  exact ⟨rfl, rfl⟩

theorem unclocked_handleWsClose {data : List UInt8}
    (h : s.handleWsClose host data = .ok (s', out)) : Unclocked s s' := by
  rw [handleWsClose] at h
  split at h
  · cases h
    exact ⟨rfl, rfl⟩
  · obtain ⟨⟨t, answer⟩, hanswer, hclose⟩ := bind_eq_ok.mp h
    cases hclose
    have hsent : Unclocked s t := by
      unfold answerClose at hanswer
      split at hanswer
      · split at hanswer
        · exact unclocked_sendWsFrame hanswer
        · exact unclocked_sendWsFrame hanswer
      · exact unclocked_sendWsFrame hanswer
    exact hsent

theorem unclocked_runOut {step : Session → List UInt8 → Except Fault (Session × List Output)}
    (hstep : ∀ s data s' out, step s data = .ok (s', out) → Unclocked s s')
    (datas : List (List UInt8)) : ∀ {s s' : Session} {out : List Output},
      Trace.runOut step s datas = .ok (s', out) → Unclocked s s' := by
  induction datas with
  | nil =>
      intro s s' out h
      cases h
      exact ⟨rfl, rfl⟩
  | cons data datas ih =>
      intro s s' out h
      obtain ⟨t, first, rest, hfirst, hrest, -⟩ := Trace.runOut_cons_iff.mp h
      exact (hstep s data t first hfirst).trans (ih hrest)

/-- A frame has the clock read when it is a pong, and only then. -/
theorem dispatch_clock {opCode : UInt8} (h : s.dispatch host opCode = .ok (s', out)) :
    (opCode = wsOpPongType ∧ s'.readings = s.readings + 1 ∧
      s'.lastRecvPongMs = host.nowMs s.readings) ∨ (opCode ≠ wsOpPongType ∧ Unclocked s s') := by
  rw [dispatch] at h
  split_ifs at h with hping hpong hclose hcontinue htext
  · exact .inr ⟨hping ▸ by decide, unclocked_runOut (fun _ _ _ _ => unclocked_sendWsFrame) _ h⟩
  · cases h
    exact .inl ⟨hpong, rfl, rfl⟩
  · exact .inr ⟨hpong, unclocked_runOut (fun _ _ _ _ => unclocked_handleWsClose) _ h⟩
  · cases h
    exact .inr ⟨hpong, rfl, rfl⟩
  · cases h
    exact .inr ⟨hpong, rfl, rfl⟩
  · cases h
    exact .inr ⟨hpong, rfl, rfl⟩

theorem frameStep_clock {f : Frame} (h : s.frameStep host f = .ok (s', out)) :
    (isPong (.frame f) = true ∧ s'.readings = s.readings + 1 ∧
      s'.lastRecvPongMs = host.nowMs s.readings) ∨
    (isPong (.frame f) = false ∧ Unclocked s s') := by
  have hnoted : Unclocked s (s.noteOpCode f.opcode) := by
    rw [noteOpCode]
    split
    · exact ⟨rfl, rfl⟩
    · exact ⟨rfl, rfl⟩
  rw [frameStep, handlePayload] at h
  split at h
  · next hfin =>
      obtain ⟨⟨t, dispatched⟩, hdispatch, hclear⟩ := bind_eq_ok.mp h
      cases hclear
      rcases dispatch_clock hdispatch with ⟨hpong, hreadings, hlast⟩ | ⟨hpong, hsame⟩
      · refine .inl ⟨?_, hreadings.trans (congrArg (· + 1) hnoted.1),
          hlast.trans (congrArg host.nowMs hnoted.1)⟩
        rw [isPong, hfin, hpong]
        rfl
      · refine .inr ⟨?_, hnoted.trans hsame⟩
        rw [isPong, hfin, Bool.true_and]
        exact beq_eq_false_iff_ne.mpr hpong
  · next hmore =>
      cases h
      refine .inr ⟨?_, hnoted⟩
      rw [isPong, eq_false_of_ne_true hmore, Bool.false_and]

theorem stamped_concat (host : Host) {e : SessionEvent} (events : List SessionEvent)
    (h : readsClock e = true) : stamped host (events ++ [e]) =
      stamped host events ++ [(e, host.nowMs (clocked events).length)] := by
  rw [stamped, stamped, clocked, clocked, List.filter_append, List.filter_cons_of_pos h,
    List.filter_nil, List.zipIdx_append, List.map_append, Nat.zero_add]
  rfl

/-- What has been done with the clock, as long as the session is connected. -/
structure Heard (host : Host) (events : List SessionEvent) (s : Session) : Prop where
  readings : s.readings = (clocked events).length
  last : s.lastRecvPongMs = (heardAt host events).getD (-1)
  pos : ∀ t, heardAt host events = some t → 0 < t

theorem length_clocked_concat (events : List SessionEvent) (e : SessionEvent) :
    (clocked (events ++ [e])).length =
      (clocked events).length + if readsClock e = true then 1 else 0 := by
  rw [clocked, clocked, List.filter_append, List.length_append]
  split
  · next h => rw [List.filter_cons_of_pos h, List.filter_nil, List.length_singleton]
  · next h => rw [List.filter_cons_of_neg h, List.filter_nil, List.length_nil]

theorem heard_pong {events : List SessionEvent} {e : SessionEvent} (hpos : ∀ n, 0 < host.nowMs n)
    (h : Heard host events s) (hpong : isPong e = true) (hreadings : s'.readings = s.readings + 1)
    (hlast : s'.lastRecvPongMs = host.nowMs s.readings) : Heard host (events ++ [e]) s' := by
  have hreads : readsClock e = true := by rw [readsClock, hpong, Bool.true_or]
  have hheard : heardAt host (events ++ [e]) = some (host.nowMs (clocked events).length) := by
    rw [heardAt, stamped_concat host events hreads, List.filter_append,
      List.filter_cons_of_pos (by exact hpong), List.filter_nil, List.getLast?_concat,
      Option.some_or]
    rfl
  constructor
  · rw [hreadings, h.readings, length_clocked_concat, if_pos hreads]
  · rw [hheard, hlast, h.readings, Option.getD_some]
  · intro t ht
    cases hheard.symm.trans ht
    exact hpos _

theorem heard_other {events : List SessionEvent} {e : SessionEvent} (h : Heard host events s)
    (hother : readsClock e = false) (hsame : Unclocked s s') :
    Heard host (events ++ [e]) s' := by
  have hclocked : clocked (events ++ [e]) = clocked events := by
    rw [clocked, clocked, List.filter_append,
      List.filter_cons_of_neg (by rw [hother]; exact Bool.false_ne_true), List.filter_nil,
      List.append_nil]
  have hheard : heardAt host (events ++ [e]) = heardAt host events := by
    rw [heardAt, heardAt, stamped, stamped, hclocked]
  exact ⟨by rw [hsame.1, h.readings, hclocked], by rw [hsame.2, h.last, hheard],
    fun t ht => h.pos t (hheard ▸ ht)⟩

theorem heardAt_timer (host : Host) (events : List SessionEvent) :
    heardAt host (events ++ [.timer]) =
      some ((heardAt host events).getD (host.nowMs (clocked events).length)) := by
  have hnotPong : ¬ isPong SessionEvent.timer = true := Bool.false_ne_true
  rw [heardAt, heardAt, stamped_concat host events rfl, List.filter_append,
    List.filter_cons_of_neg (by exact hnotPong), List.filter_nil, List.append_nil,
    List.head?_append]
  cases ((stamped host events).filter fun e => isPong e.1).getLast? with
  | some e => rfl
  | none =>
      rw [Option.none_or, Option.none_or]
      cases (stamped host events).head? <;> rfl

/-- What the timer does with the clock. -/
theorem onTimer_clock (host : Host) {s : Session} (h : s.isConnected = true) :
    ∃ s' out, s.onTimer host = .ok (s', out) ∧ s'.readings = s.readings + 1 ∧
      ((s.lastRecvPongMs ≤ 0 ∧ s'.lastRecvPongMs = host.nowMs s.readings ∧
          s'.isConnected = true) ∨
        (0 < s.lastRecvPongMs ∧ s'.lastRecvPongMs = s.lastRecvPongMs ∧
          (s'.isConnected = false ↔ 15000 < host.nowMs s.readings - s.lastRecvPongMs))) := by
  obtain ⟨⟨t, ping⟩, hping, hreadings, hlast, hconnected⟩ : ∃ r : Session × List Output,
      { s with readings := s.readings + 1 }.pingWhenDue host (host.nowMs s.readings) = .ok r ∧
      r.1.readings = s.readings + 1 ∧ r.1.lastRecvPongMs = s.lastRecvPongMs ∧
      r.1.isConnected = true := by
    unfold pingWhenDue
    split
    · rw [sendPingFrame, sendWsFrame_eq]
      exact ⟨_, rfl, rfl, rfl, h⟩
    · exact ⟨_, rfl, rfl, rfl, h⟩
  rw [onTimer, if_neg (not_not_intro h)]
  dsimp only [bind, Except.bind]
  rw [hping]
  dsimp only at hreadings hlast hconnected ⊢
  split
  · next hfirst => exact ⟨_, _, rfl, hreadings, .inl ⟨hlast ▸ hfirst, rfl, hconnected⟩⟩
  · next hlater =>
      rw [hlast] at hlater
      have hpos : 0 < s.lastRecvPongMs := Int.not_le.mp hlater
      split
      · next hlong =>
          rw [hlast] at hlong
          exact ⟨_, _, rfl, hreadings, .inr ⟨hpos, hlast, iff_of_true rfl hlong⟩⟩
      · next hshort =>
          rw [hlast] at hshort
          refine ⟨_, _, rfl, hreadings, .inr ⟨hpos, hlast, iff_of_false ?_ hshort⟩⟩
          rw [hconnected]
          exact Bool.noConfusion

/-- A session that is not connected stays so. -/
theorem step_disconnected {e : SessionEvent} (h : s.isConnected = false)
    (hok : s.step host e = .ok (s', out)) : s'.isConnected = false := by
  cases e with
  | frame f =>
      cases (passes_noteOpCode s f.opcode).trans (passes_handlePayload hok) with
      | quiet _ hconnected _ => exact hconnected.trans h
      | closes _ _ hconnected _ _ => exact hconnected
  | timer =>
      rw [step, onTimer, if_pos (by rw [h]; exact Bool.false_ne_true)] at hok
      cases hok
      exact h

theorem heard_step (hpos : ∀ n, 0 < host.nowMs n) {events : List SessionEvent} {e : SessionEvent}
    (h : Heard host events s) (hconnected : s.isConnected = true)
    (hok : s.step host e = .ok (s', out)) : Heard host (events ++ [e]) s' := by
  cases e with
  | frame f =>
      rcases frameStep_clock hok with ⟨hpong, hreadings, hlast⟩ | ⟨hother, hsame⟩
      · exact heard_pong hpos h hpong hreadings hlast
      · refine heard_other h ?_ hsame
        rw [readsClock, hother]
        rfl
  | timer =>
      obtain ⟨t, out', htimer, hreadings, hlast⟩ := onTimer_clock host hconnected
      cases htimer.symm.trans hok
      have hheard := heardAt_timer host events
      have hnow := hpos (clocked events).length
      have hnone : heardAt host events = none ↔ s.lastRecvPongMs ≤ 0 := by
        rw [h.last]
        cases hat : heardAt host events with
        | none => exact iff_of_true rfl (by decide)
        | some t =>
            have := h.pos t hat
            refine iff_of_false (fun h => by cases h) ?_
            rw [Option.getD_some]
            omega
      constructor
      · rw [hreadings, h.readings, length_clocked_concat, if_pos (by rfl)]
      · rw [hheard, Option.getD_some]
        rcases hlast with ⟨hfirst, hnew, -⟩ | ⟨hlater, hkept, -⟩
        · rw [hnone.mpr hfirst, hnew, h.readings, Option.getD_none]
        · cases hat : heardAt host events with
          | none => exact absurd (hnone.mp hat) (Int.not_le.mpr hlater)
          | some t => rw [hkept, h.last, hat, Option.getD_some, Option.getD_some]
      · intro t ht
        cases hheard.symm.trans ht
        cases hat : heardAt host events with
        | none => exact hnow
        | some t => exact h.pos t hat

theorem heard_run (hpos : ∀ n, 0 < host.nowMs n) (events : List SessionEvent) :
    ∀ {before : List SessionEvent} {s s' : Session} {out : List Output}, Heard host before s →
      Trace.runOut (step host) s events = .ok (s', out) → s'.isConnected = true →
      Heard host (before ++ events) s' := by
  induction events with
  | nil =>
      intro before s s' out h hrun _
      cases hrun
      rwa [List.append_nil]
  | cons e events ih =>
      intro before s s' out h hrun hconnected
      -- the session has been connected all along
      have hnow : s.isConnected = true := by
        by_contra hnot
        have hlast := Trace.runOut_invariant (P := fun _ => True) (Q := fun _ => True)
          (fun _ _ _ _ hdis _ hok => ⟨step_disconnected hdis hok, fun _ _ => trivial⟩)
          (e :: events) (eq_false_of_ne_true hnot) (fun _ _ => trivial) hrun
        rw [hlast.1] at hconnected
        cases hconnected
      obtain ⟨t, first, rest, hstep, hrest, -⟩ := Trace.runOut_cons_iff.mp hrun
      rw [List.append_cons]
      exact ih (heard_step hpos h hnow hstep) hrest hconnected

end Heard

/-- **The connection is given up** exactly when the server has not been heard for more than
    fifteen seconds: at every call of the timer, after any frames and calls before. -/
theorem given_up_iff (host : Host) (hpos : ∀ n, 0 < host.nowMs n) {events : List SessionEvent}
    {s : Session} {out : List Output}
    (hrun : Trace.runOut (step host) { isConnected := true } events = .ok (s, out))
    (hconnected : s.isConnected = true) :
    ∃ s' out', s.onTimer host = .ok (s', out') ∧ (s'.isConnected = false ↔
      ∃ t, heardAt host events = some t ∧ 15000 < host.nowMs (clocked events).length - t) := by
  have hstart : Heard host [] { isConnected := true } := ⟨rfl, rfl, fun t h => by cases h⟩
  have h := heard_run hpos events hstart hrun hconnected
  rw [List.nil_append] at h
  obtain ⟨s', out', htimer, -, hend⟩ := onTimer_clock host hconnected
  refine ⟨s', out', htimer, ?_⟩
  rw [← h.readings]
  rcases hend with ⟨hfirst, -, hstays⟩ | ⟨hlater, -, hiff⟩
  · rw [hstays]
    refine iff_of_false Bool.noConfusion ?_
    rintro ⟨t, hat, -⟩
    have := h.pos t hat
    rw [h.last, hat, Option.getD_some] at hfirst
    omega
  · rw [hiff, h.last]
    rw [h.last] at hlater
    cases hat : heardAt host events with
    | none =>
        rw [hat, Option.getD_none] at hlater
        exact absurd hlater (by decide)
    | some t =>
        exact ⟨fun hlong => ⟨t, rfl, hlong⟩, fun ⟨_, ht, hlong⟩ => Option.some.inj ht ▸ hlong⟩

/-- With a call of the timer every six seconds and a pong after the second: at twenty-four
    seconds the last pong is twelve seconds ago, at thirty eighteen. -/
theorem given_up_iff_thirty : ∃ s s' out out',
    Trace.runOut (step ⟨fun _ => #v[1, 2, 3, 4], fun n => 6000 * n + 1⟩) { isConnected := true }
      [.timer, .timer, .frame { fin := true, opcode := wsOpPongType, payload := [] }, .timer,
        .timer] = .ok (s, out) ∧
    s.isConnected = true ∧
    s.onTimer ⟨fun _ => #v[1, 2, 3, 4], fun n => 6000 * n + 1⟩ = .ok (s', out') ∧
    s'.isConnected = false := by
  obtain ⟨⟨s, out⟩, hrun, hconnected⟩ : ∃ r, Trace.runOut
      (step ⟨fun _ => #v[1, 2, 3, 4], fun n => 6000 * n + 1⟩) { isConnected := true }
      [.timer, .timer, .frame { fin := true, opcode := wsOpPongType, payload := [] }, .timer,
        .timer] = .ok r ∧ r.1.isConnected = true :=
    WebSocketClient.exists_ok_of_all (by decide +kernel)
  obtain ⟨s', out', htimer, hiff⟩ := given_up_iff ⟨fun _ => #v[1, 2, 3, 4], fun n => 6000 * n + 1⟩
    (fun n => by show (0 : Int) < 6000 * n + 1; omega) hrun hconnected
  exact ⟨s, s', out, out', hrun, hconnected, htimer, hiff.mpr ⟨12001, by decide, by decide⟩⟩

end Session

end Bifrost.Ws
