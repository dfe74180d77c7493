/-
  How often the connect promise is fulfilled.

  Three callbacks fulfil it. `OnClose` looks at `connect_future_ready_` first and
  `OnConnection` at nothing; both set that flag, but `OnTimer`, which looks at
  `is_connected_` only, does not. So a second `set_value` follows whenever a connection or a
  close comes after the timeout, and whenever a connection comes after a close
  (`settlesOnce_iff`).
-/
import Bifrost.Io.WebsocketClient
import Bifrost.Lib.Trace

namespace Bifrost.Io.WebsocketClient

variable {δ : Type}

/-- The callbacks of the network thread: libuv's timer, and those of the vendored client. -/
inductive Callback where
  | timer
  | connection
  | close
  deriving DecidableEq

def step (c : WebsocketClient δ) : Callback → Except FutureError (WebsocketClient δ)
  | .timer => c.onUvTimerCallback
  | .connection => c.onConnection
  | .close => c.onClose

/-- Nothing has been asked of the client yet. -/
structure Fresh (c : WebsocketClient δ) : Prop where
  isConnected : c.isConnected = false
  running : c.running = false
  connectPromise : c.connectPromise = none
  futureRetrieved : c.futureRetrieved = false
  connectFutureReady : c.connectFutureReady = false

/-- The promise is set once at most: no callback of the run throws. -/
def SettlesOnce (c : WebsocketClient δ) (es : List Callback) : Prop :=
  ∃ c', Trace.runE step c es = .ok c'

/-- Orders of callbacks, with a timer that runs or does not. A timeout that comes first
    stays alone, and no connection comes after a close. -/
def Orderly (running : Bool) : List Callback → Prop
  | [] => True
  | .timer :: es => if running then ∀ e ∈ es, e = .timer else Orderly running es
  | .connection :: _ => True
  | .close :: es => .connection ∉ es

/-! ## The states of a connection attempt -/

/-- The promise waits. -/
structure Waiting (c : WebsocketClient δ) : Prop where
  isConnected : c.isConnected = false
  connectPromise : c.connectPromise = none
  connectFutureReady : c.connectFutureReady = false

/-- It is set, `connect_future_ready_` says so, and the timer is off. -/
structure Settled (c : WebsocketClient δ) : Prop where
  connectPromise : c.connectPromise ≠ none
  connectFutureReady : c.connectFutureReady = true
  running : c.running = false

/-- It is set, and `connect_future_ready_` does not say so: what `OnTimer` leaves. -/
structure TimedOut (c : WebsocketClient δ) : Prop where
  connectPromise : c.connectPromise ≠ none
  connectFutureReady : c.connectFutureReady = false
  running : c.running = false

/-! ## What a callback does -/

theorem onUvTimerCallback_eq (c : WebsocketClient δ) : c.onUvTimerCallback =
    if c.running then
      if c.isConnected then .ok { c with running := false }
      else match c.connectPromise with
        | none => .ok { c with running := false, connectPromise := some false }
        | some _ => .error .promiseAlreadySatisfied
    else .ok c := by
  unfold onUvTimerCallback onTimer stopTimer setValue
  dsimp only
  cases hconnected : c.isConnected <;> rfl

theorem onConnection_eq (c : WebsocketClient δ) : c.onConnection =
    match c.connectPromise with
    | none => .ok { c with
        isConnected := true, running := false, connectFutureReady := true,
        connectPromise := some true }
    | some _ => .error .promiseAlreadySatisfied := rfl

theorem onClose_eq (c : WebsocketClient δ) : c.onClose =
    if c.connectFutureReady then .ok { c with isConnected := false, running := false }
    else match c.connectPromise with
      | none => .ok { c with
          isConnected := false, running := false, connectPromise := some false,
          connectFutureReady := true }
      | some _ => .error .promiseAlreadySatisfied := by
  unfold onClose stopTimer setValue
  dsimp only
  cases hready : c.connectFutureReady with
  | true => rfl
  | false => cases hpromise : c.connectPromise <;> rfl

theorem onUvTimerCallback_stopped {c : WebsocketClient δ} (h : c.running = false) :
    c.step .timer = .ok c := by
  show c.onUvTimerCallback = .ok c
  rw [onUvTimerCallback_eq, h, if_neg Bool.false_ne_true]

theorem onConnection_twice {c : WebsocketClient δ} (h : c.connectPromise ≠ none) :
    c.step .connection = .error .promiseAlreadySatisfied := by
  obtain ⟨old, hold⟩ := Option.ne_none_iff_exists'.mp h
  show c.onConnection = _
  rw [onConnection_eq, hold]

theorem Waiting.onConnection {c : WebsocketClient δ} (h : Waiting c) :
    ∃ c', c.step .connection = .ok c' ∧ Settled c' := by
  refine ⟨{ c with
    isConnected := true, running := false, connectFutureReady := true,
    connectPromise := some true }, ?_, by simp, rfl, rfl⟩
  show c.onConnection = _
  rw [onConnection_eq, h.connectPromise]

theorem Waiting.onClose {c : WebsocketClient δ} (h : Waiting c) :
    ∃ c', c.step .close = .ok c' ∧ Settled c' := by
  refine ⟨{ c with
    isConnected := false, running := false, connectPromise := some false,
    connectFutureReady := true }, ?_, by simp, rfl, rfl⟩
  show c.onClose = _
  rw [onClose_eq, h.connectFutureReady, if_neg Bool.false_ne_true, h.connectPromise]

theorem Waiting.onTimer {c : WebsocketClient δ} (h : Waiting c) (hrun : c.running = true) :
    ∃ c', c.step .timer = .ok c' ∧ TimedOut c' := by
  refine ⟨{ c with running := false, connectPromise := some false }, ?_, by simp,
    h.connectFutureReady, rfl⟩
  show c.onUvTimerCallback = _
  rw [onUvTimerCallback_eq, if_pos hrun, h.isConnected, if_neg Bool.false_ne_true,
    h.connectPromise]

theorem Settled.onClose {c : WebsocketClient δ} (h : Settled c) :
    ∃ c', c.step .close = .ok c' ∧ Settled c' := by
  refine ⟨{ c with isConnected := false, running := false }, ?_, h.connectPromise,
    h.connectFutureReady, rfl⟩
  show c.onClose = _
  rw [onClose_eq, if_pos h.connectFutureReady]

theorem TimedOut.onClose {c : WebsocketClient δ} (h : TimedOut c) :
    c.step .close = .error .promiseAlreadySatisfied := by
  obtain ⟨old, hold⟩ := Option.ne_none_iff_exists'.mp h.connectPromise
  show c.onClose = _
  rw [onClose_eq, h.connectFutureReady, if_neg Bool.false_ne_true, hold]

/-! ## Runs -/

theorem settlesOnce_cons {c c' : WebsocketClient δ} {e : Callback} {es : List Callback}
    (hok : c.step e = .ok c') : c.SettlesOnce (e :: es) ↔ c'.SettlesOnce es := by
  unfold SettlesOnce
  rw [Trace.runE, hok]

theorem not_settlesOnce_cons {c : WebsocketClient δ} {e : Callback} {es : List Callback}
    {f : FutureError} (hfail : c.step e = .error f) : ¬ c.SettlesOnce (e :: es) := by
  unfold SettlesOnce
  rw [Trace.runE, hfail]
  rintro ⟨c', hok⟩
  cases hok

/-- Once the promise is set and said to be, only a connection goes wrong. -/
theorem Settled.settles_iff (es : List Callback) : ∀ {c : WebsocketClient δ}, Settled c →
    (c.SettlesOnce es ↔ .connection ∉ es) := by
  induction es with
  | nil => exact fun _ => ⟨fun _ => List.not_mem_nil, fun _ => ⟨_, rfl⟩⟩
  | cons e es ih =>
      intro c h
      cases e with
      | timer =>
          rw [settlesOnce_cons (onUvTimerCallback_stopped h.running), ih h]
          simp
      | connection =>
          exact ⟨fun hs => absurd hs (not_settlesOnce_cons (onConnection_twice h.connectPromise)),
            fun hnot => absurd List.mem_cons_self hnot⟩
      | close =>
          obtain ⟨c', hok, h'⟩ := h.onClose
          rw [settlesOnce_cons hok, ih h']
          simp

/-- After a timeout everything goes wrong. -/
theorem TimedOut.settles_iff (es : List Callback) : ∀ {c : WebsocketClient δ}, TimedOut c →
    (c.SettlesOnce es ↔ ∀ e ∈ es, e = .timer) := by
  induction es with
  | nil => exact fun _ => ⟨fun _ => List.forall_mem_nil _, fun _ => ⟨_, rfl⟩⟩
  | cons e es ih =>
      intro c h
      rw [List.forall_mem_cons]
      cases e with
      | timer =>
          rw [settlesOnce_cons (onUvTimerCallback_stopped h.running), ih h]
          simp
      | connection =>
          exact ⟨fun hs => absurd hs (not_settlesOnce_cons (onConnection_twice h.connectPromise)),
            fun hall => by cases hall.1⟩
      | close =>
          exact ⟨fun hs => absurd hs (not_settlesOnce_cons h.onClose),
            fun hall => by cases hall.1⟩

theorem Waiting.settles_iff (es : List Callback) (hone : es.count .connection ≤ 1) :
    ∀ {c : WebsocketClient δ}, Waiting c → (c.SettlesOnce es ↔ Orderly c.running es) := by
  induction es with
  | nil => exact fun _ => ⟨fun _ => trivial, fun _ => ⟨_, rfl⟩⟩
  | cons e es ih =>
      intro c h
      cases e with
      | timer =>
          unfold Orderly
          cases hrun : c.running with
          | true =>
              obtain ⟨c', hok, h'⟩ := h.onTimer hrun
              rw [settlesOnce_cons hok, h'.settles_iff es, if_pos rfl]
          | false =>
              rw [settlesOnce_cons (onUvTimerCallback_stopped hrun), ih (by simpa using hone) h,
                hrun, if_neg Bool.false_ne_true]
      | connection =>
          obtain ⟨c', hok, h'⟩ := h.onConnection
          have hnone : .connection ∉ es := by
            rw [List.count_cons_self] at hone
            exact List.count_eq_zero.mp (by omega)
          rw [settlesOnce_cons hok, h'.settles_iff es]
          exact ⟨fun _ => trivial, fun _ => hnone⟩
      | close =>
          obtain ⟨c', hok, h'⟩ := h.onClose
          rw [settlesOnce_cons hok, h'.settles_iff es]
          rfl

theorem waiting_connectInvoke {c c' : WebsocketClient δ} {timeoutMs : UInt32} {asked : Bool}
    (h : Fresh c) (hok : c.connectInvoke timeoutMs = .ok (c', asked)) :
    Waiting c' ∧ c'.running = (timeoutMs != 0) := by
  unfold connectInvoke at hok
  dsimp only at hok
  split at hok
  · cases hok
  · obtain ⟨rfl, -⟩ := Prod.mk.inj (Except.ok.inj hok)
    have hrun := h.running
    unfold startTimer setTimeout
    dsimp only
    by_cases hzero : timeoutMs = 0
    · rw [if_pos (Or.inr hzero), hzero]
      exact ⟨⟨h.isConnected, h.connectPromise, h.connectFutureReady⟩, hrun⟩
    · rw [if_neg (by simp [hrun, hzero])]
      exact ⟨⟨h.isConnected, h.connectPromise, h.connectFutureReady⟩,
        (bne_iff_ne.mpr hzero).symm⟩

/-- **The promise is set once exactly in the orderly runs.** -/
theorem settlesOnce_iff {c c' : WebsocketClient δ} {timeoutMs : UInt32} {asked : Bool}
    (h : Fresh c) (hok : c.connectInvoke timeoutMs = .ok (c', asked)) (es : List Callback)
    (hone : es.count .connection ≤ 1) :
    c'.SettlesOnce es ↔ Orderly (timeoutMs != 0) es := by
  obtain ⟨hwait, hrun⟩ := waiting_connectInvoke h hok
  rw [hwait.settles_iff es hone, hrun]

/-- A client as the constructor leaves it. -/
def made : WebsocketClient Nat := {}

theorem fresh_made : Fresh made := ⟨rfl, rfl, rfl, rfl, rfl⟩

/-- The connection comes up just after the timeout, or the attempt is closed then, or it is
    closed and comes up all the same. -/
theorem not_settlesOnce :
    ∃ c' asked, made.connectInvoke 300 = .ok (c', asked) ∧
      ¬ c'.SettlesOnce [.timer, .connection] ∧ ¬ c'.SettlesOnce [.timer, .close] ∧
      ¬ c'.SettlesOnce [.close, .connection] := by
  refine ⟨_, _, rfl, ?_, ?_, ?_⟩ <;> exact fun ⟨_, hok⟩ => by cases hok

theorem settlesOnce_lost_later :
    ∃ c' asked, made.connectInvoke 300 = .ok (c', asked) ∧
      c'.SettlesOnce [.connection, .timer, .close, .close] := by
  obtain ⟨c', asked, hok⟩ : ∃ c' asked, made.connectInvoke 300 = .ok (c', asked) := ⟨_, _, rfl⟩
  exact ⟨c', asked, hok, (settlesOnce_iff fresh_made hok [.connection, .timer, .close, .close]
    (by decide)).mpr trivial⟩

end Bifrost.Io.WebsocketClient
