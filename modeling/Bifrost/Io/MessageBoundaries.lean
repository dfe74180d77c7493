/-
  Messages of the WebSocket at the dispatchers.

  `OnReadData` appends a message to the buffer and hands the whole buffer on, but not when
  the message has 4096 bytes or more: then it hands on nothing and keeps the bytes, and the
  next shorter message is handed on behind them. So each message arrives alone exactly when
  none is that long (`boundariesKept_iff`).
-/
import Bifrost.Io.WebsocketClient
import Bifrost.Lib.Trace
import Mathlib.Data.List.Nodup

namespace Bifrost.Io.WebsocketClient

open Bifrost.Rtc Bifrost.Utils

variable {δ : Type}

/-- The messages one after the other, each in one call with code 0, and all calls of
    `Dispatch` on the way. -/
def receiveAll (c : WebsocketClient δ) (messages : List (List UInt8)) :
    Except Fault (WebsocketClient δ × List (δ × List UInt8)) :=
  Trace.runOut (fun c message => c.onReadData 0 message) c messages

section Run

variable {c c' : WebsocketClient δ} {message : List UInt8}

/-- Between messages: the buffer is empty, and has between 1 and 8192 bytes. -/
structure Idle (c : WebsocketClient δ) : Prop where
  empty : c.memBuf.data = []
  positive : 0 < c.memBuf.bufferSize
  small : c.memBuf.bufferSize ≤ 8192

/-- A message below the threshold arrives alone. -/
theorem onReadData_short (h : Idle c) (hshort : message.length < kHoldBack) :
    ∃ c', c.onReadData 0 message = .ok (c', c.dispatchers.map fun d => (d, message)) ∧
      Idle c' ∧ c'.dispatchers = c.dispatchers := by
  have hlen : message.length < 4096 := hshort
  have hpos := h.positive
  have hsmall := h.small
  obtain ⟨b, hok, hdata, hle, hmax⟩ := MemBuffer.membufAppendData_ok hpos (by omega)
    (show c.memBuf.data.length + message.length ≤ 2 ^ 31 by rw [h.empty, List.length_nil]; omega)
  rw [h.empty, List.nil_append] at hdata
  rw [h.empty, List.length_nil] at hmax
  obtain ⟨hclear, hsize⟩ := b.membufClear_zero
  refine ⟨{ c with memBuf := b.membufClear 0 }, ?_, ⟨hclear, ?_, ?_⟩, rfl⟩
  · unfold onReadData
    rw [if_neg (by decide), bind_eq_ok]
    refine ⟨b, hok, ?_⟩
    rw [if_neg (Nat.not_le.mpr hshort), hdata]
  · show 0 < (b.membufClear 0).bufferSize
    omega
  · show (b.membufClear 0).bufferSize ≤ 8192
    omega

/-- A longer one stays in the buffer. -/
theorem onReadData_long {calls : List (δ × List UInt8)} (hlong : kHoldBack ≤ message.length)
    (hok : c.onReadData 0 message = .ok (c', calls)) : c'.memBuf.data ≠ [] := by
  unfold onReadData at hok
  rw [if_neg (by decide)] at hok
  obtain ⟨b, happend, hok⟩ := bind_eq_ok.mp hok
  rw [if_pos hlong] at hok
  obtain ⟨rfl, -⟩ := Prod.mk.inj (Except.ok.inj hok)
  show b.data ≠ []
  rw [MemBuffer.data_of_membufAppendData happend]
  intro hnil
  have hzero := congrArg List.length (List.append_eq_nil_iff.mp hnil).2
  unfold kHoldBack at hlong
  rw [List.length_nil] at hzero
  omega

/-- When the buffer is empty after a run, the last message was short. -/
theorem short_of_receiveAll (pre : List (List UInt8)) : ∀ {c c' : WebsocketClient δ}
    {calls : List (δ × List UInt8)}, c.receiveAll (pre ++ [message]) = .ok (c', calls) →
    c'.memBuf.data = [] → message.length < kHoldBack := by
  induction pre with
  | nil =>
      intro c c' calls hok hempty
      obtain ⟨c₁, calls₁, rest, hread, hrun, -⟩ := Trace.runOut_cons_iff.mp hok
      cases hrun
      by_contra hlong
      exact onReadData_long (Nat.not_lt.mp hlong) hread hempty
  | cons first pre ih =>
      intro c c' calls hok hempty
      obtain ⟨c₁, calls₁, rest, -, hrun, -⟩ := Trace.runOut_cons_iff.mp hok
      exact ih hrun hempty

end Run

/-! ## What the dispatchers get -/

variable [DecidableEq δ]

/-- What one dispatcher has been called with. -/
def receivedBy (dispatcher : δ) (calls : List (δ × List UInt8)) : List (List UInt8) :=
  (calls.filter fun call => call.1 = dispatcher).map Prod.snd

/-- After every number of messages: each dispatcher has been called with each of them, in
    order, and the buffer is empty. -/
def BoundariesKept (c : WebsocketClient δ) (messages : List (List UInt8)) : Prop :=
  ∀ pre post, messages = pre ++ post → ∃ c' calls, c.receiveAll pre = .ok (c', calls) ∧
    c'.memBuf.data = [] ∧ ∀ dispatcher ∈ c.dispatchers, receivedBy dispatcher calls = pre

theorem receivedBy_append (dispatcher : δ) (xs ys : List (δ × List UInt8)) :
    receivedBy dispatcher (xs ++ ys) = receivedBy dispatcher xs ++ receivedBy dispatcher ys := by
  unfold receivedBy
  rw [List.filter_append, List.map_append]

/-- One call for each dispatcher of a set is one call for any one of them. -/
theorem receivedBy_map {dispatcher : δ} {dispatchers : List δ} (hdistinct : dispatchers.Nodup)
    (hmem : dispatcher ∈ dispatchers) (message : List UInt8) :
    receivedBy dispatcher (dispatchers.map fun d => (d, message)) = [message] := by
  unfold receivedBy
  rw [List.filter_map, List.map_map]
  have hone : dispatchers.filter (fun d => decide (d = dispatcher)) = [dispatcher] := by
    rw [List.filter_eq, List.count_eq_one_of_mem hdistinct hmem]
    rfl
  exact congrArg (List.map fun _ => message) hone

/-- Short messages arrive one by one. -/
theorem receiveAll_short (messages : List (List UInt8)) : ∀ {c : WebsocketClient δ}, Idle c →
    (∀ m ∈ messages, m.length < kHoldBack) →
    ∃ c' calls, c.receiveAll messages = .ok (c', calls) ∧ Idle c' ∧
      ∀ d ∈ c.dispatchers, receivedBy d calls = messages := by
  induction messages with
  | nil => exact fun h _ => ⟨_, [], rfl, h, fun _ _ => rfl⟩
  | cons message messages ih =>
      intro c h hshort
      obtain ⟨hfirst, hrest⟩ := List.forall_mem_cons.mp hshort
      obtain ⟨c₁, hok, h₁, hsame⟩ := onReadData_short h hfirst
      obtain ⟨c₂, calls, hrun, h₂, hreceived⟩ := ih h₁ hrest
      refine ⟨c₂, (c.dispatchers.map fun d => (d, message)) ++ calls,
        Trace.runOut_cons_iff.mpr ⟨_, _, _, hok, hrun, rfl⟩, h₂, fun d hmem => ?_⟩
      rw [receivedBy_append, receivedBy_map c.distinct hmem, hreceived d (hsame ▸ hmem)]
      rfl

/-- **Every message arrives alone exactly when none has 4096 bytes or more**, with any
    dispatchers, from a new buffer on. -/
theorem boundariesKept_iff {c : WebsocketClient δ} (hnew : c.memBuf = .membufInit 128)
    (messages : List (List UInt8)) :
    c.BoundariesKept messages ↔ ∀ m ∈ messages, m.length < kHoldBack := by
  constructor
  · intro h m hmem
    obtain ⟨pre, post, rfl⟩ := List.append_of_mem hmem
    obtain ⟨c', calls, hok, hempty, -⟩ := h (pre ++ [m]) post (by simp)
    exact short_of_receiveAll pre hok hempty
  · rintro hshort pre post rfl
    have hidle : Idle c := by
      refine ⟨?_, ?_, ?_⟩ <;> rw [hnew] <;> decide
    obtain ⟨c', calls, hok, h', hreceived⟩ := receiveAll_short pre hidle
      fun m hmem => hshort m (List.mem_append_left _ hmem)
    exact ⟨c', calls, hok, h'.empty, hreceived⟩

/-- A new client with one dispatcher. -/
def oneDispatcher : WebsocketClient Nat := (({} : WebsocketClient Nat).addDispatcher 7).1

/-- A message of 4096 bytes and one of a single byte. -/
theorem not_boundariesKept :
    oneDispatcher.memBuf = .membufInit 128 ∧
    ¬ oneDispatcher.BoundariesKept [List.replicate 4096 0, [1]] := by
  refine ⟨rfl, fun h => ?_⟩
  obtain ⟨c', calls, hok, hempty, -⟩ := h ([] ++ [List.replicate 4096 0]) [[1]] rfl
  have hshort := short_of_receiveAll [] hok hempty
  rw [List.length_replicate] at hshort
  exact absurd hshort (by decide)

theorem boundariesKept_short : oneDispatcher.BoundariesKept [[1], [2, 3], []] :=
  (boundariesKept_iff rfl _).mpr (by decide)

end Bifrost.Io.WebsocketClient
