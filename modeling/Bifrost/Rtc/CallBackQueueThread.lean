/-
  `RTC::CallBackQueueThread` (`rtc/callback_queue_thread.h`, `rtc/callback_queue_thread.cpp`): the
  thread that takes packets out of the queue and calls the listener, with the two waits of
  `ThreadRtpPacketQueue::Pop`.

  A notification is lost unless the thread is in the wait it is meant for, and `is_disorder_` is
  waited on without a predicate. So a packet that could go on may stay where it is, until the
  timer looks again. In every interleaving with the network thread:

  * What happens is what the critical sections of `Push` and `Pop` do one after the other
    (`serial_run`).
  * Whatever is complete when the timer finds the thread waiting has been handed on when it waits
    again, which takes a bounded number of steps (`heard_by_tick`).
  * The destructor stops the timer and waits for the thread. The network thread may still push
    packets then, which wake it. `joined_iff` says when the destructor returns if none is pushed
    and no wait ends by itself.

  `FindContinuousPacket` of the timer takes no mutex, so that it may read the map while `Pop`
  erases from it. This is left out: it is one access here. `wait_pop_frames_` is counted and never
  read, and is left out with the pauses.
-/
import Bifrost.Rtc.QueueStream

namespace Bifrost.Rtc

/-- Where the thread stands in `TryCallData`. -/
inductive Caller (β : Type) where
  /-- In the loop over `buffers`. -/
  | calling (buffers : List β)
  /-- It has found `running_` set and comes to `Pop`. -/
  | entering
  /-- In `is_empty_.wait`, notified or not. -/
  | waitingEmpty (notified : Bool)
  /-- In `is_disorder_.wait`. -/
  | waitingDisorder (notified : Bool)
  /-- In the loop of `Pop`, with the mutex. -/
  | popping (buffers : List β)
  | returned
  deriving DecidableEq, Repr

namespace Caller

variable {β : Type}

/-- `is_empty_.notify_one()`. -/
def notifyEmpty : Caller β → Caller β
  | .waitingEmpty _ => .waitingEmpty true
  | c => c

/-- `is_disorder_.notify_one()`. -/
def notifyDisorder : Caller β → Caller β
  | .waitingDisorder _ => .waitingDisorder true
  | c => c

/-- The steps from here to a wait, without what the queue has to give. -/
def work : Caller β → Nat
  | .calling buffers => buffers.length + 2
  | .entering => 1
  | .waitingEmpty notified => if notified then 1 else 0
  | .waitingDisorder notified => if notified then 4 else 0
  | .popping buffers => buffers.length + 3
  | .returned => 0

theorem work_notify (c : Caller β) :
    c.notifyEmpty.work ≤ c.work + 4 ∧ c.notifyDisorder.work ≤ c.work + 4 ∧
      c.notifyEmpty.notifyDisorder.work ≤ c.work + 4 := by
  cases c with
  | waitingEmpty notified => cases notified <;> simp [notifyEmpty, notifyDisorder, work]
  | waitingDisorder notified => cases notified <;> simp [notifyEmpty, notifyDisorder, work]
  | _ => exact ⟨Nat.le_add_right _ _, Nat.le_add_right _ _, Nat.le_add_right _ _⟩

end Caller

structure CallBackQueueThread (β : Type) where
  queue : ThreadRtpPacketQueue β := {}
  caller : Caller β := .calling []
  running : Bool := true
  /-- `check_frame_timer_` is started. -/
  checking : Bool := true

namespace CallBackQueueThread

open ThreadRtpPacketQueue

inductive Event (β : Type) where
  /-- `ReceiveRtpPacket`. -/
  | packet (seq : UInt16) (buffer : β)
  /-- `OnTimer`. -/
  | timer
  /-- A wait ends without a notification. -/
  | spurious
  /-- The next step of the thread. -/
  | thread
  /-- The destructor, up to the join. -/
  | destroy
  deriving DecidableEq

variable {β : Type}

/-- `FindContinuousPacket`, which notifies when it finds one. -/
def findContinuous (t : CallBackQueueThread β) : CallBackQueueThread β :=
  if t.queue.findContinuousPacket then { t with caller := t.caller.notifyDisorder } else t

/-- The predicate of `is_empty_.wait`, with the mutex, and on to the next wait. -/
def checkEmpty (t : CallBackQueueThread β) : CallBackQueueThread β :=
  match t.queue.packetMap with
  | [] => { t with caller := .waitingEmpty false }
  | _ :: _ => { t with caller := .waitingDisorder false }

/-- A round of the loop of `Pop`. -/
def popRound (t : CallBackQueueThread β) (buffers : List β) : CallBackQueueThread β :=
  match t.queue.packetMap with
  | [] => { t with caller := .calling buffers }
  | (key, buffer) :: rest =>
    if t.queue.waitePopSeq = key then
      { t with
        queue := { t.queue with packetMap := rest, waitePopSeq := t.queue.waitePopSeq + 1 }
        caller := .popping (buffers ++ [buffer]) }
    else { t with caller := .calling buffers }

/-- What an event does, and what the listener is called with. -/
def step (t : CallBackQueueThread β) : Event β → Except Unit (CallBackQueueThread β × List β)
  | .packet seq buffer =>
    match t.caller with
    | .popping _ => .error ()
    | c =>
      let t := { t with queue := t.queue.push seq buffer, caller := c.notifyEmpty }
      .ok (t.findContinuous, [])
  | .timer => if t.checking then .ok (t.findContinuous, []) else .error ()
  | .spurious =>
    match t.caller with
    | .waitingEmpty _ => .ok ({ t with caller := .waitingEmpty true }, [])
    | .waitingDisorder _ => .ok ({ t with caller := .waitingDisorder true }, [])
    | _ => .error ()
  | .thread =>
    match t.caller with
    | .calling (buffer :: buffers) => .ok ({ t with caller := .calling buffers }, [buffer])
    | .calling [] => .ok ({ t with caller := if t.running then .entering else .returned }, [])
    | .entering => .ok (t.checkEmpty, [])
    | .waitingEmpty true => .ok (t.checkEmpty, [])
    | .waitingDisorder true => .ok ({ t with caller := .popping [] }, [])
    | .popping buffers => .ok (t.popRound buffers, [])
    | _ => .error ()
  | .destroy => .ok ({ t with running := false, checking := false }, [])

/-- The packet that an event brings. -/
def Event.packets : Event β → List (UInt16 × β)
  | .packet seq buffer => [(seq, buffer)]
  | _ => []

/-- The thread is in a wait and has not been notified. -/
def Blocked (t : CallBackQueueThread β) : Prop :=
  t.caller = .waitingEmpty false ∨ t.caller = .waitingDisorder false

variable {t t' : CallBackQueueThread β} {e : Event β} {out : List β}

/-- What a step can be. -/
inductive Moves (t : CallBackQueueThread β) : Event β → CallBackQueueThread β → List β → Prop
  | packet {seq : UInt16} {buffer : β} (h : ∀ buffers, t.caller ≠ .popping buffers) :
      t.Moves (.packet seq buffer) ({ t with
        queue := t.queue.push seq buffer
        caller := t.caller.notifyEmpty }.findContinuous) []
  | timer (h : t.checking = true) : t.Moves .timer t.findContinuous []
  | spuriousEmpty {n : Bool} (h : t.caller = .waitingEmpty n) :
      t.Moves .spurious { t with caller := .waitingEmpty true } []
  | spuriousDisorder {n : Bool} (h : t.caller = .waitingDisorder n) :
      t.Moves .spurious { t with caller := .waitingDisorder true } []
  | call {buffer : β} {buffers : List β} (h : t.caller = .calling (buffer :: buffers)) :
      t.Moves .thread { t with caller := .calling buffers } [buffer]
  | loop (h : t.caller = .calling []) :
      t.Moves .thread { t with caller := if t.running then .entering else .returned } []
  | check (h : t.caller = .entering ∨ t.caller = .waitingEmpty true) :
      t.Moves .thread t.checkEmpty []
  | take (h : t.caller = .waitingDisorder true) :
      t.Moves .thread { t with caller := .popping [] } []
  | popRound {buffers : List β} (h : t.caller = .popping buffers) :
      t.Moves .thread (t.popRound buffers) []
  | destroy : t.Moves .destroy { t with running := false, checking := false } []

theorem moves_of_step (hok : t.step e = .ok (t', out)) : t.Moves e t' out := by
  cases e with
  | packet seq buffer =>
      rw [step] at hok
      split at hok
      · cases hok
      · next c hc =>
          cases hok
          exact .packet hc
  | timer =>
      rw [step] at hok
      split at hok
      · next h =>
          cases hok
          exact .timer h
      · cases hok
  | spurious =>
      rw [step] at hok
      split at hok
      · next h =>
          cases hok
          exact .spuriousEmpty h
      · next h =>
          cases hok
          exact .spuriousDisorder h
      · cases hok
  | thread =>
      rw [step] at hok
      split at hok
      · next h =>
          cases hok
          exact .call h
      · next h =>
          cases hok
          exact .loop h
      · next h =>
          cases hok
          exact .check (.inl h)
      · next h =>
          cases hok
          exact .check (.inr h)
      · next h =>
          cases hok
          exact .take h
      · next h =>
          cases hok
          exact .popRound h
      · cases hok
  | destroy =>
      cases hok
      exact .destroy

/-! ## The critical sections, one after the other -/

end CallBackQueueThread

namespace ThreadRtpPacketQueue

variable {β : Type} {q : ThreadRtpPacketQueue β}

theorem pop_of_not_continuous (h : q.findContinuousPacket = false) : q.pop = (q, []) := by
  unfold pop
  cases hm : q.packetMap with
  | nil =>
      show ({ q with waitePopSeq := q.waitePopSeq, packetMap := [] }, ([] : List β)) = _
      rw [← hm]
  | cons e rest =>
      obtain ⟨key, buffer⟩ := e
      have hne : q.waitePopSeq ≠ key := by
        rintro heq
        rw [findContinuousPacket, hm] at h
        simp [heq] at h
      rw [popLoop, if_neg hne]
      dsimp only
      rw [← hm]

theorem pop_of_continuous {key : UInt32} {buffer : β} {rest : List (UInt32 × β)}
    (hm : q.packetMap = (key, buffer) :: rest) (hw : q.waitePopSeq = key) :
    q.pop = (({ q with packetMap := rest, waitePopSeq := q.waitePopSeq + 1 }).pop.1,
      buffer :: ({ q with packetMap := rest, waitePopSeq := q.waitePopSeq + 1 }).pop.2) := by
  unfold pop
  rw [hm, popLoop, if_pos hw]

/-- The packets that the calls push. -/
def Call.packets : Call β → List (UInt16 × β)
  | .push seq buffer => [(seq, buffer)]
  | .pop => []

end ThreadRtpPacketQueue

namespace CallBackQueueThread

open ThreadRtpPacketQueue

variable {β : Type} {t t' : CallBackQueueThread β} {e : Event β} {out : List β}

/-- The queue as the `Pop` that is under way will leave it. -/
def settled (t : CallBackQueueThread β) : ThreadRtpPacketQueue β :=
  match t.caller with
  | .popping _ => t.queue.pop.1
  | _ => t.queue

/-- What `Pop` has taken out, or is going to, and the listener has not been called with. -/
def held (t : CallBackQueueThread β) : List β :=
  match t.caller with
  | .calling buffers => buffers
  | .popping buffers => buffers ++ t.queue.pop.2
  | _ => []

theorem findContinuous_queue (t : CallBackQueueThread β) : t.findContinuous.queue = t.queue := by
  unfold findContinuous
  split <;> rfl

theorem settled_findContinuous (t : CallBackQueueThread β) :
    t.findContinuous.settled = t.settled := by
  unfold findContinuous
  split
  · cases h : t.caller <;> simp [settled, h, Caller.notifyDisorder]
  · rfl

theorem held_findContinuous (t : CallBackQueueThread β) : t.findContinuous.held = t.held := by
  unfold findContinuous
  split
  · cases h : t.caller <;> simp [held, h, Caller.notifyDisorder]
  · rfl

/-- A round of the loop neither adds to what the loop takes out nor loses any of it. -/
theorem popRound_eq {buffers : List β} (h : t.caller = .popping buffers) :
    (t.popRound buffers).settled = t.settled ∧ (t.popRound buffers).held = t.held := by
  unfold popRound
  have hnone : t.queue.findContinuousPacket = false →
      ({ t with caller := .calling buffers } : CallBackQueueThread β).settled = t.settled ∧
      ({ t with caller := .calling buffers } : CallBackQueueThread β).held = t.held := by
    intro hnot
    have hpop := pop_of_not_continuous hnot
    simp [settled, held, h, hpop]
  split
  · next hm =>
      refine hnone ?_
      rw [findContinuousPacket, hm]
  · next key buffer rest hm =>
      split
      · next hw =>
          have hpop := pop_of_continuous hm hw
          simp [settled, held, h, hpop]
      · next hw =>
          refine hnone ?_
          rw [findContinuousPacket, hm]
          simpa using fun heq => hw heq.symm

/-- A step is a critical section or none, with the same effect. A thread that has been notified
    takes what there is. -/
theorem serial_step (hok : t.step e = .ok (t', out)) :
    ∃ calls : List (Call β), calls.flatMap Call.packets = e.packets ∧
      Trace.run ThreadRtpPacketQueue.step t.settled calls = t'.settled ∧
      t.held ++ Trace.outputs ThreadRtpPacketQueue.step t.settled calls = out ++ t'.held ∧
      (t.caller = .waitingDisorder true → t'.caller = .waitingDisorder true ∨ .pop ∈ calls) := by
  have hnone : e.packets = [] → t.settled = t'.settled → t.held = out ++ t'.held →
      (t.caller = .waitingDisorder true → t'.caller = .waitingDisorder true) →
      ∃ calls : List (Call β), calls.flatMap Call.packets = e.packets ∧
        Trace.run ThreadRtpPacketQueue.step t.settled calls = t'.settled ∧
        t.held ++ Trace.outputs ThreadRtpPacketQueue.step t.settled calls = out ++ t'.held ∧
        (t.caller = .waitingDisorder true → t'.caller = .waitingDisorder true ∨ .pop ∈ calls) :=
    fun hp hs hh hw => ⟨[], hp.symm, hs, by rw [← hh]; exact List.append_nil _,
      fun h => .inl (hw h)⟩
  cases moves_of_step hok with
  | @packet seq buffer h =>
      refine ⟨[.push seq buffer], rfl, ?_, ?_, ?_⟩
      · rw [settled_findContinuous]
        cases hc : t.caller with
        | popping buffers => exact absurd hc (h buffers)
        | _ =>
            simp only [settled, hc, Caller.notifyEmpty]
            rfl
      · rw [held_findContinuous]
        cases hc : t.caller with
        | popping buffers => exact absurd hc (h buffers)
        | _ =>
            simp only [settled, held, hc, Caller.notifyEmpty]
            simp [ThreadRtpPacketQueue.step]
      · intro hw
        left
        unfold findContinuous
        split <;> simp [hw, Caller.notifyEmpty, Caller.notifyDisorder]
  | timer h =>
      refine hnone rfl (settled_findContinuous t).symm (held_findContinuous t).symm fun hw => ?_
      unfold findContinuous
      split
      · simp [hw, Caller.notifyDisorder]
      · exact hw
  | spuriousEmpty h => exact hnone rfl (by simp [settled, h]) (by simp [held, h]) (by simp [h])
  | spuriousDisorder h => exact hnone rfl (by simp [settled, h]) (by simp [held, h]) (by simp)
  | call h => exact hnone rfl (by simp [settled, h]) (by simp [held, h]) (by simp [h])
  | loop h =>
      refine hnone rfl ?_ ?_ (by simp [h])
      · cases hr : t.running <;> simp [settled, h]
      · cases hr : t.running <;> simp [held, h]
  | check h =>
      have hc : t.checkEmpty.settled = t.queue ∧ t.checkEmpty.held = [] := by
        unfold checkEmpty
        split <;> exact ⟨rfl, rfl⟩
      refine hnone rfl ?_ ?_ ?_
      · rw [hc.1]
        rcases h with h | h <;> simp [settled, h]
      · rw [hc.2]
        rcases h with h | h <;> simp [held, h]
      · rcases h with h | h <;> simp [h]
  | take h =>
      refine ⟨[.pop], rfl, ?_, ?_, fun _ => .inr (List.mem_singleton.mpr rfl)⟩
      · simp only [settled, h]
        rfl
      · simp [settled, held, h, ThreadRtpPacketQueue.step]
  | popRound h =>
      obtain ⟨hs, hh⟩ := popRound_eq h
      exact hnone rfl hs.symm hh.symm (by simp [h])
  | destroy => exact hnone rfl rfl rfl id

theorem serial_run (es : List (Event β)) : ∀ {t t' : CallBackQueueThread β} {out : List β},
    Trace.runOut step t es = .ok (t', out) →
    ∃ calls : List (Call β), calls.flatMap Call.packets = es.flatMap Event.packets ∧
      Trace.run ThreadRtpPacketQueue.step t.settled calls = t'.settled ∧
      t.held ++ Trace.outputs ThreadRtpPacketQueue.step t.settled calls = out ++ t'.held ∧
      (t.caller = .waitingDisorder true → t'.caller = .waitingDisorder true ∨ .pop ∈ calls) := by
  induction es with
  | nil =>
      intro t t' out hrun
      cases hrun
      exact ⟨[], rfl, rfl, List.append_nil _, .inl⟩
  | cons e es ih =>
      intro t t' out hrun
      obtain ⟨m, first, rest, hok, hrest, rfl⟩ := Trace.runOut_cons_iff.mp hrun
      obtain ⟨calls, hpackets, hstate, hout, htaken⟩ := serial_step hok
      obtain ⟨calls', hpackets', hstate', hout', htaken'⟩ := ih hrest
      refine ⟨calls ++ calls', ?_, ?_, ?_, fun hw => ?_⟩
      · rw [List.flatMap_append, hpackets, hpackets', List.flatMap_cons]
      · rw [Trace.run_append, hstate, hstate']
      · rw [Trace.outputs_append, ← List.append_assoc, hout, hstate, List.append_assoc, hout',
          List.append_assoc]
      · rcases htaken hw with hm | hmem
        · rcases htaken' hm with ht | hmem
          · exact .inl ht
          · exact .inr (List.mem_append_right _ hmem)
        · exact .inr (List.mem_append_left _ hmem)

/-! ## How long the thread is busy -/

/-- The steps that the thread has at most before it waits, if nothing else happens. -/
def work (t : CallBackQueueThread β) : Nat := 2 * t.queue.packetMap.length + t.caller.work

/-- The step is one of the thread. -/
def Event.own : Event β → Bool
  | .thread => true
  | _ => false

/-- The others' steps. -/
def Event.foreign (e : Event β) : List (Event β) := [e].filter fun e => !e.own

theorem flatMap_foreign (es : List (Event β)) :
    es.flatMap Event.foreign = es.filter fun e => !e.own := by
  induction es with
  | nil => rfl
  | cons e es ih =>
      rw [List.flatMap_cons, ih, Event.foreign, ← List.filter_append]
      rfl

/-- Each step of the thread leaves it less to do, and each other one six steps more at most. -/
theorem work_step (hok : t.step e = .ok (t', out)) :
    t'.work + 1 ≤ t.work + 7 * e.foreign.length := by
  obtain ⟨hempty, hdisorder, hboth⟩ := t.caller.work_notify
  have hother : e.own = false → t'.queue.packetMap.length ≤ t.queue.packetMap.length + 1 →
      t'.caller.work ≤ t.caller.work + 4 → t'.work + 1 ≤ t.work + 7 * e.foreign.length := by
    intro hown hlen hwork
    have hforeign : e.foreign.length = 1 := by rw [Event.foreign, List.filter_singleton, hown]; rfl
    rw [work, work, hforeign]
    omega
  cases moves_of_step hok with
  | @packet seq buffer h =>
      refine hother rfl ?_ ?_
      · rw [findContinuous_queue]
        show (t.queue.push seq buffer).packetMap.length ≤ _
        rw [ThreadRtpPacketQueue.push_packetMap]
        exact OrderedMap.length_emplace_le _ _ _ _
      · unfold findContinuous
        split
        · exact hboth
        · exact hempty
  | timer h =>
      refine hother rfl ?_ ?_
      · rw [findContinuous_queue]
        exact Nat.le_succ _
      · unfold findContinuous
        split
        · exact hdisorder
        · exact Nat.le_add_right _ _
  | spuriousEmpty h =>
      refine hother rfl (Nat.le_succ _) ?_
      show 1 ≤ _
      omega
  | spuriousDisorder h => exact hother rfl (Nat.le_succ _) (Nat.le_add_left _ _)
  | @call buffer buffers h =>
      have hwork : t.work = 2 * t.queue.packetMap.length + (buffers.length + 1 + 2) := by
        rw [work, h]
        rfl
      have hcalled : ({ t with caller := .calling buffers } : CallBackQueueThread β).work =
          2 * t.queue.packetMap.length + (buffers.length + 2) := rfl
      omega
  | loop h =>
      have hwork : t.work = 2 * t.queue.packetMap.length + 2 := by
        rw [work, h]
        rfl
      have hnext :
          (if t.running then Caller.entering else Caller.returned : Caller β).work ≤ 1 := by
        split
        · exact Nat.le_refl _
        · exact Nat.zero_le _
      have hloop : ({ t with
          caller := if t.running then .entering else .returned } : CallBackQueueThread β).work ≤
          2 * t.queue.packetMap.length + 1 := Nat.add_le_add_left hnext _
      omega
  | check h =>
      have hwork : t.work = 2 * t.queue.packetMap.length + 1 := by
        rcases h with h | h <;> rw [work, h] <;> rfl
      have hchecked : t.checkEmpty.work = 2 * t.queue.packetMap.length := by
        unfold checkEmpty
        split <;> rfl
      omega
  | take h =>
      have hwork : t.work = 2 * t.queue.packetMap.length + 4 := by
        rw [work, h]
        rfl
      have htaken : ({ t with caller := .popping [] } : CallBackQueueThread β).work =
          2 * t.queue.packetMap.length + 3 := rfl
      omega
  | @popRound buffers h =>
      have hwork : t.work = 2 * t.queue.packetMap.length + (buffers.length + 3) := by
        rw [work, h]
        rfl
      have hdone : ({ t with caller := .calling buffers } : CallBackQueueThread β).work =
          2 * t.queue.packetMap.length + (buffers.length + 2) := rfl
      unfold popRound
      split
      · omega
      · next key buffer rest hm =>
          split
          · have hpopped : ({ t with
                queue := { t.queue with
                  packetMap := rest, waitePopSeq := t.queue.waitePopSeq + 1 }
                caller := .popping (buffers ++ [buffer]) } : CallBackQueueThread β).work =
                2 * rest.length + (buffers.length + 1 + 3) := by
              rw [work, Caller.work, List.length_append]
              rfl
            rw [hm, List.length_cons] at hwork
            omega
          · omega
  | destroy => exact hother rfl (Nat.le_succ _) (Nat.le_add_right _ _)

/-- In a run of the thread and others the thread has a bounded number of steps for each other
    one. -/
theorem own_le {es : List (Event β)} (hrun : Trace.runOut step t es = .ok (t', out)) :
    es.countP Event.own ≤ t.work + 6 * es.countP (fun e => !e.own) := by
  have hlen := Trace.runOut_length_le work Event.foreign 7 (fun _ _ _ _ => work_step) es hrun
  rw [flatMap_foreign, ← List.countP_eq_length_filter] at hlen
  have hsplit := List.length_eq_countP_add_countP Event.own (l := es)
  have hother : es.countP (fun e => ¬ Event.own e = true) = es.countP fun e => !e.own := by
    refine List.countP_congr fun e _ => ?_
    cases e.own <;> decide
  rw [hother] at hsplit
  omega

/-! ## A stream -/

/-- The packets of a stream as they come, with their numbers. -/
def streamPackets (payload : Nat → β) (order : List Nat) : List (UInt16 × β) :=
  order.map fun i => (UInt16.ofNat i, payload i)

/-- Calls that push packets of a stream are calls of that stream. -/
theorem exists_streamCalls {payload : Nat → β} (calls : List (Call β)) : ∀ {order : List Nat},
    calls.flatMap Call.packets = streamPackets payload order →
    ∃ sc : List StreamCall, sc.map (StreamCall.toCall payload) = calls ∧ arrivals sc = order := by
  induction calls with
  | nil =>
      intro order h
      exact ⟨[], rfl, (List.map_eq_nil_iff.mp h.symm).symm⟩
  | cons call calls ih =>
      intro order h
      cases call with
      | push seq buffer =>
          cases order with
          | nil => cases h
          | cons i order =>
              obtain ⟨hfirst, hrest⟩ := List.cons_eq_cons.mp h
              cases hfirst
              obtain ⟨sc, hcalls, harrivals⟩ := ih hrest
              refine ⟨.packet i :: sc, ?_, ?_⟩
              · rw [List.map_cons, hcalls]
                rfl
              · rw [arrivals, harrivals]
      | pop =>
          obtain ⟨sc, hcalls, harrivals⟩ := ih h
          refine ⟨.pop :: sc, ?_, harrivals⟩
          rw [List.map_cons, hcalls]
          rfl

theorem waitingEmpty_of_findContinuous {notified : Bool}
    (h : t.findContinuous.caller = .waitingEmpty notified) : t.caller = .waitingEmpty notified := by
  unfold findContinuous at h
  split at h
  · cases hc : t.caller with
    | waitingDisorder n =>
        rw [hc] at h
        cases h
    | _ =>
        rw [hc] at h
        exact h
  · exact h

/-- A thread that waits for the map to fill, and has not been notified, waits for an empty one. -/
theorem empty_step (h : t.caller = .waitingEmpty false → t.queue.packetMap = [])
    (hok : t.step e = .ok (t', out)) (hw : t'.caller = .waitingEmpty false) :
    t'.queue.packetMap = [] := by
  cases moves_of_step hok with
  | packet hc =>
      have hnotified := waitingEmpty_of_findContinuous hw
      dsimp only at hnotified
      cases hcaller : t.caller with
      | _ =>
          rw [hcaller] at hnotified
          cases hnotified
  | timer hc =>
      rw [findContinuous_queue]
      exact h (waitingEmpty_of_findContinuous hw)
  | spuriousEmpty hc => cases hw
  | spuriousDisorder hc => cases hw
  | call hc => cases hw
  | loop hc =>
      dsimp only at hw
      split at hw <;> cases hw
  | check hc =>
      unfold checkEmpty at hw ⊢
      split
      · next hm => exact hm
      · next hm =>
          rw [hm] at hw
          cases hw
  | take hc => cases hw
  | popRound hc =>
      unfold popRound at hw
      split at hw
      · cases hw
      · split at hw <;> cases hw
  | destroy => exact h hw

theorem Blocked.done (h : t.Blocked) :
    t.settled = t.queue ∧ t.held = [] ∧ t.work = 2 * t.queue.packetMap.length := by
  rcases h with h | h
  · exact ⟨by rw [settled, h], by rw [held, h], by rw [work, h]; rfl⟩
  · exact ⟨by rw [settled, h], by rw [held, h], by rw [work, h]; rfl⟩

section Stream

variable {payload : Nat → β}

theorem delivered_append (payload : Nat → β) (xs ys : List StreamCall) :
    delivered payload (xs ++ ys) = delivered payload xs ++
      Trace.outputs ThreadRtpPacketQueue.step (after payload xs)
        (ys.map (StreamCall.toCall payload)) := by
  rw [delivered, List.map_append, Trace.outputs_append]
  rfl

/-- A thread that the timer finds waiting, and that waits again later, has made a `Pop` since
    then, or one would have given nothing. -/
theorem pop_since {calls : List (Call β)}
    (hempty : t.caller = .waitingEmpty false → t.queue.packetMap = [])
    (htaken : t.findContinuous.caller = .waitingDisorder true →
      t'.caller = .waitingDisorder true ∨ .pop ∈ calls)
    (hblocked : t.Blocked) (hblocked' : t'.Blocked) :
    t.queue.pop.2 = [] ∨ .pop ∈ calls := by
  cases hfind : t.queue.findContinuousPacket with
  | false =>
      rw [pop_of_not_continuous hfind]
      exact .inl rfl
  | true =>
      rcases hblocked with hc | hc
      · rw [findContinuousPacket, hempty hc] at hfind
        cases hfind
      · right
        have hnotified : t.findContinuous.caller = .waitingDisorder true := by
          rw [findContinuous, if_pos hfind, hc]
          rfl
        rcases htaken hnotified with hc' | hmem
        · rcases hblocked' with hw | hw <;> rw [hc'] at hw <;> cases hw
        · exact hmem

/-- What a stream has given by any `Pop` so far reaches to the first packet that had not come by
    then. -/
theorem complete_of_prefix {n k : Nat} (hn : n < 2 ^ 32) {calls : List StreamCall} {out : List β}
    (hnear : Nearby n (arrivals calls)) (hnd : (arrivals calls).Nodup)
    (hpop : delivered payload (calls ++ [.pop]) <+: out) (hout : out.length = k) {m : Nat}
    (hm : ∀ i ≤ m, i ∈ arrivals calls) : m < k := by
  obtain ⟨k₀, hk₀, -, hmissing⟩ := stream_complete payload hn hnear hnd
  have hlen := hpop.length_le
  rw [hk₀, List.length_map, List.length_range, hout] at hlen
  by_contra hle
  exact hmissing (hm k₀ (by omega))

/-- **The timer makes up for what was not heard.** Where it finds the thread waiting, and the
    thread waits again later, the listener has been called with the whole stream up to the first
    packet that had not come by the timer, and with nothing out of order or twice; and that takes
    the thread a bounded number of steps. -/
theorem heard_by_tick {n : Nat} {pre post : List (Event β)} {order later : List Nat}
    {heard heard' : List β}
    (hpre : Trace.runOut step {} pre = .ok (t, heard))
    (hpost : Trace.runOut step t (.timer :: post) = .ok (t', heard'))
    (horder : pre.flatMap Event.packets = streamPackets payload order)
    (hlater : post.flatMap Event.packets = streamPackets payload later)
    (hn : n < 2 ^ 32) (hnear : Nearby n (order ++ later)) (hnd : (order ++ later).Nodup)
    (hblocked : t.Blocked) (hblocked' : t'.Blocked) :
    ∃ k, heard ++ heard' = (List.range k).map payload ∧ (∀ i < k, i ∈ order ++ later) ∧
      (∀ m, (∀ i ≤ m, i ∈ order) → m < k) ∧
      post.countP Event.own ≤
        2 * t.queue.packetMap.length + 6 * (post.countP (fun e => !e.own) + 1) := by
  obtain ⟨hsettled, hheld, hwork⟩ := hblocked.done
  -- the run as calls of a stream, up to the timer and since
  obtain ⟨calls₁, hpackets₁, hstate₁, hout₁, -⟩ := serial_run pre hpre
  obtain ⟨s₁, rfl, harr₁⟩ := exists_streamCalls calls₁ (hpackets₁.trans horder)
  obtain ⟨m, first, rest, hok, hrest, rfl⟩ := Trace.runOut_cons_iff.mp hpost
  cases moves_of_step hok with
  | timer hchecking =>
  obtain ⟨calls₂, hpackets₂, -, hout₂, htaken⟩ := serial_run post hrest
  obtain ⟨s₂, rfl, harr₂⟩ := exists_streamCalls calls₂ (hpackets₂.trans hlater)
  have hafter : after payload s₁ = t.queue := hstate₁.trans hsettled
  have hheard : delivered payload s₁ = heard := by
    rw [hheld, List.append_nil] at hout₁
    exact hout₁
  have harr : arrivals (s₁ ++ s₂) = order ++ later := by rw [arrivals_append, harr₁, harr₂]
  have hall : delivered payload (s₁ ++ s₂) = heard ++ rest := by
    rw [held_findContinuous, settled_findContinuous, hsettled, hheld, hblocked'.done.2.1,
      List.append_nil, List.nil_append] at hout₂
    rw [delivered_append, hheard, hafter, hout₂]
  rw [← harr] at hnear hnd
  obtain ⟨k, hk, hcame⟩ := stream_delivered payload hn hnear
  rw [harr] at hcame
  refine ⟨k, hall ▸ hk, hcame, fun last hlast => ?_, ?_⟩
  · have hempty := (Trace.runOut_invariant
      (I := fun t => t.caller = .waitingEmpty false → t.queue.packetMap = [])
      (P := fun _ => True) (Q := fun _ => True)
      (fun _ _ _ _ h _ hok => ⟨empty_step h hok, fun _ _ => trivial⟩) pre
      (fun h => by cases h) (fun _ _ => trivial) hpre).1
    have hlen : (heard ++ rest).length = k := by
      rw [← hall, hk, List.length_map, List.length_range]
    rcases pop_since hempty htaken hblocked hblocked' with hnone | hmem
    · have hprefix : delivered payload (s₁ ++ [.pop]) <+: heard ++ rest := by
        rw [delivered_append, hheard, hafter]
        show heard ++ (t.queue.pop.2 ++ []) <+: _
        rw [hnone]
        exact List.prefix_append_right_inj heard |>.mpr List.nil_prefix
      rw [arrivals_append] at hnear hnd
      exact complete_of_prefix hn hnear.left (List.nodup_append.mp hnd).1 hprefix hlen
        fun i hi => harr₁ ▸ hlast i hi
    · obtain ⟨call, hcall, heq⟩ := List.mem_map.mp hmem
      cases call with
      | packet i => cases heq
      | pop =>
          obtain ⟨before, behind, rfl⟩ := List.append_of_mem hcall
          have hsplit : s₁ ++ (before ++ .pop :: behind) = s₁ ++ before ++ [.pop] ++ behind := by
            simp
          have hprefix : delivered payload (s₁ ++ before ++ [.pop]) <+: heard ++ rest := by
            rw [← hall, hsplit, delivered_append payload (s₁ ++ before ++ [StreamCall.pop])]
            exact List.prefix_append _ _
          rw [hsplit, arrivals_append, arrivals_concat_pop] at hnear hnd
          refine complete_of_prefix hn hnear.left (List.nodup_append.mp hnd).1 hprefix hlen
            fun i hi => ?_
          rw [arrivals_append, harr₁]
          exact List.mem_append_left _ (hlast i hi)
  · have hown := own_le hpost
    rw [hwork, List.countP_cons, List.countP_cons] at hown
    simpa [Event.own] using hown

/-- Packet 1 comes before packet 0, and packet 0 before the thread is in the wait that it ends. -/
def unheard : List (Event Nat) := [.packet 1 11, .thread, .packet 0 10, .thread]

/-- Both packets are there and the thread waits on, until the timer. -/
theorem heard_by_tick_unheard : ∃ t t' heard, Trace.runOut step {} unheard = .ok (t, []) ∧
    Trace.runOut step t (.timer :: List.replicate 8 .thread) = .ok (t', heard) ∧
    ∃ k, heard = (List.range k).map (· + 10) ∧ 1 < k := by
  obtain ⟨t, t', heard, hpre, hpost, hblocked, hblocked'⟩ :
      ∃ t t' heard, Trace.runOut step {} unheard = .ok (t, []) ∧
        Trace.runOut step t (.timer :: List.replicate 8 .thread) = .ok (t', heard) ∧
        t.Blocked ∧ t'.Blocked := ⟨_, _, _, rfl, rfl, .inr rfl, .inl rfl⟩
  have hnear : Nearby 32768 ([1, 0] ++ []) := nearby_of_lt (by decide)
  have horder : unheard.flatMap Event.packets = streamPackets (· + 10) [1, 0] := rfl
  have hlater : (List.replicate 8 (Event.thread : Event Nat)).flatMap Event.packets =
      streamPackets (· + 10) [] := rfl
  obtain ⟨k, hk, -, hcomplete, -⟩ := heard_by_tick hpre hpost horder hlater
    (by decide) hnear (by decide) hblocked hblocked'
  exact ⟨t, t', heard, hpre, hpost, k, hk, hcomplete 1 (by decide)⟩

end Stream

/-! ## The destructor -/

/-- Neither a packet pushed nor a wait that ends by itself. -/
def Event.Undisturbed : Event β → Prop
  | .packet _ _ | .spurious => False
  | _ => True

/-- The thread is in a wait or on the way to one, and has not been notified of an order. -/
def Stuck (t : CallBackQueueThread β) : Prop :=
  t.caller = .entering ∨ (∃ notified, t.caller = .waitingEmpty notified) ∨
    t.caller = .waitingDisorder false

theorem stuck_checkEmpty (t : CallBackQueueThread β) :
    t.checkEmpty.Stuck ∧ t.checkEmpty.checking = t.checking := by
  unfold checkEmpty
  split
  · exact ⟨.inr (.inl ⟨false, rfl⟩), rfl⟩
  · exact ⟨.inr (.inr rfl), rfl⟩

/-- Without the timer, a thread that is stuck stays so. -/
theorem stuck_step (h : t.Stuck) (hchecking : t.checking = false) (he : e.Undisturbed)
    (hok : t.step e = .ok (t', out)) : t'.Stuck ∧ t'.checking = false := by
  have hchecked : t.checkEmpty.Stuck ∧ t.checkEmpty.checking = false :=
    (stuck_checkEmpty t).imp_right (·.trans hchecking)
  cases e with
  | packet seq buffer => exact he.elim
  | spurious => exact he.elim
  | timer =>
      rw [step, if_neg (by rw [hchecking]; exact Bool.false_ne_true)] at hok
      cases hok
  | destroy =>
      cases hok
      exact ⟨h, rfl⟩
  | thread =>
      rcases h with h | ⟨notified, h⟩ | h
      · rw [step, h] at hok
        cases hok
        exact hchecked
      · cases notified with
        | true =>
            rw [step, h] at hok
            cases hok
            exact hchecked
        | false =>
            rw [step, h] at hok
            cases hok
      · rw [step, h] at hok
        cases hok

/-- With `running_` not set, a thread that is not stuck goes on until it returns. -/
theorem returns_step (hrunning : t.running = false) (hstuck : ¬ t.Stuck)
    (hc : t.caller ≠ .returned) :
    ∃ t' out, t.step .thread = .ok (t', out) ∧ t'.running = false ∧ ¬ t'.Stuck := by
  have hfree : ∀ {t' : CallBackQueueThread β}, (∃ buffers, t'.caller = .calling buffers ∨
      t'.caller = .popping buffers) → ¬ t'.Stuck := by
    rintro t' ⟨buffers, h | h⟩ (h' | ⟨notified, h'⟩ | h') <;> rw [h] at h' <;> cases h'
  cases hcaller : t.caller with
  | calling buffers =>
      cases buffers with
      | nil =>
          refine ⟨{ t with caller := if t.running then .entering else .returned }, [], ?_,
            hrunning, ?_⟩
          · rw [step, hcaller]
          · rw [hrunning]
            rintro (h | ⟨notified, h⟩ | h) <;> cases h
      | cons buffer buffers =>
          refine ⟨{ t with caller := .calling buffers }, [buffer], ?_, hrunning,
            hfree ⟨buffers, .inl rfl⟩⟩
          rw [step, hcaller]
  | entering => exact absurd (.inl hcaller) hstuck
  | waitingEmpty notified => exact absurd (.inr (.inl ⟨notified, hcaller⟩)) hstuck
  | waitingDisorder notified =>
      cases notified with
      | false => exact absurd (.inr (.inr hcaller)) hstuck
      | true =>
          refine ⟨{ t with caller := .popping [] }, [], ?_, hrunning, hfree ⟨[], .inr rfl⟩⟩
          rw [step, hcaller]
  | popping buffers =>
      have hround : (t.popRound buffers).running = false ∧ ∃ buffers',
          (t.popRound buffers).caller = .calling buffers' ∨
          (t.popRound buffers).caller = .popping buffers' := by
        unfold popRound
        split
        · exact ⟨hrunning, buffers, .inl rfl⟩
        · split
          · exact ⟨hrunning, _, .inr rfl⟩
          · exact ⟨hrunning, buffers, .inl rfl⟩
      refine ⟨t.popRound buffers, [], ?_, hround.1, hfree hround.2⟩
      rw [step, hcaller]
  | returned => exact absurd hcaller hc

theorem returns (hrunning : t.running = false) (hstuck : ¬ t.Stuck) :
    ∃ k t' out, Trace.runOut step t (List.replicate k .thread) = .ok (t', out) ∧
      t'.caller = .returned := by
  induction hwork : t.work using Nat.strong_induction_on generalizing t with
  | _ n ih =>
      by_cases hc : t.caller = .returned
      · exact ⟨0, t, [], rfl, hc⟩
      · obtain ⟨m, first, hok, hrunning', hstuck'⟩ := returns_step hrunning hstuck hc
        have hless := work_step hok
        rw [show (Event.thread : Event β).foreign = [] from rfl, List.length_nil] at hless
        obtain ⟨k, t', out, hrun, hreturned⟩ := ih m.work (by omega) hrunning' hstuck' rfl
        refine ⟨k + 1, t', first ++ out, ?_, hreturned⟩
        rw [List.replicate_succ, Trace.runOut_cons_iff]
        exact ⟨m, first, out, hok, hrun, rfl⟩

/-- **When the destructor returns.** As long as no packet is pushed and no wait ends by itself,
    the join can end exactly when the thread is neither in a wait, but for one that has been
    notified of an order, nor on the way to one. -/
theorem joined_iff (t : CallBackQueueThread β) :
    (∃ after t' out, (∀ e ∈ after, e.Undisturbed) ∧
      Trace.runOut step t (.destroy :: after) = .ok (t', out) ∧ t'.caller = .returned) ↔
    ¬ t.Stuck := by
  have hdestroy : t.step .destroy = .ok ({ t with running := false, checking := false }, []) :=
    rfl
  constructor
  · rintro ⟨after, t', out, hafter, hrun, hreturned⟩ hstuck
    obtain ⟨m, first, rest, hok, hrest, -⟩ := Trace.runOut_cons_iff.mp hrun
    cases hdestroy.symm.trans hok
    have hleft : ({ t with running := false, checking := false } : CallBackQueueThread β).Stuck :=
      hstuck
    obtain ⟨⟨hstuck', -⟩, -⟩ := Trace.runOut_invariant (P := fun _ => True)
      (I := fun s : CallBackQueueThread β => s.Stuck ∧ s.checking = false)
      (fun _ _ _ _ hs he hok => ⟨stuck_step hs.1 hs.2 he hok, fun _ _ => trivial⟩) after
      ⟨hleft, rfl⟩ hafter hrest
    rcases hstuck' with h | ⟨notified, h⟩ | h <;> rw [hreturned] at h <;> cases h
  · intro hstuck
    obtain ⟨k, t', out, hrun, hreturned⟩ := @returns β
      { t with running := false, checking := false } rfl hstuck
    refine ⟨List.replicate k .thread, t', out, fun e he => ?_,
      Trace.runOut_cons_iff.mpr ⟨_, [], out, hdestroy, hrun, rfl⟩, hreturned⟩
    rw [List.eq_of_mem_replicate he]
    trivial

/-- A thread that has found the queue empty, as it does when it starts. -/
example : ∃ t : CallBackQueueThread Nat,
    Trace.runOut step {} [.thread, .thread] = .ok (t, []) ∧ t.Stuck :=
  ⟨_, rfl, .inr (.inl ⟨false, rfl⟩)⟩

/-- It returns if the first packet is pushed during the join, and one more when the thread has
    come to the second wait. -/
example : ∃ t : CallBackQueueThread Nat,
    Trace.runOut step {} [.thread, .thread, .destroy, .packet 0 7, .thread, .packet 1 8, .thread,
      .thread, .thread, .thread, .thread, .thread, .thread] = .ok (t, [7, 8]) ∧
    t.caller = .returned :=
  ⟨_, rfl, rfl⟩

end CallBackQueueThread

end Bifrost.Rtc
