/-
  The tables of senders and receivers under `RtcFactory`'s four stream calls.

  `DeleteRtpSenderStream` and `DeleteRtpReceiverStream` are the same call of the transport,
  which looks for a sender first. So a receiver cannot be deleted while a sender has its
  SSRC (the sender goes), and deleting a sender that is not there deletes the receiver.

  * `ownTable`: the calls as their names have them, each on its own table. There the tables
    are independent (`ownTable_senders`, `ownTable_receivers`).
  * `call_eq_ownTable`: a call that `DeletesItsKind` is that.
  * `independent_iff`: the tables are independent exactly as long as every call does.
-/
import Bifrost.Lib.Unwinding
import Bifrost.Api.RtcFactory
import Bifrost.Rtc.StreamIsolation

namespace Bifrost.Api.RtcFactory

open Bifrost.Rtc

/-! ## Calls -/

/-- The calls on the tables. `target` is what `uv_ip4_addr` makes of the address. -/
inductive StreamCall where
  | createRtpSenderStream (ssrc : UInt32) (target : Option SockAddr)
  | deleteRtpSenderStream (ssrc : UInt32)
  | createRtpReceiverStream (ssrc : UInt32) (target : Option SockAddr)
  | deleteRtpReceiverStream (ssrc : UInt32)

def call (f : RtcFactory) : StreamCall → RtcFactory
  | .createRtpSenderStream ssrc target => (f.createRtpSenderStream ssrc target).1
  | .deleteRtpSenderStream ssrc => (f.deleteRtpSenderStream ssrc).1
  | .createRtpReceiverStream ssrc target => (f.createRtpReceiverStream ssrc target).1
  | .deleteRtpReceiverStream ssrc => (f.deleteRtpReceiverStream ssrc).1

/-- The factory after the calls, from one without streams. -/
def afterCalls (calls : List StreamCall) : RtcFactory := calls.foldl call {}

def isSenderCall : StreamCall → Bool
  | .createRtpSenderStream _ _ | .deleteRtpSenderStream _ => true
  | .createRtpReceiverStream _ _ | .deleteRtpReceiverStream _ => false

def isReceiverCall (c : StreamCall) : Bool := !isSenderCall c

def senders (f : RtcFactory) : List (UInt32 × RtpStreamSender) := f.rtcTransport.rtpSendStreams

def receivers (f : RtcFactory) : List (UInt32 × RtpStreamReceiver) :=
  f.rtcTransport.rtpReceiveStreams

/-- The senders are those of the sender calls alone, the receivers those of the receiver
    calls alone. A table is a set of entries, whatever their order. -/
structure Independent (calls : List StreamCall) : Prop where
  senders : ∀ entry, entry ∈ (afterCalls calls).senders ↔
    entry ∈ (afterCalls (calls.filter isSenderCall)).senders
  receivers : ∀ entry, entry ∈ (afterCalls calls).receivers ↔
    entry ∈ (afterCalls (calls.filter isReceiverCall)).receivers

/-- The state before a deletion lets it reach the stream it is for. -/
def DeletesItsKind (f : RtcFactory) : StreamCall → Prop
  | .deleteRtpSenderStream ssrc =>
    (Table.find ssrc f.senders).isSome ∨ (Table.find ssrc f.receivers).isNone
  | .deleteRtpReceiverStream ssrc => (Table.find ssrc f.senders).isNone
  | .createRtpSenderStream _ _ | .createRtpReceiverStream _ _ => True

/-! ## Each call on its own table -/

/-- What the names of the calls say. -/
def ownTable (t : RtcTransport) : StreamCall → RtcTransport
  | .createRtpSenderStream ssrc target => t.createRtpStream ssrc .streamSender target
  | .deleteRtpSenderStream ssrc => { t with rtpSendStreams := Table.erase ssrc t.rtpSendStreams }
  | .createRtpReceiverStream ssrc target => t.createRtpStream ssrc .streamReceiver target
  | .deleteRtpReceiverStream ssrc =>
    { t with rtpReceiveStreams := Table.erase ssrc t.rtpReceiveStreams }

section Create

variable (t : RtcTransport) (ssrc : UInt32) (target : Option SockAddr)

theorem createRtpStream_receivers :
    (t.createRtpStream ssrc .streamSender target).rtpReceiveStreams = t.rtpReceiveStreams := by
  cases target with
  | none => rfl
  | some addr =>
      simp only [RtcTransport.createRtpStream]
      split <;> rfl

theorem createRtpStream_senders :
    (t.createRtpStream ssrc .streamReceiver target).rtpSendStreams = t.rtpSendStreams := by
  cases target with
  | none => rfl
  | some addr =>
      simp only [RtcTransport.createRtpStream]
      split <;> rfl

variable {t} {t' : RtcTransport}

theorem createRtpStream_senders_congr (heq : t.rtpSendStreams = t'.rtpSendStreams) :
    (t.createRtpStream ssrc .streamSender target).rtpSendStreams =
      (t'.createRtpStream ssrc .streamSender target).rtpSendStreams := by
  cases target with
  | none => exact heq
  | some addr =>
      simp only [RtcTransport.createRtpStream, heq]
      split
      · exact heq
      · rfl

theorem createRtpStream_receivers_congr (heq : t.rtpReceiveStreams = t'.rtpReceiveStreams) :
    (t.createRtpStream ssrc .streamReceiver target).rtpReceiveStreams =
      (t'.createRtpStream ssrc .streamReceiver target).rtpReceiveStreams := by
  cases target with
  | none => exact heq
  | some addr =>
      simp only [RtcTransport.createRtpStream, heq]
      split
      · exact heq
      · rfl

end Create

theorem unwinds_senders :
    Unwinding.Unwinds ownTable (fun t => t.rtpSendStreams) isSenderCall where
  consistent t t' c hmine heq := by
    cases c with
    | createRtpSenderStream ssrc target => exact createRtpStream_senders_congr ssrc target heq
    | deleteRtpSenderStream ssrc => exact congrArg (Table.erase ssrc) heq
    | createRtpReceiverStream ssrc target => cases hmine
    | deleteRtpReceiverStream ssrc => cases hmine
  respects t c hmine := by
    cases c with
    | createRtpSenderStream ssrc target => cases hmine
    | deleteRtpSenderStream ssrc => cases hmine
    | createRtpReceiverStream ssrc target => exact createRtpStream_senders t ssrc target
    | deleteRtpReceiverStream ssrc => rfl

theorem unwinds_receivers :
    Unwinding.Unwinds ownTable (fun t => t.rtpReceiveStreams) isReceiverCall where
  consistent t t' c hmine heq := by
    cases c with
    | createRtpSenderStream ssrc target => cases hmine
    | deleteRtpSenderStream ssrc => cases hmine
    | createRtpReceiverStream ssrc target => exact createRtpStream_receivers_congr ssrc target heq
    | deleteRtpReceiverStream ssrc => exact congrArg (Table.erase ssrc) heq
  respects t c hmine := by
    cases c with
    | createRtpSenderStream ssrc target => exact createRtpStream_receivers t ssrc target
    | deleteRtpSenderStream ssrc => rfl
    | createRtpReceiverStream ssrc target => cases hmine
    | deleteRtpReceiverStream ssrc => cases hmine

/-! ## The calls as they are -/

theorem call_eq_ownTable {f : RtcFactory} {c : StreamCall} (h : f.DeletesItsKind c) :
    (f.call c).rtcTransport = ownTable f.rtcTransport c := by
  cases c with
  | createRtpSenderStream ssrc target => rfl
  | createRtpReceiverStream ssrc target => rfl
  | deleteRtpSenderStream ssrc =>
      simp only [call, deleteRtpSenderStream, RtcTransport.deleteRtpStream, ownTable]
      split
      · rfl
      · next hsender =>
          have hreceiver := h.resolve_left hsender
          rw [if_neg (by simpa [receivers] using hreceiver),
            Table.erase_of_find_none (by simpa using hsender)]
  | deleteRtpReceiverStream ssrc =>
      have hsender : ¬ (Table.find ssrc f.rtcTransport.rtpSendStreams).isSome := by
        simpa [DeletesItsKind, senders] using h
      simp only [call, deleteRtpReceiverStream, RtcTransport.deleteRtpStream, ownTable,
        if_neg hsender]
      split
      · rfl
      · next hreceiver => rw [Table.erase_of_find_none (by simpa using hreceiver)]

theorem afterCalls_concat (calls : List StreamCall) (c : StreamCall) :
    afterCalls (calls ++ [c]) = (afterCalls calls).call c := by
  rw [afterCalls, List.foldl_append]
  rfl

theorem afterCalls_eq_ownTable (calls : List StreamCall) :
    (∀ pre c, pre ++ [c] <+: calls → (afterCalls pre).DeletesItsKind c) →
      (afterCalls calls).rtcTransport = calls.foldl ownTable {} := by
  induction calls using List.reverseRecOn with
  | nil => exact fun _ => rfl
  | append_singleton calls c ih =>
      intro h
      rw [afterCalls_concat, call_eq_ownTable (h calls c (List.prefix_refl _)),
        ih fun pre c hpre => h pre c (hpre.trans (List.prefix_append _ _)), List.foldl_append]
      rfl

/-! ## Calls of one kind -/

theorem deletesItsKind_of_sender {f : RtcFactory} {c : StreamCall} (hnone : f.receivers = [])
    (hc : isSenderCall c = true) : f.DeletesItsKind c := by
  cases c with
  | createRtpSenderStream ssrc target => trivial
  | deleteRtpSenderStream ssrc => exact Or.inr (by rw [hnone]; rfl)
  | createRtpReceiverStream ssrc target => cases hc
  | deleteRtpReceiverStream ssrc => cases hc

theorem deletesItsKind_of_receiver {f : RtcFactory} {c : StreamCall} (hnone : f.senders = [])
    (hc : isReceiverCall c = true) : f.DeletesItsKind c := by
  cases c with
  | createRtpSenderStream ssrc target => cases hc
  | deleteRtpSenderStream ssrc => cases hc
  | createRtpReceiverStream ssrc target => trivial
  | deleteRtpReceiverStream ssrc =>
      show (Table.find ssrc f.senders).isNone = true
      rw [hnone]
      rfl

/-- Sender calls alone make no receiver. -/
theorem receivers_of_sender {calls : List StreamCall} (h : ∀ c ∈ calls, isSenderCall c = true) :
    (afterCalls calls).receivers = [] := by
  induction calls using List.reverseRecOn with
  | nil => rfl
  | append_singleton calls c ih =>
      obtain ⟨hcalls, hc⟩ := List.forall_mem_append.mp h
      have hsender := hc c (List.mem_singleton_self c)
      have hnone := ih hcalls
      rw [afterCalls_concat, receivers,
        call_eq_ownTable (deletesItsKind_of_sender hnone hsender)]
      exact (unwinds_receivers.respects _ c (by simp [isReceiverCall, hsender])).trans hnone

/-- Receiver calls alone make no sender. -/
theorem senders_of_receiver {calls : List StreamCall}
    (h : ∀ c ∈ calls, isReceiverCall c = true) : (afterCalls calls).senders = [] := by
  induction calls using List.reverseRecOn with
  | nil => rfl
  | append_singleton calls c ih =>
      obtain ⟨hcalls, hc⟩ := List.forall_mem_append.mp h
      have hreceiver := hc c (List.mem_singleton_self c)
      have hnone := ih hcalls
      rw [afterCalls_concat, senders,
        call_eq_ownTable (deletesItsKind_of_receiver hnone hreceiver)]
      exact (unwinds_senders.respects _ c (by simpa [isReceiverCall] using hreceiver)).trans hnone

theorem ownTable_senders (calls : List StreamCall) :
    (calls.foldl ownTable {}).rtpSendStreams =
      (afterCalls (calls.filter isSenderCall)).senders := by
  have hkind : ∀ c ∈ calls.filter isSenderCall, isSenderCall c = true :=
    fun c hc => (List.mem_filter.mp hc).2
  rw [senders, afterCalls_eq_ownTable _ fun pre c hpre => deletesItsKind_of_sender
    (receivers_of_sender fun d hd => hkind d (hpre.subset (List.mem_append_left _ hd)))
    (hkind c (hpre.subset (by simp)))]
  exact Unwinding.view_foldl_filter unwinds_senders calls _ _ rfl

theorem ownTable_receivers (calls : List StreamCall) :
    (calls.foldl ownTable {}).rtpReceiveStreams =
      (afterCalls (calls.filter isReceiverCall)).receivers := by
  have hkind : ∀ c ∈ calls.filter isReceiverCall, isReceiverCall c = true :=
    fun c hc => (List.mem_filter.mp hc).2
  rw [receivers, afterCalls_eq_ownTable _ fun pre c hpre => deletesItsKind_of_receiver
    (senders_of_receiver fun d hd => hkind d (hpre.subset (List.mem_append_left _ hd)))
    (hkind c (hpre.subset (by simp)))]
  exact Unwinding.view_foldl_filter unwinds_receivers calls _ _ rfl

/-! ## Independence -/

theorem independent_of_deletesItsKind {calls : List StreamCall}
    (h : ∀ pre c, pre ++ [c] <+: calls → (afterCalls pre).DeletesItsKind c) :
    Independent calls := by
  have hown := afterCalls_eq_ownTable calls h
  constructor
  · intro entry
    rw [← ownTable_senders, senders, hown]
  · intro entry
    rw [← ownTable_receivers, receivers, hown]

section Step

variable {pre : List StreamCall} {c : StreamCall} (hpre : Independent pre)
  (hnext : Independent (pre ++ [c]))

include hpre hnext

theorem Independent.senders_call (hc : isSenderCall c = false) (entry : UInt32 × RtpStreamSender) :
    entry ∈ ((afterCalls pre).call c).senders ↔ entry ∈ (afterCalls pre).senders := by
  rw [← afterCalls_concat, hnext.senders, List.filter_append,
    List.filter_cons_of_neg (by simp [hc]), List.filter_nil, List.append_nil, hpre.senders]

theorem Independent.receivers_call (hc : isReceiverCall c = false)
    (entry : UInt32 × RtpStreamReceiver) :
    entry ∈ ((afterCalls pre).call c).receivers ↔ entry ∈ (afterCalls pre).receivers := by
  rw [← afterCalls_concat, hnext.receivers, List.filter_append,
    List.filter_cons_of_neg (by simp [hc]), List.filter_nil, List.append_nil, hpre.receivers]

/-- A deletion that does not reach its own kind takes a stream of the other. -/
theorem Independent.deletesItsKind : (afterCalls pre).DeletesItsKind c := by
  by_contra hother
  cases c with
  | createRtpSenderStream ssrc target => exact hother trivial
  | createRtpReceiverStream ssrc target => exact hother trivial
  | deleteRtpSenderStream ssrc =>
      obtain ⟨hsender, hreceiver⟩ := not_or.mp hother
      rw [Option.isNone_iff_eq_none, ← ne_eq, Option.ne_none_iff_exists'] at hreceiver
      obtain ⟨entry, hfind⟩ := hreceiver
      have hkept := (hpre.receivers_call hnext rfl entry).mpr (Table.find_mem hfind)
      have herase : ((afterCalls pre).call (.deleteRtpSenderStream ssrc)).receivers =
          Table.erase ssrc (afterCalls pre).receivers := by
        simp only [RtcFactory.receivers] at hfind
        simp only [RtcFactory.senders] at hsender
        simp only [call, deleteRtpSenderStream, RtcFactory.receivers, RtcTransport.deleteRtpStream,
          if_neg hsender, hfind, Option.isSome_some, if_true]
      rw [herase] at hkept
      exact Table.notMem_erase (Table.find_fst hfind) hkept
  | deleteRtpReceiverStream ssrc =>
      have hsender : (Table.find ssrc (afterCalls pre).senders).isSome := by
        simpa [DeletesItsKind, Option.isSome_iff_ne_none] using hother
      obtain ⟨entry, hfind⟩ := Option.isSome_iff_exists.mp hsender
      have hkept := (hpre.senders_call hnext rfl entry).mpr (Table.find_mem hfind)
      have herase : ((afterCalls pre).call (.deleteRtpReceiverStream ssrc)).senders =
          Table.erase ssrc (afterCalls pre).senders := by
        simp only [RtcFactory.senders] at hsender
        simp only [call, deleteRtpReceiverStream, RtcFactory.senders, RtcTransport.deleteRtpStream,
          if_pos hsender]
      rw [herase] at hkept
      exact Table.notMem_erase (Table.find_fst hfind) hkept

end Step

/-- **The tables are independent after every call of a sequence exactly when every deletion
    reaches a stream of its own kind or finds none of the other**: a receiver is deleted
    while no sender has its SSRC, and a sender while it exists or no receiver has its SSRC. -/
theorem independent_iff (calls : List StreamCall) :
    (∀ pre, pre <+: calls → Independent pre) ↔
      ∀ pre c, pre ++ [c] <+: calls → (afterCalls pre).DeletesItsKind c := by
  constructor
  · intro h pre c hprefix
    exact (h pre ((List.prefix_append _ _).trans hprefix)).deletesItsKind (h (pre ++ [c]) hprefix)
  · intro h pre hprefix
    exact independent_of_deletesItsKind fun pre' c hpre' => h pre' c (hpre'.trans hprefix)

/-- 127.0.0.1:5000. -/
def localAddr : SockAddr := [2, 0, 0x13, 0x88, 127, 0, 0, 1, 0, 0, 0, 0, 0, 0, 0, 0]

/-- A sender and a receiver under one SSRC; deleting the receiver takes the sender. -/
theorem not_independent :
    ¬ Independent [.createRtpSenderStream 1 (some localAddr),
      .createRtpReceiverStream 1 (some localAddr), .deleteRtpReceiverStream 1] := by
  intro h
  have hsender := (h.senders _).mpr (List.mem_singleton_self _)
  cases hsender

end Bifrost.Api.RtcFactory
