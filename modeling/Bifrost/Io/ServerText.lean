/-
  Which texts of the server the client survives: `OnReadText` and the client's
  `ReadResponseJson` (`io/websocket_client.h`).

  Nothing is checked before it is used. The text must have a first byte; behind a key there
  must be two bytes and balanced braces; a line that names a string member must go on for
  three bytes, and one that names the status, for one byte and an `int`. A text is `Harmless`
  when this is so, and then the call completes whatever the response holds
  (`readResponseJson_completes_iff`). Every other text ends in an exception or in undefined
  behaviour (`server_text_faults`).
-/
import Bifrost.Io.EventPieces

namespace Bifrost.Io

open Bifrost.Text Brackets

/-! ## Harmless texts -/

/-- Behind the name of a string member there are at least three bytes. -/
def StringFits (name : String) (line : List UInt8) : Prop :=
  ∀ rest, Behind (ascii name) line rest → 3 ≤ rest.length

/-- One byte behind the name and quote of the status there is an `int`. -/
def StatusFits (line : List UInt8) : Prop :=
  ∀ rest, Behind (ascii "status\"") line rest → ∃ status, IntegerAhead (rest.drop 1) status

structure HeaderLineFits (line : List UInt8) : Prop where
  messageType : StringFits "messageType" line
  connectId : StringFits "connectId" line
  statusMessage : StringFits "statusMessage" line
  status : StatusFits line

structure PayloadLineFits (line : List UInt8) : Prop where
  requestId : StringFits "requestId" line
  simpleRate : StringFits "simpleRate" line
  packOverlap : StringFits "packOverlap" line

/-- Two bytes behind the key, the first braces are balanced and all lines in them fit. -/
def GroupFits (key : String) (LineFits : List UInt8 → Prop) (text : List UInt8) : Prop :=
  ∀ rest, Behind (ascii key) text rest →
    ∃ content, Encloses 123 125 content (rest.drop 2) ∧ ∀ line ∈ content.splitOn 44, LineFits line

/-- A text that can be read. -/
structure Harmless (text : List UInt8) : Prop where
  nonempty : text ≠ []
  header : GroupFits "header" HeaderLineFits text
  payload : GroupFits "payload" PayloadLineFits text

/-! ## Reading them -/

theorem readHeaderLine_fits_iff (header : WebsocketEventResponseHeader) (line : List UInt8) :
    (∃ header', readHeaderLine header line = .ok header') ↔ HeaderLineFits line := by
  rw [readHeaderLine_completes_iff]
  unfold LineReadable
  rw [stringMember_completes_iff (by decide) (by decide),
    stringMember_completes_iff (by decide) (by decide),
    stringMember_completes_iff (by decide) (by decide), statusMember_completes_iff]
  constructor
  · rintro ⟨hmessageType, hconnectId, hstatusMessage, hstatus⟩
    exact ⟨hmessageType, hconnectId, hstatusMessage, hstatus⟩
  · rintro ⟨hmessageType, hconnectId, hstatusMessage, hstatus⟩
    exact ⟨hmessageType, hconnectId, hstatusMessage, hstatus⟩

theorem readPayloadLine_fits_iff (payload : WebsocketEventResponsePayload) (line : List UInt8) :
    (∃ payload', readPayloadLine payload line = .ok payload') ↔ PayloadLineFits line := by
  have hline : (∃ payload', readPayloadLine payload line = .ok payload') ↔
      (∃ value, stringMember "requestId" 12 line = .ok value) ∧
      (∃ value, stringMember "simpleRate" 13 line = .ok value) ∧
      ∃ value, stringMember "packOverlap" 14 line = .ok value := by
    constructor
    · rintro ⟨payload', h⟩
      obtain ⟨_, h₁, _, h₂, _, h₃, -⟩ := (readPayloadLine_eq_ok_iff _ _ _).mp h
      exact ⟨⟨_, h₁⟩, ⟨_, h₂⟩, _, h₃⟩
    · rintro ⟨⟨_, h₁⟩, ⟨_, h₂⟩, _, h₃⟩
      exact ⟨_, (readPayloadLine_eq_ok_iff _ _ _).mpr ⟨_, h₁, _, h₂, _, h₃, rfl⟩⟩
  rw [hline, stringMember_completes_iff (by decide) (by decide),
    stringMember_completes_iff (by decide) (by decide),
    stringMember_completes_iff (by decide) (by decide)]
  constructor
  · rintro ⟨hrequestId, hsimpleRate, hpackOverlap⟩
    exact ⟨hrequestId, hsimpleRate, hpackOverlap⟩
  · rintro ⟨hrequestId, hsimpleRate, hpackOverlap⟩
    exact ⟨hrequestId, hsimpleRate, hpackOverlap⟩

/-- A group is read to its end exactly when it fits. -/
theorem group_fits_iff {σ : Type} {step : σ → List UInt8 → Except TextFault σ}
    {LineFits : List UInt8 → Prop}
    (hline : ∀ s line, (∃ s', step s line = .ok s') ↔ LineFits line) {key : String}
    (hne : ascii key ≠ []) (s : σ) (text : List UInt8) :
    (∃ s', if ascii key <:+: text then
        ∃ rest content, Behind (ascii key) text rest ∧ Encloses 123 125 content (rest.drop 2) ∧
          Trace.runE step s (content.splitOn 44) = .ok s'
      else s' = s) ↔ GroupFits key LineFits text := by
  by_cases hoccurs : ascii key <:+: text
  · simp only [if_pos hoccurs]
    constructor
    · rintro ⟨s', rest, content, hrest, hgroup, hrun⟩ rest' hrest'
      obtain rfl := hrest.unique hne hrest'
      exact ⟨content, hgroup, (Trace.runE_completes_iff hline s _).mp ⟨s', hrun⟩⟩
    · intro hfits
      obtain ⟨rest, hrest⟩ := (exists_behind_iff hne).mpr hoccurs
      obtain ⟨content, hgroup, hlines⟩ := hfits rest hrest
      obtain ⟨s', hrun⟩ := (Trace.runE_completes_iff hline s _).mpr hlines
      exact ⟨s', rest, content, hrest, hgroup, hrun⟩
  · simp only [if_neg hoccurs]
    refine iff_of_true ⟨s, rfl⟩ fun rest hrest => ?_
    exact absurd ((exists_behind_iff hne).mp ⟨rest, hrest⟩) hoccurs

theorem readHeader_fits_iff (header : WebsocketEventResponseHeader) (text : List UInt8) :
    (∃ header', readHeader header text = .ok header') ↔
      GroupFits "header" HeaderLineFits text := by
  simp only [readHeader_eq_ok_iff]
  exact group_fits_iff readHeaderLine_fits_iff (by decide) header text

theorem readPayload_fits_iff (payload : WebsocketEventResponsePayload) (text : List UInt8) :
    (∃ payload', readPayload (WebsocketClient.payloadStart text) payload text = .ok payload') ↔
      GroupFits "payload" PayloadLineFits text := by
  simp only [readPayload_eq_ok_iff]
  exact group_fits_iff readPayloadLine_fits_iff (by decide) payload text

/-- What a call that completes has done. -/
theorem readResponseJson_eq_ok_iff (response response' : WebsocketEventResponse)
    (text : List UInt8) :
    WebsocketClient.readResponseJson response text = .ok response' ↔
      text ≠ [] ∧ readHeader response.header text = .ok response'.header ∧
      readPayload (WebsocketClient.payloadStart text) response.payload text =
        .ok response'.payload := by
  have hfirst : (∃ piece, substrCount text 1 (sizeSub text.length 2) = .ok piece) ↔
      text ≠ [] := by
    rw [substrCount_completes_iff, Nat.one_le_iff_ne_zero, ne_eq, List.length_eq_zero_iff]
  unfold WebsocketClient.readResponseJson readEvent
  simp only [bind_eq_ok, Except.ok.injEq]
  rw [← hfirst]
  constructor
  · rintro ⟨piece, hpiece, header, hheader, payload, hpayload, rfl⟩
    exact ⟨⟨piece, hpiece⟩, hheader, hpayload⟩
  · rintro ⟨⟨piece, hpiece⟩, hheader, hpayload⟩
    exact ⟨piece, hpiece, _, hheader, _, hpayload, rfl⟩

/-- **A call completes exactly for a harmless text**, whatever the response holds. -/
theorem readResponseJson_completes_iff (response : WebsocketEventResponse) (text : List UInt8) :
    (∃ response', WebsocketClient.readResponseJson response text = .ok response') ↔
      Harmless text := by
  simp only [readResponseJson_eq_ok_iff]
  constructor
  · rintro ⟨response', hne, hheader, hpayload⟩
    exact ⟨hne, (readHeader_fits_iff _ _).mp ⟨_, hheader⟩,
      (readPayload_fits_iff _ _).mp ⟨_, hpayload⟩⟩
  · intro h
    obtain ⟨header, hheader⟩ := (readHeader_fits_iff response.header text).mpr h.header
    obtain ⟨payload, hpayload⟩ := (readPayload_fits_iff response.payload text).mpr h.payload
    exact ⟨⟨header, payload⟩, h.nonempty, hheader, hpayload⟩

namespace WebsocketClient

/-- `OnReadText`: `is_connected_` and `response_` after it. -/
def onReadText (isConnected : Bool) (response : WebsocketEventResponse) (code : Int)
    (text : List UInt8) : Except TextFault (Bool × WebsocketEventResponse) :=
  if code < 0 then .ok (false, response)
  else do .ok (isConnected, ← readResponseJson response text)

/-- **The server's text cannot crash the client exactly when it is harmless**, or when the
    read has failed and the text is not looked at. -/
theorem onReadText_completes_iff (isConnected : Bool) (response : WebsocketEventResponse)
    (code : Int) (text : List UInt8) :
    (∃ after, onReadText isConnected response code text = .ok after) ↔
      code < 0 ∨ Harmless text := by
  unfold onReadText
  by_cases hcode : code < 0
  · simp [hcode]
  · rw [if_neg hcode, or_iff_right hcode, ← readResponseJson_completes_iff response]
    simp only [bind, Except.bind]
    cases readResponseJson response text <;> simp

/-- A response that holds nothing. -/
def emptyResponse : WebsocketEventResponse := ⟨⟨[], [], [], 0⟩, ⟨[], [], []⟩⟩

/-- An empty text, a brace that closes nothing, one that is not closed, a member cut off, and
    a status that is no number. -/
theorem server_text_faults :
    onReadText true emptyResponse 0 [] = .error .outOfRange ∧
    onReadText true emptyResponse 0 (ascii "\x7b\"header\":\x7d") = .error .emptyStack ∧
    onReadText true emptyResponse 0 (ascii "\x7b\"header\":\x7b") = .error .noReturn ∧
    onReadText true emptyResponse 0 (ascii "\x7b\"header\":\x7b\"connectId\"\x7d\x7d") =
      .error .outOfRange ∧
    onReadText true emptyResponse 0 (ascii "\x7b\"header\":\x7b\"status\":\"\"\x7d\x7d") =
      .error .invalidArgument :=
  ⟨rfl, rfl, rfl, rfl, rfl⟩

end WebsocketClient

end Bifrost.Io
