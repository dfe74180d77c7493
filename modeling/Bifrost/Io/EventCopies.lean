/-
  Do the two copies of `ReadResponseJson` agree?

  They read the header alike, so what one makes of the header the other makes of it too. The
  payload's braces are looked for in two places of the text: nine bytes behind the start of
  the payload's key by the client, nine bytes behind the start of the header's by the
  transport, which is a slip. The copies agree exactly when there is no payload to read or
  both places show the same members (`agree_iff`).

  So they do where no brace stands between the places (`agree_of_plain`). In a compact text
  the transport's place lies inside the header's braces: if these hold no others, the first
  brace it meets closes nothing, and the call fails (`transport_fails`).
-/
import Bifrost.Io.EventReadBack

namespace Bifrost.Io

open Bifrost.Text Brackets

/-! ## Two places of the text -/

/-- Where the client looks: two bytes behind the key of the payload. -/
def ClientPlace (text place : List UInt8) : Prop :=
  ∃ rest, Behind (ascii "payload") text rest ∧ place = rest.drop 2

/-- Where the transport looks: three bytes behind the key of the header, or behind the first
    eight bytes where there is none. -/
def TransportPlace (text place : List UInt8) : Prop :=
  (∃ rest, Behind (ascii "header") text rest ∧ place = rest.drop 3) ∨
    ¬ ascii "header" <:+: text ∧ place = text.drop 8

/-- The first braces from the place on are balanced, and all lines in them fit. -/
def PlaceFits (place : List UInt8) : Prop :=
  ∃ content, Encloses 123 125 content place ∧ ∀ line ∈ content.splitOn 44, PayloadLineFits line

/-- What the first braces from the place on enclose shows the member. -/
def PlaceShows (name : String) (value place : List UInt8) : Prop :=
  ∃ content, Encloses 123 125 content place ∧
    LastShows (ascii name) (LineShows name value) content

/-- Neither place can be read, or both can and show the same members. -/
structure SamePayload (place place' : List UInt8) : Prop where
  fits : PlaceFits place ↔ PlaceFits place'
  requestId : PlaceFits place → ∀ value,
    (PlaceShows "requestId" value place ↔ PlaceShows "requestId" value place')
  simpleRate : PlaceFits place → ∀ value,
    (PlaceShows "simpleRate" value place ↔ PlaceShows "simpleRate" value place')
  packOverlap : PlaceFits place → ∀ value,
    (PlaceShows "packOverlap" value place ↔ PlaceShows "packOverlap" value place')

theorem SamePayload.symm {place place' : List UInt8} (h : SamePayload place place') :
    SamePayload place' place :=
  ⟨h.fits.symm, fun hfits value => (h.requestId (h.fits.mpr hfits) value).symm,
    fun hfits value => (h.simpleRate (h.fits.mpr hfits) value).symm,
    fun hfits value => (h.packOverlap (h.fits.mpr hfits) value).symm⟩

/-- What a place shows is what the lines in its braces show. -/
theorem placeShows_iff {name : String} {value place content : List UInt8}
    (hgroup : Encloses 123 125 content place) :
    PlaceShows name value place ↔ LastShows (ascii name) (LineShows name value) content := by
  constructor
  · rintro ⟨content', hgroup', hshows⟩
    rwa [hgroup.unique (by decide) hgroup']
  · exact fun hshows => ⟨content, hgroup, hshows⟩

/-- Places with no brace between them are the same to a reader. -/
theorem samePayload_of_plain {between : List UInt8} (h : ∀ c ∈ between, c ≠ 123 ∧ c ≠ 125)
    (place : List UInt8) : SamePayload (between ++ place) place := by
  have hgroup : ∀ content, Encloses 123 125 content (between ++ place) ↔
      Encloses 123 125 content place := fun content => encloses_append_iff h
  have hshows : ∀ name value, PlaceShows name value (between ++ place) ↔
      PlaceShows name value place := fun name value =>
    exists_congr fun content => and_congr_left' (hgroup content)
  exact ⟨exists_congr fun content => and_congr_left' (hgroup content),
    fun _ => hshows "requestId", fun _ => hshows "simpleRate", fun _ => hshows "packOverlap"⟩

/-- A place whose first brace closes nothing cannot be read. -/
theorem not_placeFits_of_close {before rest : List UInt8} (h : ∀ c ∈ before, c ≠ 123 ∧ c ≠ 125) :
    ¬ PlaceFits (before ++ 125 :: rest) := by
  rintro ⟨content, hgroup, -⟩
  obtain ⟨before', after, heq, hbefore', -⟩ := (encloses_append_iff h).mp hgroup
  cases before' with
  | nil => cases heq
  | cons c before' =>
      obtain ⟨rfl, -⟩ := List.cons.inj heq
      exact (hbefore' 125 List.mem_cons_self).2 rfl

/-! ## Reading the payload at a place -/

/-- The payload after the lines between two braces: of each member the last value. -/
def shown (content : List UInt8) (payload : WebsocketEventResponsePayload) :
    WebsocketEventResponsePayload where
  requestId := (lastOf (stringMember "requestId" 12) (content.splitOn 44)).getD payload.requestId
  simpleRate :=
    (lastOf (stringMember "simpleRate" 13) (content.splitOn 44)).getD payload.simpleRate
  packOverlap :=
    (lastOf (stringMember "packOverlap" 14) (content.splitOn 44)).getD payload.packOverlap

theorem eq_shown_of_run {content : List UInt8} {payload payload' : WebsocketEventResponsePayload}
    (hrun : Trace.runE readPayloadLine payload (content.splitOn 44) = .ok payload') :
    payload' = shown content payload := by
  obtain ⟨hrequestId, hsimpleRate, hpackOverlap⟩ := payload_run hrun
  cases payload'
  simp only [shown, WebsocketEventResponsePayload.mk.injEq]
  exact ⟨hrequestId, hsimpleRate, hpackOverlap⟩

/-- Lines that fit show a member alike exactly when they have one last value of it. -/
theorem lastOf_eq_iff {name : String} (hne : ascii name ≠ []) {offset : Nat}
    (hoffset : offset = (ascii name).length + 3) {content content' : List UInt8}
    (hfits : ∀ line ∈ content.splitOn 44, StringFits name line)
    (hfits' : ∀ line ∈ content'.splitOn 44, StringFits name line) :
    lastOf (stringMember name offset) (content.splitOn 44) =
      lastOf (stringMember name offset) (content'.splitOn 44) ↔
    ∀ value, LastShows (ascii name) (LineShows name value) content ↔
      LastShows (ascii name) (LineShows name value) content' := by
  simp only [Option.ext_iff, lastShows_iff hne hoffset hfits,
    lastShows_iff hne hoffset hfits']

section Shown

variable {place place' content content' : List UInt8}

/-- Two groups that fit give every payload the same members exactly when the places show
    them alike. -/
theorem shown_eq_iff (hgroup : Encloses 123 125 content place)
    (hgroup' : Encloses 123 125 content' place')
    (hlines : ∀ line ∈ content.splitOn 44, PayloadLineFits line)
    (hlines' : ∀ line ∈ content'.splitOn 44, PayloadLineFits line) :
    (∀ payload, shown content payload = shown content' payload) ↔ SamePayload place place' := by
  have hfits : PlaceFits place := ⟨content, hgroup, hlines⟩
  have hfits' : PlaceFits place' := ⟨content', hgroup', hlines'⟩
  have hrequestId := @lastOf_eq_iff "requestId" (by decide) 12 (by decide) content content'
    (fun line hline => (hlines line hline).requestId)
    fun line hline => (hlines' line hline).requestId
  have hsimpleRate := @lastOf_eq_iff "simpleRate" (by decide) 13 (by decide) content content'
    (fun line hline => (hlines line hline).simpleRate)
    fun line hline => (hlines' line hline).simpleRate
  have hpackOverlap := @lastOf_eq_iff "packOverlap" (by decide) 14 (by decide) content content'
    (fun line hline => (hlines line hline).packOverlap)
    fun line hline => (hlines' line hline).packOverlap
  simp only [← placeShows_iff hgroup, ← placeShows_iff hgroup']
    at hrequestId hsimpleRate hpackOverlap
  constructor
  · intro h
    -- two payloads that hold different values
    have hne : ([] : List UInt8) ≠ [0] := by decide
    have h₀ := h ⟨[], [], []⟩
    have h₁ := h ⟨[0], [0], [0]⟩
    simp only [shown, WebsocketEventResponsePayload.mk.injEq] at h₀ h₁
    exact ⟨iff_of_true hfits hfits', fun _ => hrequestId.mp (getD_inj hne h₀.1 h₁.1),
      fun _ => hsimpleRate.mp (getD_inj hne h₀.2.1 h₁.2.1),
      fun _ => hpackOverlap.mp (getD_inj hne h₀.2.2 h₁.2.2)⟩
  · intro h payload
    unfold shown
    rw [hrequestId.mpr (h.requestId hfits), hsimpleRate.mpr (h.simpleRate hfits),
      hpackOverlap.mpr (h.packOverlap hfits)]

end Shown

section Payload

variable {text : List UInt8} (hpayload : ascii "payload" <:+: text)
include hpayload

theorem readPayload_at_eq_ok_iff (start : Nat) (payload payload' : WebsocketEventResponsePayload) :
    readPayload start payload text = .ok payload' ↔
      ∃ content, Encloses 123 125 content (text.drop start) ∧
        Trace.runE readPayloadLine payload (content.splitOn 44) = .ok payload' := by
  unfold readPayload
  cases hfind : find (ascii "payload") text with
  | none => exact absurd hpayload ((find_eq_none_iff (by decide)).mp hfind)
  | some pos =>
      simp only [bind_eq_ok, braceGroup_eq_ok_iff, runE_stringSplit readPayloadLine_nil]

/-- From a place that fits, the members are read that it shows. -/
theorem readPayload_of_fits {start : Nat} {content : List UInt8}
    (hgroup : Encloses 123 125 content (text.drop start))
    (hlines : ∀ line ∈ content.splitOn 44, PayloadLineFits line)
    (payload : WebsocketEventResponsePayload) :
    (readPayload start payload text).toOption = some (shown content payload) := by
  obtain ⟨payload', hrun⟩ :=
    (Trace.runE_completes_iff readPayloadLine_fits_iff payload _).mpr hlines
  rw [(readPayload_at_eq_ok_iff hpayload start payload payload').mpr ⟨content, hgroup, hrun⟩,
    eq_shown_of_run hrun]
  rfl

/-- From any other nothing is read. -/
theorem readPayload_of_not_fits {start : Nat} (h : ¬ PlaceFits (text.drop start))
    (payload : WebsocketEventResponsePayload) :
    (readPayload start payload text).toOption = none := by
  cases hread : readPayload start payload text with
  | error f => rfl
  | ok payload' =>
      obtain ⟨content, hgroup, hrun⟩ :=
        (readPayload_at_eq_ok_iff hpayload start payload payload').mp hread
      exact absurd ⟨content, hgroup,
        (Trace.runE_completes_iff readPayloadLine_fits_iff payload _).mp ⟨payload', hrun⟩⟩ h

theorem readPayload_agree_iff (start start' : Nat) :
    (∀ payload, (readPayload start payload text).toOption =
      (readPayload start' payload text).toOption) ↔
    SamePayload (text.drop start) (text.drop start') := by
  by_cases hfits : PlaceFits (text.drop start) <;> by_cases hfits' : PlaceFits (text.drop start')
  · obtain ⟨content, hgroup, hlines⟩ := hfits
    obtain ⟨content', hgroup', hlines'⟩ := hfits'
    simp only [readPayload_of_fits hpayload hgroup hlines,
      readPayload_of_fits hpayload hgroup' hlines', Option.some_inj]
    exact shown_eq_iff hgroup hgroup' hlines hlines'
  · obtain ⟨content, hgroup, hlines⟩ := hfits
    simp only [readPayload_of_fits hpayload hgroup hlines,
      readPayload_of_not_fits hpayload hfits', reduceCtorEq]
    exact iff_of_false (fun h => h ⟨[], [], []⟩) fun h =>
      hfits' (h.fits.mp ⟨content, hgroup, hlines⟩)
  · obtain ⟨content', hgroup', hlines'⟩ := hfits'
    simp only [readPayload_of_not_fits hpayload hfits,
      readPayload_of_fits hpayload hgroup' hlines', reduceCtorEq]
    exact iff_of_false (fun h => h ⟨[], [], []⟩) fun h =>
      hfits (h.fits.mpr ⟨content', hgroup', hlines'⟩)
  · simp only [readPayload_of_not_fits hpayload hfits, readPayload_of_not_fits hpayload hfits']
    exact iff_of_true (fun _ => trivial) ⟨iff_of_false hfits hfits', fun h => absurd h hfits,
      fun h => absurd h hfits, fun h => absurd h hfits⟩

end Payload

/-! ## Both copies -/

section Copies

variable (text : List UInt8)

theorem clientPlace_drop (hpayload : ascii "payload" <:+: text) :
    ClientPlace text (text.drop (WebsocketClient.payloadStart text)) := by
  obtain ⟨rest, hrest⟩ := (exists_behind_iff (by decide)).mpr hpayload
  obtain ⟨pos, hfind, -, hdrop⟩ := find_of_behind (by decide) hrest
  refine ⟨rest, hrest, ?_⟩
  unfold WebsocketClient.payloadStart
  rw [hfind]
  exact hdrop 2

theorem transportPlace_drop :
    TransportPlace text (text.drop (Rtc.RtcTransport.payloadStart text)) := by
  unfold Rtc.RtcTransport.payloadStart
  by_cases hheader : ascii "header" <:+: text
  · obtain ⟨rest, hrest⟩ := (exists_behind_iff (by decide)).mpr hheader
    obtain ⟨pos, hfind, -, hdrop⟩ := find_of_behind (by decide) hrest
    rw [hfind]
    exact Or.inl ⟨rest, hrest, hdrop 3⟩
  · rw [(find_eq_none_iff (by decide)).mpr hheader]
    exact Or.inr ⟨hheader, rfl⟩

variable {text}

theorem ClientPlace.unique {place place' : List UInt8} (h : ClientPlace text place)
    (h' : ClientPlace text place') : place = place' := by
  obtain ⟨rest, hrest, rfl⟩ := h
  obtain ⟨rest', hrest', rfl⟩ := h'
  rw [hrest.unique (by decide) hrest']

theorem TransportPlace.unique {place place' : List UInt8} (h : TransportPlace text place)
    (h' : TransportPlace text place') : place = place' := by
  have hoccurs : ∀ {rest}, Behind (ascii "header") text rest → ascii "header" <:+: text :=
    fun hrest => (exists_behind_iff (by decide)).mp ⟨_, hrest⟩
  rcases h with ⟨rest, hrest, rfl⟩ | ⟨hno, rfl⟩ <;>
    rcases h' with ⟨rest', hrest', rfl⟩ | ⟨hno', rfl⟩
  · rw [hrest.unique (by decide) hrest']
  · exact absurd (hoccurs hrest) hno'
  · exact absurd (hoccurs hrest') hno
  · rfl

/-- Both copies read the header first. -/
theorem readEvent_toOption (start : Nat) (response : WebsocketEventResponse) (hne : text ≠ []) :
    (readEvent start response text).toOption =
      (readHeader response.header text).toOption.bind fun header =>
        (readPayload start response.payload text).toOption.map fun payload =>
          { header, payload } := by
  obtain ⟨piece, hpiece⟩ := (substrCount_completes_iff text 1 (sizeSub text.length 2)).mpr
    (List.length_pos_iff.mpr hne)
  unfold readEvent
  rw [hpiece]
  cases readHeader response.header text with
  | error f => rfl
  | ok header => cases readPayload start response.payload text <;> rfl

theorem readEvent_agree_iff (hne : text ≠ []) (hheader : GroupFits "header" HeaderLineFits text)
    (start start' : Nat) :
    (∀ response, (readEvent start response text).toOption =
      (readEvent start' response text).toOption) ↔
    ∀ payload, (readPayload start payload text).toOption =
      (readPayload start' payload text).toOption := by
  constructor
  · intro h payload
    obtain ⟨header, hread⟩ := (readHeader_fits_iff ⟨[], [], [], 0⟩ text).mpr hheader
    have hsame := h ⟨⟨[], [], [], 0⟩, payload⟩
    rw [readEvent_toOption _ _ hne, readEvent_toOption _ _ hne, hread] at hsame
    exact Option.map_injective
      (fun x y hxy => congrArg WebsocketEventResponse.payload hxy) hsame
  · intro h response
    rw [readEvent_toOption _ _ hne, readEvent_toOption _ _ hne, h]

theorem readPayload_of_absent (hpayload : ¬ ascii "payload" <:+: text) (start : Nat)
    (payload : WebsocketEventResponsePayload) : readPayload start payload text = .ok payload := by
  have hnone := (find_eq_none_iff (by decide)).mpr hpayload
  unfold readPayload
  rw [hnone]

/-- Where no brace stands between the places, the copies agree. -/
theorem agree_of_plain {between place : List UInt8} (hbetween : ∀ c ∈ between, c ≠ 123 ∧ c ≠ 125)
    (h : TransportPlace text (between ++ place) ∧ ClientPlace text place ∨
      TransportPlace text place ∧ ClientPlace text (between ++ place))
    (response : WebsocketEventResponse) :
    (Rtc.RtcTransport.readResponseJson response text).toOption =
      (WebsocketClient.readResponseJson response text).toOption := by
  have hplain := samePayload_of_plain hbetween place
  have hread : ∀ payload,
      (readPayload (Rtc.RtcTransport.payloadStart text) payload text).toOption =
        (readPayload (WebsocketClient.payloadStart text) payload text).toOption := by
    by_cases hpayload : ascii "payload" <:+: text
    · rw [readPayload_agree_iff hpayload]
      rcases h with ⟨htransport, hclient⟩ | ⟨htransport, hclient⟩
      · rwa [← htransport.unique (transportPlace_drop text),
          ← hclient.unique (clientPlace_drop text hpayload)]
      · rw [← htransport.unique (transportPlace_drop text),
          ← hclient.unique (clientPlace_drop text hpayload)]
        exact hplain.symm
    · exact fun payload => by rw [readPayload_of_absent hpayload, readPayload_of_absent hpayload]
  unfold Rtc.RtcTransport.readResponseJson WebsocketClient.readResponseJson
  by_cases hne : text = []
  · rw [hne]
    rfl
  · rw [readEvent_toOption _ _ hne, readEvent_toOption _ _ hne, hread]

/-- Where the first brace of its place closes nothing, the transport's copy fails. -/
theorem transport_fails {before rest : List UInt8} (hbefore : ∀ c ∈ before, c ≠ 123 ∧ c ≠ 125)
    (hplace : TransportPlace text (before ++ 125 :: rest)) (hpayload : ascii "payload" <:+: text)
    (response : WebsocketEventResponse) :
    (Rtc.RtcTransport.readResponseJson response text).toOption = none := by
  have hne : text ≠ [] := by
    rintro rfl
    exact absurd (List.infix_nil.mp hpayload) (by decide)
  have hfits := @not_placeFits_of_close _ rest hbefore
  rw [hplace.unique (transportPlace_drop text)] at hfits
  unfold Rtc.RtcTransport.readResponseJson
  rw [readEvent_toOption _ _ hne, readPayload_of_not_fits hpayload hfits]
  cases readHeader response.header text <;> rfl

/-- **The two copies.** For a text they agree on every response exactly when it is empty, its
    header cannot be read, it has no payload, or both places show the same payload. -/
theorem agree_iff (text : List UInt8) :
    (∀ response, (Rtc.RtcTransport.readResponseJson response text).toOption =
      (WebsocketClient.readResponseJson response text).toOption) ↔
    text = [] ∨ ¬ GroupFits "header" HeaderLineFits text ∨ ¬ ascii "payload" <:+: text ∨
      ∃ place place', TransportPlace text place ∧ ClientPlace text place' ∧
        SamePayload place place' := by
  unfold Rtc.RtcTransport.readResponseJson WebsocketClient.readResponseJson
  by_cases hne : text = []
  · refine iff_of_true (fun response => ?_) (Or.inl hne)
    rw [hne]
    rfl
  rw [or_iff_right hne]
  by_cases hheader : GroupFits "header" HeaderLineFits text
  swap
  · refine iff_of_true (fun response => ?_) (Or.inl hheader)
    have hnone : (readHeader response.header text).toOption = none := by
      cases hread : readHeader response.header text with
      | error f => rfl
      | ok header => exact absurd ((readHeader_fits_iff _ _).mp ⟨header, hread⟩) hheader
    rw [readEvent_toOption _ _ hne, readEvent_toOption _ _ hne, hnone]
    rfl
  rw [or_iff_right (not_not_intro hheader), readEvent_agree_iff hne hheader]
  by_cases hpayload : ascii "payload" <:+: text
  swap
  · refine iff_of_true (fun payload => ?_) (Or.inl hpayload)
    rw [readPayload_of_absent hpayload, readPayload_of_absent hpayload]
  rw [or_iff_right (not_not_intro hpayload), readPayload_agree_iff hpayload]
  constructor
  · exact fun h => ⟨_, _, transportPlace_drop text, clientPlace_drop text hpayload, h⟩
  · rintro ⟨place, place', hplace, hplace', h⟩
    rwa [hplace.unique (transportPlace_drop text),
      hplace'.unique (clientPlace_drop text hpayload)] at h

end Copies

/-- A message with a blank behind the key of its header. -/
def spacedText : List UInt8 :=
  ascii "\x7b\"header\": \x7b\x7d,\"payload\":\x7b\"requestId\":\"abc\"\x7d\x7d"

/-- The transport takes the header's braces for the payload's. -/
theorem copies_differ :
    ¬ ∀ text response, (Rtc.RtcTransport.readResponseJson response text).toOption =
      (WebsocketClient.readResponseJson response text).toOption := by
  intro h
  exact absurd (h spacedText ⟨⟨[], [], [], 0⟩, ⟨[], [], []⟩⟩) (by decide)

end Bifrost.Io
