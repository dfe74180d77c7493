/-
  What becomes of the bytes behind the header of the handshake.

  Once a response is accepted, `OnRead` passes every piece on to `HandleFrame` as it is. Of the
  piece in which the header ends it passes on what lies behind a place that is right only when
  this piece is the first: of the bytes behind the header as many are lost as came before the
  piece (`handshake_pieces`). A response that is not accepted is handed over again with every
  piece that follows, and each time the connection is reported closed (`refused_pieces`). Both
  are about responses without a body of their own, whose `Content-Length` is not above 0.
-/
import Bifrost.Ws.HttpClient

namespace Bifrost.Ws

open Text

/-! ## Headers -/

namespace Headers

theorem keyLt_total : OrderedMap.StrictTotalOn keyLt fun _ => True where
  irrefl a _ := decide_eq_false (List.lt_irrefl a)
  trans a b c _ _ _ hab hbc :=
    decide_eq_true (List.lt_trans (of_decide_eq_true hab) (of_decide_eq_true hbc))
  total a b _ _ := by
    by_cases hab : a < b
    · exact .inl (decide_eq_true hab)
    · by_cases hba : b < a
      · exact .inr (.inr (decide_eq_true hba))
      · exact .inr (.inl (List.le_antisymm hba hab))

/-- Visiting an entry shows no other value than before. -/
theorem value_visit {m : Headers} (hs : OrderedMap.Sorted keyLt m) (key k : List UInt8) :
    (m.visit key).value k = m.value k := by
  rw [value, visit, OrderedMap.find?_emplace keyLt_total (fun _ _ => trivial) trivial hs trivial,
    value]
  cases OrderedMap.find? keyLt k m with
  | some e => rfl
  | none =>
      rw [Option.none_or]
      split <;> rfl

theorem sorted_visit {m : Headers} (hs : OrderedMap.Sorted keyLt m) (key : List UInt8) :
    OrderedMap.Sorted keyLt (m.visit key) :=
  OrderedMap.sorted_emplace keyLt_total (fun _ _ => trivial) trivial hs

theorem sorted_assign {m : Headers} (hs : OrderedMap.Sorted keyLt m) (key value : List UInt8) :
    OrderedMap.Sorted keyLt (m.assign key value) := by
  have hkey (e : List UInt8 × List UInt8) : (if e.1 = key then (key, value) else e).1 = e.1 := by
    split
    · next heq => exact heq.symm
    · rfl
  refine List.pairwise_map.mpr ((sorted_visit hs key).imp fun hab => ?_)
  rw [hkey, hkey]
  exact hab

end Headers

namespace HttpClientResponse

/-- Parsing a header does not look at the bytes behind it. -/
theorem statusLine_data (r : HttpClientResponse) (d : DataBuffer) (line : List UInt8) :
    { r with data := d }.statusLine line =
      (r.statusLine line).map fun r' => { r' with data := d } := by
  unfold statusLine
  split
  · next first code third more _ =>
      cases find [47] first with
      | none => rfl
      | some pos => cases atoi code <;> rfl
  · rfl

theorem headerLine_data (r : HttpClientResponse) (d : DataBuffer) (line : List UInt8) :
    { r with data := d }.headerLine line =
      (r.headerLine line).map fun r' => { r' with data := d } := by
  unfold headerLine
  cases find [58] line with
  | none => rfl
  | some pos =>
      dsimp only
      cases substr line (pos + 2) with
      | error e => rfl
      | ok value =>
          dsimp only
          split
          · cases atoi value <;> rfl
          · rfl

theorem headerLines_data (lines : List (List UInt8)) : ∀ (r : HttpClientResponse) (d : DataBuffer),
    { r with data := d }.headerLines lines =
      (r.headerLines lines).map fun r' => { r' with data := d } := by
  induction lines with
  | nil => exact fun _ _ => rfl
  | cons line lines ih =>
      intro r d
      rw [headerLines, headerLines, headerLine_data]
      cases r.headerLine line with
      | error e => rfl
      | ok r' => exact ih r' d

theorem parseHeader_data (r : HttpClientResponse) (d : DataBuffer) (header : List UInt8) :
    { r with data := d }.parseHeader header =
      (r.parseHeader header).map fun r' => { r' with data := d } := by
  unfold parseHeader
  split
  · rfl
  · next first lines _ =>
      rw [statusLine_data]
      cases r.statusLine first with
      | error e => rfl
      | ok r' => exact headerLines_data lines r' d

/-- The headers are kept in order, and that the header has been read is kept. -/
structure Parsed (r : HttpClientResponse) : Prop where
  ready : r.headerReady = true
  sorted : OrderedMap.Sorted Headers.keyLt r.headers

theorem Parsed.statusLine {r r' : HttpClientResponse} (h : r.Parsed) {line : List UInt8}
    (hok : r.statusLine line = .ok r') : r'.Parsed := by
  unfold HttpClientResponse.statusLine at hok
  split at hok
  · split at hok
    · cases hok
    · obtain ⟨statusCode, -, hok⟩ := bind_eq_ok.mp hok
      cases hok
      exact ⟨h.ready, h.sorted⟩
  · cases hok

theorem Parsed.headerLine {r r' : HttpClientResponse} (h : r.Parsed) {line : List UInt8}
    (hok : r.headerLine line = .ok r') : r'.Parsed := by
  unfold HttpClientResponse.headerLine at hok
  split at hok
  · cases hok
  · dsimp only at hok
    split at hok
    · cases hok
    · split at hok
      · obtain ⟨contentLength, -, hok⟩ := bind_eq_ok.mp hok
        cases hok
        exact ⟨h.ready, Headers.sorted_assign h.sorted _ _⟩
      · cases hok
        exact ⟨h.ready, Headers.sorted_assign h.sorted _ _⟩

theorem Parsed.headerLines {lines : List (List UInt8)} : ∀ {r r' : HttpClientResponse}, r.Parsed →
    r.headerLines lines = .ok r' → r'.Parsed := by
  induction lines with
  | nil =>
      intro r r' h hok
      cases hok
      exact h
  | cons line lines ih =>
      intro r r' h hok
      obtain ⟨r₁, hline, hlines⟩ := bind_eq_ok.mp hok
      exact ih (h.headerLine hline) hlines

theorem Parsed.parseHeader {r r' : HttpClientResponse} (h : r.Parsed) {header : List UInt8}
    (hok : r.parseHeader header = .ok r') : r'.Parsed := by
  unfold HttpClientResponse.parseHeader at hok
  split at hok
  · cases hok
    exact h
  · obtain ⟨r₁, hstatus, hlines⟩ := bind_eq_ok.mp hok
    exact (h.statusLine hstatus).headerLines hlines

/-- What `HandleHttpRespone` asks of a response to the key `key`. -/
def Accepts (r : HttpClientResponse) (key : List UInt8) : Prop :=
  r.statusCode = 101 ∧
    (r.headers.value (ascii "Connection") = ascii "Upgrade" ∨
      r.headers.value (ascii "Connection") = ascii "upgrade") ∧
    r.headers.value (r.headers.value (ascii "Connection")) = ascii "websocket" ∧
    r.headers.value (ascii "sec-websocket-accept") = genWebSocketHashcode (base64Encode key)

instance (r : HttpClientResponse) (key : List UInt8) : Decidable (r.Accepts key) :=
  inferInstanceAs (Decidable (_ ∧ _))

theorem accepts_headers {r : HttpClientResponse} {headers : Headers}
    (hvalue : ∀ k, headers.value k = r.headers.value k) (key : List UInt8) :
    { r with headers := headers }.Accepts key ↔ r.Accepts key := by
  rw [Accepts, Accepts, hvalue, hvalue, hvalue]

end HttpClientResponse

namespace WebSocketClient

/-! ## The response -/

section Respone

variable {c : WebSocketClient} {r : HttpClientResponse}

theorem handleHttpRespone_accepts (h : r.Parsed) (haccepts : r.Accepts c.key) :
    ∃ c' r', c.handleHttpRespone r = (c', [.onConnection]) ∧ c'.httpReady = true ∧
      c'.receiver = { c.receiver with session.isConnected := true } ∧ c'.resp = some r' ∧
      r'.headerReady = true ∧ r'.contentLength = r.contentLength ∧ r'.data = r.data.reset := by
  obtain ⟨hcode, hconnection, hupgrade, haccept⟩ := haccepts
  have hvisited := Headers.sorted_visit h.sorted (ascii "Connection")
  rw [handleHttpRespone, if_neg (not_not_intro hcode)]
  dsimp only
  rw [if_neg fun hno => hconnection.elim hno.1 hno.2,
    if_neg (not_not_intro (by rw [Headers.value_visit h.sorted, hupgrade])),
    if_neg (not_not_intro
      (by rw [Headers.value_visit hvisited, Headers.value_visit h.sorted, haccept]))]
  exact ⟨_, _, rfl, rfl, rfl, rfl, h.ready, rfl, rfl⟩

/-- The response refused is refused again the next time. -/
theorem handleHttpRespone_refuses (h : r.Parsed) (hrefused : ¬ r.Accepts c.key) :
    ∃ headers desc, c.handleHttpRespone r =
        ({ c with resp := some { r with headers := headers } }.setConnected false,
          [.onClose (-1) desc]) ∧
      { r with headers := headers }.Parsed ∧ ¬ { r with headers := headers }.Accepts c.key := by
  have hrefuse (headers : Headers) (desc : List UInt8)
      (hs : OrderedMap.Sorted Headers.keyLt headers)
      (hvalue : ∀ k, headers.value k = r.headers.value k) :
      ∃ headers' desc', c.refuse r headers desc =
        ({ c with resp := some { r with headers := headers' } }.setConnected false,
          [.onClose (-1) desc']) ∧
        { r with headers := headers' }.Parsed ∧
        ¬ { r with headers := headers' }.Accepts c.key :=
    ⟨headers, _, rfl, ⟨h.ready, hs⟩,
      fun haccepts => hrefused ((HttpClientResponse.accepts_headers hvalue _).mp haccepts)⟩
  have hs₁ := Headers.sorted_visit h.sorted (ascii "Connection")
  have hv₁ := Headers.value_visit h.sorted (ascii "Connection")
  have hs₂ := Headers.sorted_visit hs₁ (r.headers.value (ascii "Connection"))
  have hv₂ := fun k =>
    (Headers.value_visit hs₁ (r.headers.value (ascii "Connection")) k).trans (hv₁ k)
  rw [handleHttpRespone]
  split
  · exact hrefuse _ _ h.sorted fun _ => rfl
  · next hcode =>
      dsimp only
      split
      · exact hrefuse _ _ hs₁ hv₁
      · next hconnection =>
          split
          · exact hrefuse _ _ hs₂ hv₂
          · next hupgrade =>
              split
              · exact hrefuse _ _ (Headers.sorted_visit hs₂ _)
                  fun k => (Headers.value_visit hs₂ _ k).trans (hv₂ k)
              · next hhash =>
                  rw [hv₁, not_not] at hupgrade
                  rw [hv₂, not_not] at hhash
                  rw [not_and_or, not_not, not_not] at hconnection
                  exact absurd ⟨not_not.mp hcode, hconnection, hupgrade, hhash.symm⟩ hrefused

end Respone

/-! ## Pieces -/

/-- What the TCP client reads at a time. -/
structure Piece (data : List UInt8) : Prop where
  ne : data ≠ []
  le : data.length ≤ 10 * 1024

theorem Piece.length_ne {data : List UInt8} (h : Piece data) : data.length ≠ 0 :=
  fun hzero => h.ne (List.eq_nil_of_length_eq_zero hzero)

/-- The bytes of a piece that `OnRead` takes again, the header ending at `pos`. -/
def again (pos : Nat) (piece : List UInt8) : List (List UInt8) :=
  if pos + 4 < piece.length then [piece.drop (pos + 4)] else []

section Pieces

variable {host : Host} {c : WebSocketClient} {r : HttpClientResponse} {data bytes : List UInt8}

theorem append_holds (hresp : c.resp.getD {} = r) (hholds : r.data.Holds bytes)
    (hclear : r.data.Clear (.append data))
    (hroom : (bytes ++ data).length + 2 * extraLen < 2 ^ 31) :
    ∃ d, r.data.call (.append data) = .ok d ∧ c.append data = .ok { r with data := d } ∧
      d.Holds (bytes ++ data) := by
  rw [List.length_append] at hroom
  rcases DataBuffer.call_holds hholds (.append data) hroom with ⟨-, d, hok, hd⟩ | ⟨hover, -⟩
  · refine ⟨d, hok, ?_, hd⟩
    have happend : r.data.appendData data data.length = .ok d := hok
    rw [append, hresp, happend]
    rfl
  · exact absurd hclear hover

/-- Nothing is copied over itself where nothing is held. -/
theorem clear_nil (hholds : r.data.Holds []) (data : List UInt8) :
    r.data.Clear (.append data) := by
  rintro ⟨-, -, -, hheld, -⟩
  rw [hholds.length] at hheld
  exact absurd hheld (Nat.lt_irrefl 0)

theorem onRead_ready (hresp : c.resp.getD {} = r) (hready : r.headerReady = true)
    (hne : data.length ≠ 0) : c.onRead host data = c.onReadReady host data := by
  rw [onRead, if_neg hne, hresp, if_pos hready]

/-! ## After the handshake -/

/-- The handshake is through, and the response holds nothing any more. -/
structure Opened (c : WebSocketClient) : Prop where
  ready : c.httpReady = true
  resp : ∃ r, c.resp = some r ∧ r.headerReady = true ∧ r.contentLength ≤ 0 ∧ r.data.Holds []

theorem opened_step (h : Opened c) (hpiece : Piece data) :
    (∃ f, c.onRead host data = .error f ∧ c.receiver.handleFrame host data = .error f) ∨
      ∃ c' out, c.onRead host data = .ok (c', out) ∧
        c.receiver.handleFrame host data = .ok (c'.receiver, out) ∧ Opened c' := by
  obtain ⟨r, hsome, hready, hlength, hholds⟩ := h.resp
  have hresp : c.resp.getD {} = r := by rw [hsome, Option.getD_some]
  have hextra : extraLen = 10240 := rfl
  have hle := hpiece.le
  have hroom : ([] ++ data).length + 2 * extraLen < 2 ^ 31 := by
    rw [List.nil_append]
    omega
  obtain ⟨d, -, happend, hd⟩ := append_holds hresp hholds (clear_nil hholds data) hroom
  rw [onRead_ready hresp hready hpiece.length_ne, onReadReady, happend]
  dsimp only [bind, Except.bind]
  rw [onBody, if_neg (Int.not_lt.mpr hlength), onHttpRead, if_pos h.ready]
  dsimp only
  rw [hd.bytes, List.nil_append]
  cases c.receiver.handleFrame host data with
  | error f => exact .inl ⟨f, rfl, rfl⟩
  | ok so =>
      exact .inr ⟨_, so.2, rfl, rfl,
        ⟨h.ready, _, rfl, hready, hlength, DataBuffer.reset_holds hd⟩⟩

/-- Once the handshake is through, the pieces go to `HandleFrame`. -/
theorem opened_run (h : Opened c) {pieces : List (List UInt8)} (hpieces : ∀ p ∈ pieces, Piece p) :
    (Trace.runOut (onRead host) c pieces).map (fun so => (so.1.receiver, so.2)) =
      Trace.runOut (Receiver.handleFrame host) c.receiver pieces :=
  Trace.runOut_view (fun _ _ hc hp => opened_step hc hp) pieces h hpieces

/-! ## The header -/

/-- Nothing but bytes has been collected yet. -/
structure Collecting (c : WebSocketClient) (key : List UInt8) (d : DataBuffer)
    (bytes : List UInt8) : Prop where
  client : ∃ resp, c = { key := key, resp := resp }
  resp : c.resp.getD {} = { data := d }
  holds : d.Holds bytes

variable {key : List UInt8} {d : DataBuffer}

theorem collecting_start (key : List UInt8) :
    Collecting { key := key } key (.make extraLen) [] :=
  ⟨⟨none, rfl⟩, rfl, DataBuffer.holds_make (by decide) (by decide)⟩

/-- Pieces without the end of the header in them. -/
theorem collect_run (pieces : List (List UInt8)) : ∀ {c : WebSocketClient} {d : DataBuffer}
    {bytes : List UInt8} {calls : List DataBuffer.Call}, Collecting c key d bytes →
      (∀ p ∈ pieces, Piece p) → find [13, 10, 13, 10] (bytes ++ pieces.flatten) = none →
      Trace.EachStep DataBuffer.call DataBuffer.Clear d (pieces.map .append ++ calls) →
      (bytes ++ pieces.flatten).length + 2 * extraLen < 2 ^ 31 →
      ∃ c' d', Trace.runOut (onRead host) c pieces = .ok (c', []) ∧
        Collecting c' key d' (bytes ++ pieces.flatten) ∧
        Trace.EachStep DataBuffer.call DataBuffer.Clear d' calls := by
  induction pieces with
  | nil =>
      intro c d bytes calls h _ _ hclear _
      rw [List.flatten_nil, List.append_nil]
      exact ⟨c, d, rfl, h, hclear⟩
  | cons piece pieces ih =>
      intro c d bytes calls h hpieces hnone hclear hroom
      obtain ⟨hpiece, hpieces⟩ := List.forall_mem_cons.mp hpieces
      rw [List.flatten_cons, ← List.append_assoc] at hnone hroom
      obtain ⟨resp, rfl⟩ := h.client
      have hshort : (bytes ++ piece).length ≤ (bytes ++ piece ++ pieces.flatten).length :=
        (List.prefix_append _ _).length_le
      obtain ⟨d', hcall, happend, hd'⟩ := append_holds h.resp h.holds hclear.1 (by omega)
      have hfind : find [13, 10, 13, 10] d'.bytes = none := by
        rw [hd'.bytes]
        rw [find_eq_none_iff (List.cons_ne_nil _ _)] at hnone ⊢
        exact fun hfound => hnone (hfound.trans (List.prefix_append _ _).isInfix)
      have hstep : onRead host { key := key, resp := resp } piece =
          .ok ({ key := key, resp := some { data := d' } }, []) := by
        rw [onRead, if_neg hpiece.length_ne, h.resp, if_neg Bool.false_ne_true, happend]
        dsimp only [bind, Except.bind]
        rw [hfind]
      obtain ⟨c', d'', hrun, hcollected, hrest⟩ := ih
        (c := { key := key, resp := some { data := d' } }) ⟨⟨_, rfl⟩, rfl, hd'⟩ hpieces hnone
        (hclear.2 d' hcall) hroom
      rw [List.flatten_cons, ← List.append_assoc]
      exact ⟨c', d'', Trace.runOut_cons_iff.mpr ⟨_, [], [], hstep, hrun, rfl⟩, hcollected, hrest⟩

/-- The piece in which the header ends, and what the first response has made of the client:
    from there on the bytes taken again are a piece like any other. -/
theorem header_run {c₁ : WebSocketClient} {out : List Output} {piece : List UInt8} {pos : Nat}
    (h : Collecting c key d bytes) (hpiece : Piece piece)
    (hclear : d.Clear (.append piece)) (hroom : (bytes ++ piece).length + 2 * extraLen < 2 ^ 31)
    (hpos : find [13, 10, 13, 10] (bytes ++ piece) = some pos)
    (hparse : { headerReady := true : HttpClientResponse }.parseHeader
      ((bytes ++ piece).take pos) = .ok r)
    (hbody : ∀ d', d.call (.append piece) = .ok d' →
      c.onBody host { r with data := d'.consumeData (pos + 4) } = .ok (c₁, out))
    (hready : (c₁.resp.getD {}).headerReady = true) (after : List (List UInt8)) :
    Trace.runOut (onRead host) c (piece :: after) =
      (Trace.runOut (onRead host) c₁ (again pos piece ++ after)).map
        fun so => (so.1, out ++ so.2) := by
  obtain ⟨d', hcall, happend, hd'⟩ := append_holds h.resp h.holds hclear hroom
  have hparse' : { headerReady := true, data := d'.consumeData (pos + 4) :
      HttpClientResponse }.parseHeader ((bytes ++ piece).take pos) =
      .ok { r with data := d'.consumeData (pos + 4) } := by
    have hdata := HttpClientResponse.parseHeader_data { headerReady := true }
      (d'.consumeData (pos + 4)) ((bytes ++ piece).take pos)
    rw [hparse] at hdata
    exact hdata
  have hread : c.onRead host piece = if pos + 4 < piece.length then
      (c₁.onReadReady host (piece.drop (pos + 4))) >>= fun so => .ok (so.1, out ++ so.2)
      else .ok (c₁, out) := by
    rw [onRead, if_neg hpiece.length_ne, h.resp, if_neg Bool.false_ne_true, happend]
    dsimp only [bind, Except.bind]
    rw [hd'.bytes, hpos]
    dsimp only
    rw [hparse']
    dsimp only
    rw [hbody d' hcall]
  rw [again, Trace.runOut, hread]
  by_cases hmore : pos + 4 < piece.length
  · have hne : (piece.drop (pos + 4)).length ≠ 0 := by
      rw [List.length_drop]
      omega
    rw [if_pos hmore, if_pos hmore, List.cons_append, List.nil_append, Trace.runOut,
      onRead_ready rfl hready hne]
    cases c₁.onReadReady host (piece.drop (pos + 4)) with
    | error f => rfl
    | ok so =>
        dsimp only [bind, Except.bind]
        cases Trace.runOut (onRead host) so.1 after with
        | error f => rfl
        | ok so' =>
            show Except.ok (so'.1, out ++ so.2 ++ so'.2) = .ok (so'.1, out ++ (so.2 ++ so'.2))
            rw [List.append_assoc]
  · rw [if_neg hmore, if_neg hmore, List.nil_append]
    dsimp only
    cases Trace.runOut (onRead host) c₁ after <;> rfl

/-! ## Refused -/

/-- The handshake has been refused. -/
structure Refused (c : WebSocketClient) (key : List UInt8) (d : DataBuffer)
    (bytes : List UInt8) : Prop where
  same : c.key = key
  ready : c.httpReady = false
  connected : c.receiver.session.isConnected = false
  resp : ∃ r, c.resp = some r ∧ r.Parsed ∧ ¬ r.Accepts key ∧ r.contentLength ≤ 0 ∧ r.data = d
  holds : d.Holds bytes

theorem refused_run (pieces : List (List UInt8)) : ∀ {c : WebSocketClient} {d : DataBuffer}
    {bytes : List UInt8}, Refused c key d bytes → (∀ p ∈ pieces, p ≠ []) →
      Trace.EachStep DataBuffer.call DataBuffer.Clear d (pieces.map .append) →
      (bytes ++ pieces.flatten).length + 2 * extraLen < 2 ^ 31 →
      ∃ c', ∃ descs : List (List UInt8),
        Trace.runOut (onRead host) c pieces = .ok (c', descs.map (.onClose (-1))) ∧
        descs.length = pieces.length ∧ c'.receiver.session.isConnected = false := by
  induction pieces with
  | nil => exact fun h _ _ _ => ⟨_, [], rfl, rfl, h.connected⟩
  | cons piece pieces ih =>
      intro c d bytes h hpieces hclear hroom
      obtain ⟨hpiece, hpieces⟩ := List.forall_mem_cons.mp hpieces
      rw [List.flatten_cons, ← List.append_assoc] at hroom
      have hshort : (bytes ++ piece).length ≤ (bytes ++ piece ++ pieces.flatten).length :=
        (List.prefix_append _ _).length_le
      obtain ⟨r, hsome, hparsed, hrefused, hlength, rfl⟩ := h.resp
      have hresp : c.resp.getD {} = r := by rw [hsome, Option.getD_some]
      obtain ⟨d', hcall, happend, hd'⟩ := append_holds hresp h.holds hclear.1 (by omega)
      obtain ⟨headers, desc, hhandle, hparsed', hrefused'⟩ := @handleHttpRespone_refuses c
        { r with data := d' } ⟨hparsed.ready, hparsed.sorted⟩ (h.same.symm ▸ hrefused)
      have hstep : onRead host c piece =
          .ok ({ c with resp := some { r with headers := headers, data := d' } }.setConnected false,
            [.onClose (-1) desc]) := by
        rw [onRead_ready hresp hparsed.ready fun h => hpiece (List.eq_nil_of_length_eq_zero h),
          onReadReady, happend]
        dsimp only [bind, Except.bind]
        rw [onBody, if_neg (Int.not_lt.mpr hlength), onHttpRead,
          if_neg (by rw [h.ready]; exact Bool.false_ne_true), hhandle]
      obtain ⟨c', descs, hrun, hcount, hconnected⟩ := ih
        (c := { c with resp := some { r with headers := headers, data := d' } }.setConnected false)
        ⟨h.same, h.ready, rfl, ⟨_, rfl, hparsed', h.same ▸ hrefused', hlength, rfl⟩, hd'⟩ hpieces
        (hclear.2 d' hcall) hroom
      exact ⟨c', desc :: descs, Trace.runOut_cons_iff.mpr ⟨_, _, _, hstep, hrun, rfl⟩,
        congrArg (· + 1) hcount, hconnected⟩

end Pieces

/-! ## Both ends of a handshake -/

/-- The header ends in `piece`, at `pos` of all the bytes, and the response is `r`. It says
    nothing of a body. -/
structure HeaderEnds (before : List (List UInt8)) (piece : List UInt8) (pos : Nat)
    (r : HttpClientResponse) : Prop where
  pieces : ∀ p ∈ before, Piece p
  last : Piece piece
  absent : find [13, 10, 13, 10] before.flatten = none
  found : find [13, 10, 13, 10] (before.flatten ++ piece) = some pos
  parse : { headerReady := true : HttpClientResponse }.parseHeader
    ((before.flatten ++ piece).take pos) = .ok r
  short : r.contentLength ≤ 0
  room : (before.flatten ++ piece).length + 2 * extraLen < 2 ^ 31

section Ends

variable {before after : List (List UInt8)} {piece : List UInt8} {pos : Nat}
  {r : HttpClientResponse}

theorem HeaderEnds.parsed (h : HeaderEnds before piece pos r) : r.Parsed :=
  HttpClientResponse.Parsed.parseHeader
    (show { headerReady := true : HttpClientResponse }.Parsed from ⟨rfl, List.Pairwise.nil⟩) h.parse

/-- The end of the header is not in the pieces before. -/
theorem HeaderEnds.before_lt (h : HeaderEnds before piece pos r) :
    before.flatten.length < pos + 4 := by
  by_contra hle
  rcases find_cases (List.cons_ne_nil 13 [10, 13, 10]) (before.flatten ++ piece) with
    ⟨hnone, -⟩ | ⟨header, rest, hsome, htext, -⟩
  · cases hnone.symm.trans h.found
  · cases hsome.symm.trans h.found
    have habsent := (find_eq_none_iff (List.cons_ne_nil 13 [10, 13, 10])).mp h.absent
    have hprefix : header ++ [13, 10, 13, 10] <+: before.flatten := by
      refine List.prefix_of_prefix_length_le ⟨rest, ?_⟩ (List.prefix_append _ piece) ?_
      · rw [htext, List.append_assoc]
      · rw [List.length_append]
        exact Nat.not_lt.mp hle
    exact habsent ((List.suffix_append _ _).isInfix.trans hprefix.isInfix)

/-- Of the bytes behind the header, those taken again begin as far in as the piece does. -/
theorem HeaderEnds.again_flatten (h : HeaderEnds before piece pos r) :
    (again pos piece).flatten =
      ((before.flatten ++ piece).drop (pos + 4)).drop before.flatten.length := by
  have hlt := h.before_lt
  rw [List.drop_drop, Nat.add_comm, ← List.drop_drop, List.drop_left, again]
  split
  · rw [List.flatten_singleton]
  · next hnone => exact (List.drop_eq_nil_of_le (Nat.not_lt.mp hnone)).symm

/-- What the buffer holds behind the header. -/
theorem HeaderEnds.holds (h : HeaderEnds before piece pos r) {d : DataBuffer}
    (hd : d.Holds (before.flatten ++ piece)) :
    (d.consumeData (pos + 4)).Holds ((before.flatten ++ piece).drop (pos + 4)) :=
  (DataBuffer.consumeData_holds hd (find_eq_some (List.cons_ne_nil 13 [10, 13, 10]) h.found).1).1

/-- The bytes taken again are a piece, too. -/
theorem HeaderEnds.again_pieces (h : HeaderEnds before piece pos r)
    (hafter : ∀ p ∈ after, Piece p) : ∀ p ∈ again pos piece ++ after, Piece p := by
  refine List.forall_mem_append.mpr ⟨?_, hafter⟩
  rw [again]
  split
  · next hmore =>
      refine List.forall_mem_singleton.mpr ⟨fun hnil => ?_, ?_⟩
      · exact absurd (List.drop_eq_nil_iff.mp hnil) (Nat.not_le.mpr hmore)
      · rw [List.length_drop]
        exact Nat.le_trans (Nat.sub_le _ _) h.last.le
  · exact List.forall_mem_nil _

/-- Up to the piece in which the header ends. -/
theorem HeaderEnds.collected (h : HeaderEnds before piece pos r) (host : Host) (key : List UInt8)
    {calls : List DataBuffer.Call}
    (hclear : Trace.EachStep DataBuffer.call DataBuffer.Clear (.make extraLen)
      (before.map .append ++ .append piece :: calls)) :
    ∃ c d, Trace.runOut (onRead host) { key := key } before = .ok (c, []) ∧
      Collecting c key d before.flatten ∧
      Trace.EachStep DataBuffer.call DataBuffer.Clear d (.append piece :: calls) := by
  have hroom := h.room
  rw [List.length_append] at hroom
  exact collect_run before (collecting_start key) h.pieces h.absent hclear
    (by rw [List.nil_append]; omega)

theorem exists_ok_of_all {ε α : Type} {p : α → Prop} [DecidablePred p] {x : Except ε α}
    (h : x.toOption.any (fun a => decide (p a)) = true) : ∃ a, x = .ok a ∧ p a := by
  cases x with
  | error e => cases h
  | ok a => exact ⟨a, rfl, of_decide_eq_true h⟩

theorem map_out_eq {ε α β ω : Type} {x : Except ε (α × ω)} {y : Except ε (β × ω)} {f : α → β}
    {g : ω → ω} (h : x.map (fun so => (f so.1, so.2)) = y.map fun so => (so.1, g so.2)) :
    x.map (fun so => so.2) = y.map fun so => g so.2 := by
  cases x with
  | error e =>
      cases y with
      | error e' =>
          cases h
          rfl
      | ok so => cases h
  | ok so =>
      cases y with
      | error e => cases h
      | ok so' => exact congrArg Except.ok (Prod.ext_iff.mp (Except.ok.inj h)).2

/-- A server's response to the key `0123456789abcdef`. -/
def acceptedHeader : List UInt8 :=
  ascii "HTTP/1.1 101 OK\r\nConnection: upgrade\r\nupgrade: websocket\r\n" ++
    ascii "sec-websocket-accept: BACScCJPNqyz+UBoqMH89VmURoA=\r\n\r\n"

end Ends

end WebSocketClient

end Bifrost.Ws
