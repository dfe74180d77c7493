/-
  Which event texts the client reads back.

  An `EventObject` is a header and a payload in compact JSON, with the seven members that
  `ReadResponseJson` looks for, in any order and among other string members. The scanner
  knows no strings: a comma ends a line wherever it stands, a brace counts wherever it
  stands, and a name is found wherever it stands, the last line that has it wins. So the
  values are read back exactly when the text is `Legible` (`readsBack_iff`): when the lines
  between the braces it finds show them.
-/
import Bifrost.Io.ServerText

namespace Bifrost.Io

open Bifrost.Text Brackets

/-! ## Objects -/

inductive MemberValue where
  | string (value : List UInt8)
  | integer (value : Int)
  deriving DecidableEq

structure Member where
  key : List UInt8
  value : MemberValue
  deriving DecidableEq

/-- The bytes need no escape in a JSON string: no quote, backslash or control character. -/
def Unescaped (bytes : List UInt8) : Prop := ∀ c ∈ bytes, c ≠ 34 ∧ c ≠ 92 ∧ 32 ≤ c

instance : DecidablePred Unescaped := fun bytes =>
  List.decidableBAll (fun c => c ≠ 34 ∧ c ≠ 92 ∧ 32 ≤ c) bytes

def MemberValue.text : MemberValue → List UInt8
  | .string value => 34 :: value ++ [34]
  | .integer value => decimal value

def Member.text (m : Member) : List UInt8 := 34 :: m.key ++ 34 :: 58 :: m.value.text

/-- What stands between the braces of an object. -/
def membersText (members : List Member) : List UInt8 := [44].intercalate (members.map Member.text)

/-- `P` holds of the key and of a string value. -/
def Member.All (P : List UInt8 → Prop) (m : Member) : Prop :=
  P m.key ∧ match m.value with
    | .string value => P value
    | .integer _ => True

instance (P : List UInt8 → Prop) [DecidablePred P] (m : Member) : Decidable (m.All P) :=
  match m with
  | ⟨key, .string value⟩ => inferInstanceAs (Decidable (P key ∧ P value))
  | ⟨key, .integer _⟩ => inferInstanceAs (Decidable (P key ∧ True))

def MemberValue.isString : MemberValue → Bool
  | .string _ => true
  | .integer _ => false

/-- A header and a payload with the members that are looked for, among other string members
    and in any order. -/
structure EventObject where
  header : List Member
  payload : List Member
  messageType : List UInt8
  connectId : List UInt8
  statusMessage : List UInt8
  status : Int
  requestId : List UInt8
  simpleRate : List UInt8
  packOverlap : List UInt8
  header_nodup : (header.map Member.key).Nodup
  payload_nodup : (payload.map Member.key).Nodup
  unescaped : ∀ m ∈ header ++ payload, m.All Unescaped
  messageType_mem : ⟨ascii "messageType", .string messageType⟩ ∈ header
  connectId_mem : ⟨ascii "connectId", .string connectId⟩ ∈ header
  statusMessage_mem : ⟨ascii "statusMessage", .string statusMessage⟩ ∈ header
  status_mem : ⟨ascii "status", .integer status⟩ ∈ header
  requestId_mem : ⟨ascii "requestId", .string requestId⟩ ∈ payload
  simpleRate_mem : ⟨ascii "simpleRate", .string simpleRate⟩ ∈ payload
  packOverlap_mem : ⟨ascii "packOverlap", .string packOverlap⟩ ∈ payload
  header_strings : ∀ m ∈ header, m.key ≠ ascii "status" → m.value.isString
  payload_strings : ∀ m ∈ payload, m.value.isString
  status_int : -2 ^ 31 ≤ status ∧ status < 2 ^ 31

namespace EventObject

/-- What follows the key of the header, its quote and the colon. -/
def behindHeader (o : EventObject) : List UInt8 :=
  123 :: (membersText o.header ++ 125 :: (ascii ",\"payload\":" ++
    123 :: (membersText o.payload ++ [125, 125])))

/-- The compact text. -/
def text (o : EventObject) : List UInt8 := ascii "\x7b\"header\":" ++ o.behindHeader

/-- The response that holds the values. -/
def response (o : EventObject) : WebsocketEventResponse where
  header := ⟨o.messageType, o.connectId, o.statusMessage, o.status⟩
  payload := ⟨o.requestId, o.simpleRate, o.packOverlap⟩

/-- `ReadResponseJson` stores the values, whatever the response held. -/
def ReadsBack (o : EventObject) : Prop :=
  ∀ response, WebsocketClient.readResponseJson response o.text = .ok o.response

end EventObject

/-! ## Lines that show a member -/

/-- Behind the first occurrence of the name there are three bytes, the value, and the byte
    that ends it, which an empty value may lack. -/
def LineShows (name : String) (value line : List UInt8) : Prop :=
  ∃ sep last, Behind (ascii name) line (sep ++ (value ++ last)) ∧ sep.length = 3 ∧
    (last.length = 1 ∨ value = [] ∧ last = [])

/-- One byte behind the first occurrence of the name and its quote there is the integer. -/
def LineShowsStatus (value : Int) (line : List UInt8) : Prop :=
  ∃ rest, Behind (ascii "status\"") line rest ∧ IntegerAhead (rest.drop 1) value

/-- The last of the lines that have the name shows the member. -/
def LastShows (name : List UInt8) (Shows : List UInt8 → Prop) (content : List UInt8) : Prop :=
  ∃ before line after, content.splitOn 44 = before ++ line :: after ∧ Shows line ∧
    ∀ later ∈ after, ¬ name <:+: later

structure HeaderShows (o : EventObject) (content : List UInt8) : Prop where
  messageType : LastShows (ascii "messageType") (LineShows "messageType" o.messageType) content
  connectId : LastShows (ascii "connectId") (LineShows "connectId" o.connectId) content
  statusMessage :
    LastShows (ascii "statusMessage") (LineShows "statusMessage" o.statusMessage) content
  status : LastShows (ascii "status\"") (LineShowsStatus o.status) content

structure PayloadShows (o : EventObject) (content : List UInt8) : Prop where
  requestId : LastShows (ascii "requestId") (LineShows "requestId" o.requestId) content
  simpleRate : LastShows (ascii "simpleRate") (LineShows "simpleRate" o.simpleRate) content
  packOverlap : LastShows (ascii "packOverlap") (LineShows "packOverlap" o.packOverlap) content

/-- The text is harmless; its braces behind the header's key enclose lines that show the
    header's members, and those behind the first `payload` lines that show the payload's. -/
structure Legible (o : EventObject) : Prop where
  harmless : Harmless o.text
  header : ∃ content, Encloses 123 125 content o.behindHeader ∧ HeaderShows o content
  payload : ∃ rest content, Behind (ascii "payload") o.text rest ∧
    Encloses 123 125 content (rest.drop 2) ∧ PayloadShows o content

/-! ## The last line that has a name -/

/-- The last value that the lines give. -/
def lastOf {β : Type} (read : List UInt8 → Except TextFault (Option β)) :
    List (List UInt8) → Option β
  | [] => none
  | line :: lines => (lastOf read lines).or (read line).toOption.join

theorem getD_or {α : Type} (first second : Option α) (a : α) :
    (second.or first).getD a = second.getD (first.getD a) := by
  cases second <;> rfl

/-- An optional value is known from what it does to two different defaults. -/
theorem getD_inj {α : Type} {a b : α} (hab : a ≠ b) {x y : Option α}
    (ha : x.getD a = y.getD a) (hb : x.getD b = y.getD b) : x = y := by
  cases x with
  | none =>
      cases y with
      | none => rfl
      | some v => exact absurd (ha.trans hb.symm) hab
  | some u =>
      cases y with
      | none => exact absurd (ha.symm.trans hb) hab
      | some v => exact congrArg some ha

section Last

variable {σ β : Type} {step : σ → List UInt8 → Except TextFault σ}

/-- A member after a run: the last value given for it, if there is one. -/
theorem get_run (get : σ → β) (read : List UInt8 → Except TextFault (Option β))
    (hstep : ∀ s line s', step s line = .ok s' →
      ∃ value, read line = .ok value ∧ get s' = value.getD (get s)) (lines : List (List UInt8)) :
    ∀ {s s' : σ}, Trace.runE step s lines = .ok s' →
      get s' = (lastOf read lines).getD (get s) := by
  induction lines with
  | nil =>
      intro s s' hrun
      cases hrun
      rfl
  | cons line lines ih =>
      intro s s' hrun
      simp only [Trace.runE] at hrun
      cases hline : step s line with
      | error f => rw [hline] at hrun; cases hrun
      | ok m =>
          rw [hline] at hrun
          obtain ⟨value, hvalue, hget⟩ := hstep s line m hline
          rw [ih hrun, hget, lastOf, hvalue]
          exact (getD_or value _ _).symm

variable {read : List UInt8 → Except TextFault (Option β)} {name : List UInt8}

theorem lastOf_eq_none_iff (hnone : ∀ line, read line = .ok none ↔ ¬ name <:+: line)
    {lines : List (List UInt8)} (hfits : ∀ line ∈ lines, ∃ value, read line = .ok value) :
    lastOf read lines = none ↔ ∀ line ∈ lines, ¬ name <:+: line := by
  induction lines with
  | nil => simp [lastOf]
  | cons line lines ih =>
      obtain ⟨⟨value, hvalue⟩, hfits'⟩ := List.forall_mem_cons.mp hfits
      rw [lastOf, Option.or_eq_none_iff, List.forall_mem_cons, ih hfits', ← hnone, hvalue,
        and_comm]
      cases value <;> simp [Except.toOption]

/-- The last value is that of the last line that has the name. -/
theorem lastOf_eq_some_iff (hnone : ∀ line, read line = .ok none ↔ ¬ name <:+: line)
    {Shows : List UInt8 → Prop} {value : β}
    (hsome : ∀ line, read line = .ok (some value) ↔ Shows line)
    {lines : List (List UInt8)} (hfits : ∀ line ∈ lines, ∃ value, read line = .ok value) :
    lastOf read lines = some value ↔
      ∃ before line after, lines = before ++ line :: after ∧ Shows line ∧
        ∀ later ∈ after, ¬ name <:+: later := by
  induction lines with
  | nil => simp [lastOf]
  | cons line lines ih =>
      obtain ⟨⟨own, hown⟩, hfits'⟩ := List.forall_mem_cons.mp hfits
      have hlater := lastOf_eq_none_iff hnone hfits'
      rw [lastOf, hown]
      constructor
      · intro h
        cases hlast : lastOf read lines with
        | some last =>
            rw [hlast] at h ih
            obtain ⟨before, line', after, rfl, hshows, hafter⟩ := (ih hfits').mp h
            exact ⟨line :: before, line', after, rfl, hshows, hafter⟩
        | none =>
            rw [hlast, Option.none_or] at h
            refine ⟨[], line, lines, rfl, (hsome line).mp ?_, hlater.mp hlast⟩
            rw [hown, ← h]
            rfl
      · rintro ⟨before, line', after, heq, hshows, hafter⟩
        cases before with
        | nil =>
            obtain ⟨rfl, rfl⟩ := List.cons.inj heq
            rw [hlater.mpr hafter, Option.none_or]
            rw [Except.ok.inj (hown.symm.trans ((hsome line).mpr hshows))]
            rfl
        | cons first before =>
            obtain ⟨-, rfl⟩ := List.cons.inj heq
            rw [(ih hfits').mpr ⟨before, line', after, rfl, hshows, hafter⟩]
            rfl

end Last

/-! ## What the lines give -/

theorem stringMember_eq_none_iff {name : String} (hne : ascii name ≠ []) (offset : Nat)
    (line : List UInt8) : stringMember name offset line = .ok none ↔ ¬ ascii name <:+: line := by
  rw [← find_eq_none_iff hne, stringMember]
  cases find (ascii name) line with
  | none => simp
  | some pos =>
      dsimp only
      cases substrCount line (pos + offset) (sizeSub line.length (pos + (offset + 1))) <;>
        simp [Functor.map, Except.map]

/-- A line that shows a member, by what stands behind the name. -/
theorem lineShows_iff {name : String} {value line rest : List UInt8} (hne : ascii name ≠ [])
    (h : Behind (ascii name) line rest) :
    LineShows name value line ↔ 3 ≤ rest.length ∧ (rest.drop 3).dropLast = value := by
  constructor
  · rintro ⟨sep, last, hbehind, hsep, hlast⟩
    obtain rfl := h.unique hne hbehind
    refine ⟨by rw [List.length_append]; omega, ?_⟩
    rw [← hsep, List.drop_left]
    rcases hlast with hone | ⟨rfl, rfl⟩
    · obtain ⟨c, rfl⟩ := List.length_eq_one_iff.mp hone
      exact List.dropLast_concat
    · rfl
  · rintro ⟨hlen, rfl⟩
    have hsep : (rest.take 3).length = 3 := by
      rw [List.length_take]
      omega
    by_cases hnil : rest.drop 3 = []
    · refine ⟨rest.take 3, [], ?_, hsep, Or.inr ⟨by rw [hnil]; rfl, rfl⟩⟩
      have hrest := List.take_append_drop 3 rest
      rw [hnil, List.append_nil] at hrest
      rw [hnil, hrest, List.dropLast_nil, List.nil_append, List.append_nil]
      exact h
    · refine ⟨rest.take 3, [(rest.drop 3).getLast hnil], ?_, hsep, Or.inl rfl⟩
      rw [List.dropLast_concat_getLast hnil, List.take_append_drop]
      exact h

theorem stringMember_eq_some_iff {name : String} (hne : ascii name ≠ []) {offset : Nat}
    (hoffset : offset = (ascii name).length + 3) (value line : List UInt8) :
    stringMember name offset line = .ok (some value) ↔ LineShows name value line := by
  by_cases hoccurs : ascii name <:+: line
  · obtain ⟨rest, hrest⟩ := (exists_behind_iff hne).mpr hoccurs
    rw [stringMember_of_behind hne hoffset hrest, lineShows_iff hne hrest]
    by_cases hshort : rest.length < 3
    · rw [if_pos hshort]
      exact iff_of_false (fun h => by cases h) fun h => absurd h.1 (by omega)
    · rw [if_neg hshort, Except.ok.injEq, Option.some_inj]
      exact (and_iff_right (by omega)).symm
  · rw [stringMember_of_absent hne offset hoccurs]
    refine iff_of_false (fun h => by cases h) ?_
    rintro ⟨sep, last, hbehind, -⟩
    exact hoccurs ((exists_behind_iff hne).mp ⟨_, hbehind⟩)

theorem statusMember_eq_none_iff (line : List UInt8) :
    statusMember line = .ok none ↔ ¬ ascii "status\"" <:+: line := by
  constructor
  · intro h hoccurs
    obtain ⟨rest, hrest⟩ := (exists_behind_iff (by decide)).mpr hoccurs
    obtain ⟨status, hnone, -⟩ := (statusMember_of_behind hrest none).mp h
    cases hnone
  · exact statusMember_of_absent

theorem statusMember_eq_some_iff (value : Int) (line : List UInt8) :
    statusMember line = .ok (some value) ↔ LineShowsStatus value line := by
  constructor
  · intro h
    have hoccurs : ascii "status\"" <:+: line := by
      by_contra hno
      rw [statusMember_of_absent hno] at h
      cases h
    obtain ⟨rest, hrest⟩ := (exists_behind_iff (by decide)).mpr hoccurs
    obtain ⟨status, hsome, hahead⟩ := (statusMember_of_behind hrest _).mp h
    rw [Option.some.inj hsome]
    exact ⟨rest, hrest, hahead⟩
  · rintro ⟨rest, hrest, hahead⟩
    exact (statusMember_of_behind hrest _).mpr ⟨value, rfl, hahead⟩

/-! ## What a group gives -/

section Group

variable {content : List UInt8} {o : EventObject}

theorem lastShows_iff {name : String} (hne : ascii name ≠ []) {offset : Nat}
    (hoffset : offset = (ascii name).length + 3)
    (hfits : ∀ line ∈ content.splitOn 44, StringFits name line) (value : List UInt8) :
    lastOf (stringMember name offset) (content.splitOn 44) = some value ↔
      LastShows (ascii name) (LineShows name value) content :=
  lastOf_eq_some_iff (stringMember_eq_none_iff hne offset)
    (stringMember_eq_some_iff hne hoffset value)
    fun line hline => (stringMember_completes_iff hne hoffset line).mpr (hfits line hline)

theorem lastShowsStatus_iff (hfits : ∀ line ∈ content.splitOn 44, StatusFits line)
    (value : Int) : lastOf statusMember (content.splitOn 44) = some value ↔
      LastShows (ascii "status\"") (LineShowsStatus value) content :=
  lastOf_eq_some_iff statusMember_eq_none_iff (statusMember_eq_some_iff value)
    fun line hline => (statusMember_completes_iff line).mpr (hfits line hline)

theorem header_run {header header' : WebsocketEventResponseHeader} {lines : List (List UInt8)}
    (hrun : Trace.runE readHeaderLine header lines = .ok header') :
    header'.messageType =
      (lastOf (stringMember "messageType" 14) lines).getD header.messageType ∧
    header'.connectId = (lastOf (stringMember "connectId" 12) lines).getD header.connectId ∧
    header'.statusMessage =
      (lastOf (stringMember "statusMessage" 16) lines).getD header.statusMessage ∧
    header'.status = (lastOf statusMember lines).getD header.status := by
  refine ⟨get_run (·.messageType) _ ?_ lines hrun, get_run (·.connectId) _ ?_ lines hrun,
    get_run (·.statusMessage) _ ?_ lines hrun, get_run (·.status) _ ?_ lines hrun⟩
  all_goals
    intro header line header' h
    obtain ⟨_, h₁, _, h₂, _, h₃, _, h₄, rfl⟩ := (readHeaderLine_eq_ok_iff _ _ _).mp h
  · exact ⟨_, h₁, rfl⟩
  · exact ⟨_, h₂, rfl⟩
  · exact ⟨_, h₃, rfl⟩
  · exact ⟨_, h₄, rfl⟩

theorem payload_run {payload payload' : WebsocketEventResponsePayload}
    {lines : List (List UInt8)} (hrun : Trace.runE readPayloadLine payload lines = .ok payload') :
    payload'.requestId = (lastOf (stringMember "requestId" 12) lines).getD payload.requestId ∧
    payload'.simpleRate = (lastOf (stringMember "simpleRate" 13) lines).getD payload.simpleRate ∧
    payload'.packOverlap =
      (lastOf (stringMember "packOverlap" 14) lines).getD payload.packOverlap := by
  refine ⟨get_run (·.requestId) _ ?_ lines hrun, get_run (·.simpleRate) _ ?_ lines hrun,
    get_run (·.packOverlap) _ ?_ lines hrun⟩
  all_goals
    intro payload line payload' h
    obtain ⟨_, h₁, _, h₂, _, h₃, rfl⟩ := (readPayloadLine_eq_ok_iff _ _ _).mp h
  · exact ⟨_, h₁, rfl⟩
  · exact ⟨_, h₂, rfl⟩
  · exact ⟨_, h₃, rfl⟩

/-- Lines that fit give the header's members to every header exactly when they show them. -/
theorem headerShows_iff (hfits : ∀ line ∈ content.splitOn 44, HeaderLineFits line) :
    (∀ header, Trace.runE readHeaderLine header (content.splitOn 44) =
      .ok o.response.header) ↔ HeaderShows o content := by
  have hmessageType := @lastShows_iff content "messageType" (by decide) 14 (by decide)
    (fun line hline => (hfits line hline).messageType) o.messageType
  have hconnectId := @lastShows_iff content "connectId" (by decide) 12 (by decide)
    (fun line hline => (hfits line hline).connectId) o.connectId
  have hstatusMessage := @lastShows_iff content "statusMessage" (by decide) 16 (by decide)
    (fun line hline => (hfits line hline).statusMessage) o.statusMessage
  have hstatus := lastShowsStatus_iff (fun line hline => (hfits line hline).status) o.status
  constructor
  · intro hall
    -- two headers that hold different values
    obtain ⟨h₁, h₂, h₃, h₄⟩ := header_run (hall ⟨[], [], [], 0⟩)
    obtain ⟨h₁', h₂', h₃', h₄'⟩ := header_run (hall ⟨[0], [0], [0], 1⟩)
    have hne : ([] : List UInt8) ≠ [0] := by decide
    have hne' : (0 : Int) ≠ 1 := by decide
    exact ⟨hmessageType.mp (getD_inj hne h₁.symm h₁'.symm),
      hconnectId.mp (getD_inj hne h₂.symm h₂'.symm),
      hstatusMessage.mp (getD_inj hne h₃.symm h₃'.symm),
      hstatus.mp (getD_inj hne' h₄.symm h₄'.symm)⟩
  · intro h header
    obtain ⟨header', hrun⟩ :=
      (Trace.runE_completes_iff readHeaderLine_fits_iff header _).mpr hfits
    obtain ⟨h₁, h₂, h₃, h₄⟩ := header_run hrun
    rw [hmessageType.mpr h.messageType] at h₁
    rw [hconnectId.mpr h.connectId] at h₂
    rw [hstatusMessage.mpr h.statusMessage] at h₃
    rw [hstatus.mpr h.status] at h₄
    rw [hrun]
    cases header'
    exact congrArg Except.ok (by simp only [EventObject.response] at *; simp [h₁, h₂, h₃, h₄])

theorem payloadShows_iff (hfits : ∀ line ∈ content.splitOn 44, PayloadLineFits line) :
    (∀ payload, Trace.runE readPayloadLine payload (content.splitOn 44) =
      .ok o.response.payload) ↔ PayloadShows o content := by
  have hrequestId := @lastShows_iff content "requestId" (by decide) 12 (by decide)
    (fun line hline => (hfits line hline).requestId) o.requestId
  have hsimpleRate := @lastShows_iff content "simpleRate" (by decide) 13 (by decide)
    (fun line hline => (hfits line hline).simpleRate) o.simpleRate
  have hpackOverlap := @lastShows_iff content "packOverlap" (by decide) 14 (by decide)
    (fun line hline => (hfits line hline).packOverlap) o.packOverlap
  constructor
  · intro hall
    obtain ⟨h₁, h₂, h₃⟩ := payload_run (hall ⟨[], [], []⟩)
    obtain ⟨h₁', h₂', h₃'⟩ := payload_run (hall ⟨[0], [0], [0]⟩)
    have hne : ([] : List UInt8) ≠ [0] := by decide
    exact ⟨hrequestId.mp (getD_inj hne h₁.symm h₁'.symm),
      hsimpleRate.mp (getD_inj hne h₂.symm h₂'.symm),
      hpackOverlap.mp (getD_inj hne h₃.symm h₃'.symm)⟩
  · intro h payload
    obtain ⟨payload', hrun⟩ :=
      (Trace.runE_completes_iff readPayloadLine_fits_iff payload _).mpr hfits
    obtain ⟨h₁, h₂, h₃⟩ := payload_run hrun
    rw [hrequestId.mpr h.requestId] at h₁
    rw [hsimpleRate.mpr h.simpleRate] at h₂
    rw [hpackOverlap.mpr h.packOverlap] at h₃
    rw [hrun]
    cases payload'
    exact congrArg Except.ok (by simp only [EventObject.response] at *; simp [h₁, h₂, h₃])

/-- A group that fits gives its target to every start exactly when what its braces enclose
    shows it. -/
theorem group_shows_iff {σ : Type} {step : σ → List UInt8 → Except TextFault σ} {target : σ}
    {LineFits Shows : List UInt8 → Prop}
    (hshows : ∀ {content : List UInt8}, (∀ line ∈ content.splitOn 44, LineFits line) →
      ((∀ s, Trace.runE step s (content.splitOn 44) = .ok target) ↔ Shows content))
    {key : String} (hne : ascii key ≠ []) {text rest : List UInt8}
    (hfits : GroupFits key LineFits text) (hrest : Behind (ascii key) text rest) :
    (∀ s, if ascii key <:+: text then
        ∃ rest content, Behind (ascii key) text rest ∧ Encloses 123 125 content (rest.drop 2) ∧
          Trace.runE step s (content.splitOn 44) = .ok target
      else target = s) ↔
    ∃ content, Encloses 123 125 content (rest.drop 2) ∧ Shows content := by
  obtain ⟨content, hgroup, hlines⟩ := hfits rest hrest
  simp only [if_pos ((exists_behind_iff hne).mp ⟨rest, hrest⟩)]
  constructor
  · intro h
    refine ⟨content, hgroup, (hshows hlines).mp fun s => ?_⟩
    obtain ⟨rest', content', hrest', hgroup', hrun⟩ := h s
    obtain rfl := hrest.unique hne hrest'
    rwa [hgroup.unique (by decide) hgroup']
  · rintro ⟨content', hgroup', h⟩ s
    obtain rfl := hgroup.unique (by decide) hgroup'
    exact ⟨rest, content, hrest, hgroup, (hshows hlines).mpr h s⟩

end Group

/-! ## Reading back -/

namespace EventObject

variable (o : EventObject)

/-- The first `header` of the text is the key. -/
theorem behind_header : Behind (ascii "header") o.text (ascii "\":" ++ o.behindHeader) :=
  @behind_of_head_notMem (ascii "header") (ascii "\x7b\"") _ 104 (by decide) (by decide)

variable {o}

theorem readHeader_iff (hfits : GroupFits "header" HeaderLineFits o.text) :
    (∀ header, readHeader header o.text = .ok o.response.header) ↔
      ∃ content, Encloses 123 125 content o.behindHeader ∧ HeaderShows o content := by
  simp only [readHeader_eq_ok_iff]
  exact group_shows_iff headerShows_iff (by decide) hfits o.behind_header

theorem readPayload_iff (hfits : GroupFits "payload" PayloadLineFits o.text)
    (hoccurs : ascii "payload" <:+: o.text) :
    (∀ payload, readPayload (WebsocketClient.payloadStart o.text) payload o.text =
      .ok o.response.payload) ↔
      ∃ rest content, Behind (ascii "payload") o.text rest ∧
        Encloses 123 125 content (rest.drop 2) ∧ PayloadShows o content := by
  have hne : ascii "payload" ≠ [] := by decide
  obtain ⟨rest, hrest⟩ := (exists_behind_iff hne).mpr hoccurs
  simp only [readPayload_eq_ok_iff]
  rw [group_shows_iff payloadShows_iff hne hfits hrest]
  constructor
  · rintro ⟨content, hgroup, h⟩
    exact ⟨rest, content, hrest, hgroup, h⟩
  · rintro ⟨rest', content, hrest', hgroup, h⟩
    obtain rfl := hrest.unique hne hrest'
    exact ⟨content, hgroup, h⟩

/-- The text from the key of the payload on. -/
theorem text_eq : o.text =
    ascii "\x7b\"header\":" ++ 123 :: (membersText o.header ++ 125 :: ascii ",\"") ++
      (ascii "payload" ++ (ascii "\":" ++ 123 :: (membersText o.payload ++ [125, 125]))) := by
  have hkey : ascii ",\"payload\":" = ascii ",\"" ++ ascii "payload" ++ ascii "\":" := by decide
  rw [text, behindHeader, hkey]
  simp

theorem payload_occurs : ascii "payload" <:+: o.text :=
  ⟨_, _, (List.append_assoc _ _ _).trans text_eq.symm⟩

/-- **The values are read back exactly when the text is legible.** -/
theorem readsBack_iff (o : EventObject) : o.ReadsBack ↔ Legible o := by
  have hsplit : Harmless o.text → (o.ReadsBack ↔
      (∀ header, readHeader header o.text = .ok o.response.header) ∧
      ∀ payload, readPayload (WebsocketClient.payloadStart o.text) payload o.text =
        .ok o.response.payload) := by
    intro hharmless
    simp only [ReadsBack, readResponseJson_eq_ok_iff]
    constructor
    · intro h
      exact ⟨fun header => (h ⟨header, ⟨[], [], []⟩⟩).2.1,
        fun payload => (h ⟨⟨[], [], [], 0⟩, payload⟩).2.2⟩
    · exact fun h response => ⟨hharmless.nonempty, h.1 response.header, h.2 response.payload⟩
  constructor
  · intro h
    have hharmless := (readResponseJson_completes_iff o.response o.text).mp
      ⟨o.response, h o.response⟩
    obtain ⟨hheader, hpayload⟩ := (hsplit hharmless).mp h
    exact ⟨hharmless, (readHeader_iff hharmless.header).mp hheader,
      (readPayload_iff hharmless.payload payload_occurs).mp hpayload⟩
  · intro h
    exact (hsplit h.harmless).mpr ⟨(readHeader_iff h.harmless.header).mpr h.header,
      (readPayload_iff h.harmless.payload payload_occurs).mpr h.payload⟩

/-- An object whose status message has a comma. -/
def notFound : EventObject where
  header := [⟨ascii "messageType", .string (ascii "a")⟩, ⟨ascii "connectId", .string (ascii "b")⟩,
    ⟨ascii "statusMessage", .string (ascii "not found, sorry")⟩, ⟨ascii "status", .integer 404⟩]
  payload := [⟨ascii "requestId", .string (ascii "r")⟩,
    ⟨ascii "simpleRate", .string (ascii "16000")⟩, ⟨ascii "packOverlap", .string (ascii "0")⟩]
  messageType := ascii "a"
  connectId := ascii "b"
  statusMessage := ascii "not found, sorry"
  status := 404
  requestId := ascii "r"
  simpleRate := ascii "16000"
  packOverlap := ascii "0"
  header_nodup := by decide
  payload_nodup := by decide
  unescaped := by decide
  messageType_mem := by decide
  connectId_mem := by decide
  statusMessage_mem := by decide
  status_mem := by decide
  requestId_mem := by decide
  simpleRate_mem := by decide
  packOverlap_mem := by decide
  header_strings := by decide
  payload_strings := by decide
  status_int := by decide

/-- Its status message is cut at the comma. -/
theorem not_found_cut : ∃ response,
    WebsocketClient.readResponseJson WebsocketClient.emptyResponse notFound.text = .ok response ∧
    response.header.statusMessage = ascii "not foun" ∧ ¬ notFound.ReadsBack := by
  have hread : WebsocketClient.readResponseJson WebsocketClient.emptyResponse notFound.text =
    .ok ⟨⟨ascii "a", ascii "b", ascii "not foun", 404⟩, notFound.response.payload⟩ := by
      decide +kernel
  refine ⟨_, hread, rfl, fun h => ?_⟩
  have hcut := congrArg (fun r => r.header.statusMessage)
    (Except.ok.inj (hread.symm.trans (h WebsocketClient.emptyResponse)))
  exact absurd hcut (by decide)

end EventObject

end Bifrost.Io
