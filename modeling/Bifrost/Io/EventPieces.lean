/-
  What the scanner of the event texts finds, said of the texts alone.

  * `FindParentheses` completes exactly on a text whose first braces are balanced, with the
    places of these (`findParentheses_eq_ok_iff`), so that `braceGroup` is what they enclose
    (`braceGroup_eq_ok_iff`).
  * `StringSplit` at the commas drops an empty last piece, in which nothing is found
    (`runE_stringSplit`).
  * A string member is what stands three bytes behind its name, less the last byte
    (`stringMember_of_behind`); the status is the integer one byte behind its name and quote
    (`statusMember_of_behind`).
-/
import Bifrost.Io.EventText
import Bifrost.Lib.Brackets

namespace Bifrost.Io

open Bifrost.Text Brackets

/-! ## Completion -/

theorem substrCount_completes_iff (text : List UInt8) (pos count : Nat) :
    (∃ piece, substrCount text pos count = .ok piece) ↔ pos ≤ text.length := by
  unfold substrCount
  split_ifs with h
  · simp [h]
  · simpa using h

/-- Every member that a line names can be read. -/
def LineReadable (line : List UInt8) : Prop :=
  (∃ value, stringMember "messageType" 14 line = .ok value) ∧
  (∃ value, stringMember "connectId" 12 line = .ok value) ∧
  (∃ value, stringMember "statusMessage" 16 line = .ok value) ∧
  ∃ value, statusMember line = .ok value

/-- A header line that is read has its four members, each found or not. -/
theorem readHeaderLine_eq_ok_iff (header header' : WebsocketEventResponseHeader)
    (line : List UInt8) : readHeaderLine header line = .ok header' ↔
      ∃ messageType, stringMember "messageType" 14 line = .ok messageType ∧
      ∃ connectId, stringMember "connectId" 12 line = .ok connectId ∧
      ∃ statusMessage, stringMember "statusMessage" 16 line = .ok statusMessage ∧
      ∃ status, statusMember line = .ok status ∧
        WebsocketEventResponseHeader.mk (messageType.getD header.messageType)
          (connectId.getD header.connectId) (statusMessage.getD header.statusMessage)
          (status.getD header.status) = header' := by
  simp only [readHeaderLine, bind_eq_ok, Except.ok.injEq]

theorem readPayloadLine_eq_ok_iff (payload payload' : WebsocketEventResponsePayload)
    (line : List UInt8) : readPayloadLine payload line = .ok payload' ↔
      ∃ requestId, stringMember "requestId" 12 line = .ok requestId ∧
      ∃ simpleRate, stringMember "simpleRate" 13 line = .ok simpleRate ∧
      ∃ packOverlap, stringMember "packOverlap" 14 line = .ok packOverlap ∧
        WebsocketEventResponsePayload.mk (requestId.getD payload.requestId)
          (simpleRate.getD payload.simpleRate) (packOverlap.getD payload.packOverlap) =
          payload' := by
  simp only [readPayloadLine, bind_eq_ok, Except.ok.injEq]

theorem readHeaderLine_completes_iff (header : WebsocketEventResponseHeader)
    (line : List UInt8) :
    (∃ header', readHeaderLine header line = .ok header') ↔ LineReadable line := by
  constructor
  · rintro ⟨header', h⟩
    obtain ⟨_, h₁, _, h₂, _, h₃, _, h₄, -⟩ := (readHeaderLine_eq_ok_iff _ _ _).mp h
    exact ⟨⟨_, h₁⟩, ⟨_, h₂⟩, ⟨_, h₃⟩, _, h₄⟩
  · rintro ⟨⟨_, h₁⟩, ⟨_, h₂⟩, ⟨_, h₃⟩, _, h₄⟩
    exact ⟨_, (readHeaderLine_eq_ok_iff _ _ _).mpr ⟨_, h₁, _, h₂, _, h₃, _, h₄, rfl⟩⟩

/-! ## Braces -/

theorem findParenthesesLoop_skip {body : List UInt8} (h : ∀ c ∈ body, c ≠ 123 ∧ c ≠ 125)
    (parentheses : List (UInt8 × Nat)) (i : Nat) (rest : List UInt8) :
    findParenthesesLoop parentheses i (body ++ rest) =
      findParenthesesLoop parentheses (i + body.length) rest := by
  induction body generalizing i with
  | nil => rfl
  | cons c body ih =>
      obtain ⟨hopen, hclose⟩ := h c List.mem_cons_self
      simp only [List.cons_append, findParenthesesLoop, if_neg hopen, if_neg hclose]
      rw [ih (fun d hd => h d (List.mem_cons_of_mem c hd)), List.length_cons, Nat.add_right_comm,
        Nat.add_assoc]

section Braces

variable {parentheses : List (UInt8 × Nat)} {i : Nat} {text : List UInt8}

theorem findParenthesesLoop_open : findParenthesesLoop parentheses i (123 :: text) =
    findParenthesesLoop ((123, i) :: parentheses) (i + 1) text := by
  rw [findParenthesesLoop.eq_def]
  rfl

theorem findParenthesesLoop_close {top : UInt8 × Nat} :
    findParenthesesLoop (top :: parentheses) i (125 :: text) =
      if parentheses = [] then .ok (top.2 + 1, i)
      else findParenthesesLoop parentheses (i + 1) text := by
  cases parentheses <;> rfl

theorem findParenthesesLoop_plain {c : UInt8} (hopen : c ≠ 123) (hclose : c ≠ 125) :
    findParenthesesLoop parentheses i (c :: text) =
      findParenthesesLoop parentheses (i + 1) text := by
  rw [findParenthesesLoop.eq_def]
  dsimp only
  rw [if_neg hopen, if_neg hclose]

/-- Inside braces a balanced piece is passed over. -/
theorem findParenthesesLoop_balanced {body : List UInt8} (h : Balanced 123 125 body) :
    ∀ {top : UInt8 × Nat} {parentheses : List (UInt8 × Nat)} {i : Nat} {rest : List UInt8},
      findParenthesesLoop (top :: parentheses) i (body ++ rest) =
        findParenthesesLoop (top :: parentheses) (i + body.length) rest := by
  induction h with
  | nil => intros; rfl
  | plain hopen hclose _ ih =>
      intro top parentheses i rest
      rw [List.cons_append, findParenthesesLoop_plain hopen hclose, ih, List.length_cons,
        Nat.add_right_comm, Nat.add_assoc]
  | @group s t _ _ ih₁ ih₂ =>
      intro top parentheses i rest
      have hgroup : 123 :: (s ++ 125 :: t) ++ rest = 123 :: (s ++ 125 :: (t ++ rest)) := by simp
      rw [hgroup, findParenthesesLoop_open, ih₁, findParenthesesLoop_close,
        if_neg (List.cons_ne_nil _ _), ih₂]
      congr 1
      simp only [List.length_cons, List.length_append]
      omega

/-- Where the loop completes inside braces, they are closed behind a balanced piece. -/
theorem findParenthesesLoop_closes (n : Nat) : ∀ {top : UInt8 × Nat}
    {parentheses : List (UInt8 × Nat)} {i : Nat} {text : List UInt8} {result : Nat × Nat},
    text.length ≤ n → findParenthesesLoop (top :: parentheses) i text = .ok result →
    ∃ body rest, text = body ++ 125 :: rest ∧ Balanced 123 125 body ∧
      (if parentheses = [] then .ok (top.2 + 1, i + body.length)
      else findParenthesesLoop parentheses (i + body.length + 1) rest) =
        (.ok result : Except TextFault _) := by
  induction n with
  | zero =>
      intro top parentheses i text result hlen h
      rw [List.eq_nil_of_length_eq_zero (Nat.le_zero.mp hlen)] at h
      cases h
  | succ n ih =>
      intro top parentheses i text result hlen h
      cases text with
      | nil => cases h
      | cons c text =>
          have hlen' : text.length ≤ n := Nat.le_of_succ_le_succ hlen
          by_cases hopen : c = 123
          · -- an inner group, and then the rest of the piece
            subst hopen
            rw [findParenthesesLoop_open] at h
            obtain ⟨s, rest, rfl, hs, hgoes⟩ := ih hlen' h
            rw [if_neg (List.cons_ne_nil _ _)] at hgoes
            obtain ⟨t, rest', rfl, ht, hresult⟩ :=
              ih (by simp only [List.length_append, List.length_cons] at hlen'; omega) hgoes
            refine ⟨123 :: (s ++ 125 :: t), rest', by simp, .group hs ht, ?_⟩
            have hlength : i + (123 :: (s ++ 125 :: t)).length =
                i + 1 + s.length + 1 + t.length := by
              simp only [List.length_cons, List.length_append]
              omega
            rw [hlength]
            exact hresult
          · by_cases hclose : c = 125
            · subst hclose
              rw [findParenthesesLoop_close] at h
              exact ⟨[], text, rfl, .nil, h⟩
            · rw [findParenthesesLoop_plain hopen hclose] at h
              obtain ⟨body, rest, rfl, hbody, hresult⟩ := ih hlen' h
              refine ⟨c :: body, rest, rfl, .plain hopen hclose hbody, ?_⟩
              rw [List.length_cons, ← Nat.add_assoc, Nat.add_right_comm]
              exact hresult

/-- In front of the first brace nothing is kept. -/
theorem findParenthesesLoop_outside (text : List UInt8) : ∀ {i : Nat} {result : Nat × Nat},
    findParenthesesLoop [] i text = .ok result →
    ∃ before rest, text = before ++ 123 :: rest ∧ (∀ c ∈ before, c ≠ 123 ∧ c ≠ 125) ∧
      findParenthesesLoop [(123, i + before.length)] (i + before.length + 1) rest =
        .ok result := by
  induction text with
  | nil => intro i result h; cases h
  | cons c text ih =>
      intro i result h
      by_cases hopen : c = 123
      · subst hopen
        rw [findParenthesesLoop_open] at h
        exact ⟨[], text, rfl, List.forall_mem_nil _, h⟩
      · by_cases hclose : c = 125
        · subst hclose
          cases h
        · rw [findParenthesesLoop_plain hopen hclose] at h
          obtain ⟨before, rest, rfl, hbefore, hresult⟩ := ih h
          refine ⟨c :: before, rest, rfl, List.forall_mem_cons.mpr ⟨⟨hopen, hclose⟩, hbefore⟩, ?_⟩
          rw [List.length_cons, ← Nat.add_assoc, Nat.add_right_comm i]
          exact hresult

/-- **`FindParentheses` completes exactly where the first braces are balanced**, with the
    places behind the opening brace and of the closing one. -/
theorem findParentheses_eq_ok_iff (text : List UInt8) (result : Nat × Nat) :
    findParentheses text = .ok result ↔
      ∃ before content after, text = before ++ 123 :: (content ++ 125 :: after) ∧
        (∀ c ∈ before, c ≠ 123 ∧ c ≠ 125) ∧ Balanced 123 125 content ∧
        result = (before.length + 1, before.length + 1 + content.length) := by
  constructor
  · intro h
    obtain ⟨before, rest, rfl, hbefore, hinside⟩ := findParenthesesLoop_outside text h
    obtain ⟨content, after, rfl, hcontent, hresult⟩ :=
      findParenthesesLoop_closes rest.length (Nat.le_refl _) hinside
    rw [if_pos rfl, Nat.zero_add] at hresult
    exact ⟨before, content, after, rfl, hbefore, hcontent, (Except.ok.inj hresult).symm⟩
  · rintro ⟨before, content, after, rfl, hbefore, hcontent, rfl⟩
    rw [findParentheses, findParenthesesLoop_skip hbefore, findParenthesesLoop_open,
      findParenthesesLoop_balanced hcontent, findParenthesesLoop_close, if_pos rfl, Nat.zero_add]

theorem substrCount_append {before piece after : List UInt8} :
    substrCount (before ++ (piece ++ after)) before.length piece.length = .ok piece := by
  rw [substrCount, if_neg (by simp), List.drop_left, List.take_left]

/-- **The group that is read is what the first braces enclose.** -/
theorem braceGroup_eq_ok_iff (text : List UInt8) (start : Nat) (content : List UInt8) :
    braceGroup text start = .ok content ↔ Encloses 123 125 content (text.drop start) := by
  have hcut : ∀ {before content after : List UInt8},
      substrCount (before ++ 123 :: (content ++ 125 :: after)) (before.length + 1)
        (sizeSub (before.length + 1 + content.length) (before.length + 1)) = .ok content := by
    intro before content after
    rw [sizeSub, if_pos (Nat.le_add_right _ _), Nat.add_sub_cancel_left]
    have hsub := @substrCount_append (before ++ [123]) content (125 :: after)
    rw [List.append_assoc, List.length_append] at hsub
    exact hsub
  unfold braceGroup substr
  by_cases hstart : start > text.length
  · rw [if_pos hstart, List.drop_eq_nil_of_le (Nat.le_of_lt hstart)]
    refine iff_of_false (fun h => by cases h) ?_
    rintro ⟨before, after, heq, -⟩
    simp at heq
  · rw [if_neg hstart]
    simp only [bind_eq_ok, Except.ok.injEq, exists_eq_left', findParentheses_eq_ok_iff]
    constructor
    · rintro ⟨_, ⟨before, content', after, heq, hbefore, hcontent, rfl⟩, hsub⟩
      rw [heq, hcut] at hsub
      obtain rfl := Except.ok.inj hsub
      exact ⟨before, after, heq, hbefore, hcontent⟩
    · rintro ⟨before, after, heq, hbefore, hcontent⟩
      refine ⟨_, ⟨before, content, after, heq, hbefore, hcontent, rfl⟩, ?_⟩
      rw [heq, hcut]

end Braces

/-! ## Commas -/

theorem find_comma {text : List UInt8} :
    (find (ascii ",") text = none ∧ 44 ∉ text) ∨
    ∃ before rest, find (ascii ",") text = some before.length ∧ text = before ++ 44 :: rest ∧
      44 ∉ before := by
  rcases find_cases (show ascii "," ≠ [] by decide) text with ⟨hnone, hno⟩ |
    ⟨before, rest, hsome, htext, hfirst⟩
  · refine Or.inl ⟨hnone, fun hmem => ?_⟩
    obtain ⟨earlier, rest, heq⟩ := List.append_of_mem hmem
    exact hno earlier ⟨rest, by rw [heq, List.append_assoc]; rfl⟩
  · refine Or.inr ⟨before, rest, hsome, htext, fun hmem => ?_⟩
    obtain ⟨earlier, rest', heq⟩ := List.append_of_mem hmem
    have hle := hfirst earlier ⟨rest' ++ (ascii "," ++ rest), by
      rw [htext, heq, List.append_assoc, List.append_assoc]
      rfl⟩
    rw [heq, List.length_append, List.length_cons] at hle
    omega

section Pieces

variable {σ φ : Type} {step : σ → List UInt8 → Except φ σ}

theorem runE_stringSplitLoop (hstep : ∀ s, step s [] = .ok s) (fuel : Nat) :
    ∀ {text : List UInt8} (s : σ), text ≠ [] → text.length ≤ fuel →
      Trace.runE step s (stringSplitLoop (ascii ",") fuel text) =
        Trace.runE step s (text.splitOn 44) := by
  induction fuel with
  | zero =>
      intro text s hne hlen
      exact absurd (List.eq_nil_of_length_eq_zero (Nat.le_zero.mp hlen)) hne
  | succ fuel ih =>
      intro text s hne hlen
      rw [stringSplitLoop]
      rcases @find_comma text with ⟨hnone, hno⟩ | ⟨before, rest, hsome, rfl, hno⟩
      · rw [hnone, List.splitOn_eq_singleton hno]
      · have hdrop : (before ++ 44 :: rest).drop (before.length + (ascii ",").length) = rest := by
          rw [show before ++ 44 :: rest = (before ++ [44]) ++ rest by simp,
            show before.length + (ascii ",").length = (before ++ [44]).length by simp; rfl,
            List.drop_left]
        rw [hsome, List.splitOn_append_cons_self_of_not_mem hno]
        dsimp only
        rw [hdrop, List.take_left]
        simp only [Trace.runE]
        cases step s before with
        | error f => rfl
        | ok s' =>
            dsimp only
            by_cases hrest : rest = []
            · -- an empty last piece is dropped, and changes nothing
              subst hrest
              simp [Trace.runE, hstep]
            · rw [if_pos (List.length_pos_iff.mpr hrest)]
              refine ih s' hrest ?_
              simp only [List.length_append, List.length_cons] at hlen
              omega

/-- A run over the pieces between the commas. -/
theorem runE_stringSplit (hstep : ∀ s, step s [] = .ok s) (text : List UInt8) (s : σ) :
    Trace.runE step s (stringSplit text (ascii ",")) = Trace.runE step s (text.splitOn 44) := by
  unfold stringSplit
  by_cases hne : text = []
  · subst hne
    simp [Trace.runE, hstep]
  · rw [if_neg (by simpa using hne)]
    exact runE_stringSplitLoop hstep _ s hne (Nat.le_refl _)

end Pieces

/-! ## Members -/

section Members

variable {name : String} {line rest : List UInt8}

theorem stringMember_of_absent (hne : ascii name ≠ []) (offset : Nat)
    (h : ¬ ascii name <:+: line) : stringMember name offset line = .ok none := by
  rw [stringMember, (find_eq_none_iff hne).mpr h]

/-- The place that is found, and what stands behind it. -/
theorem find_of_behind {pattern : List UInt8} (hne : pattern ≠ []) (h : Behind pattern line rest) :
    ∃ pos, find pattern line = some pos ∧ line.length = pos + pattern.length + rest.length ∧
      ∀ n, line.drop (pos + pattern.length + n) = rest.drop n := by
  cases hfind : find pattern line with
  | none => exact absurd h (not_behind_of_find_none hne hfind rest)
  | some pos =>
      obtain ⟨hfits, hbehind⟩ := find_eq_some hne hfind
      obtain rfl := (hbehind rest).mp h
      refine ⟨pos, rfl, ?_, fun n => ?_⟩
      · rw [List.length_drop]
        omega
      · rw [List.drop_drop]

/-- A string member: three bytes behind the name, less the last byte. -/
theorem stringMember_of_behind (hne : ascii name ≠ []) {offset : Nat}
    (hoffset : offset = (ascii name).length + 3) (h : Behind (ascii name) line rest) :
    stringMember name offset line =
      if rest.length < 3 then .error .outOfRange else .ok (some (rest.drop 3).dropLast) := by
  obtain ⟨pos, hfind, hlen, hdrop⟩ := find_of_behind hne h
  rw [stringMember, hfind]
  dsimp only
  rw [substrCount, hoffset, ← Nat.add_assoc, hdrop]
  by_cases hshort : rest.length < 3
  · rw [if_pos hshort, if_pos (by omega)]
    rfl
  · rw [if_neg hshort, if_neg (by omega)]
    have htake : (rest.drop 3).take (sizeSub line.length
        (pos + ((ascii name).length + 3 + 1))) = (rest.drop 3).dropLast := by
      unfold sizeSub
      split
      · rw [List.dropLast_eq_take, List.length_drop]
        congr 1
        omega
      · -- no byte is left, and the count wraps around
        rw [List.drop_eq_nil_of_le (by omega), List.take_nil]
        rfl
    rw [htake]
    rfl

theorem statusMember_of_absent (h : ¬ ascii "status\"" <:+: line) :
    statusMember line = .ok none := by
  rw [statusMember, (find_eq_none_iff (by decide)).mpr h]

theorem not_integerAhead_nil (value : Int) : ¬ IntegerAhead [] value := by
  rintro ⟨blanks, sgn, digits, rest, heq, -, -, hne, -⟩
  simp only [List.nil_eq, List.append_eq_nil_iff] at heq
  exact hne heq.2.2.1

/-- The status: the integer one byte behind the name and its quote. -/
theorem statusMember_of_behind (h : Behind (ascii "status\"") line rest) (value : Option Int) :
    statusMember line = .ok value ↔
      ∃ status, value = some status ∧ IntegerAhead (rest.drop 1) status := by
  obtain ⟨pos, hfind, hlen, hdrop⟩ := find_of_behind (by decide) h
  have hname : (ascii "status\"").length = 7 := by decide
  rw [hname] at hlen hdrop
  rw [statusMember, hfind]
  dsimp only
  rw [substrCount, show pos + 8 = pos + 7 + 1 from rfl, hdrop]
  by_cases hshort : rest = []
  · subst hshort
    rw [if_pos (by rw [hlen]; simp)]
    refine iff_of_false (fun h => by cases h) ?_
    rintro ⟨status, -, hahead⟩
    exact not_integerAhead_nil status hahead
  · have hpos := List.length_pos_iff.mpr hshort
    have htake : (rest.drop 1).take (sizeSub line.length (pos + 7 + 1)) = rest.drop 1 := by
      rw [sizeSub, if_pos (by omega)]
      exact List.take_of_length_le (by rw [List.length_drop]; omega)
    rw [if_neg (by omega), htake]
    simp only [bind, Except.bind, ← stoi_eq_ok_iff]
    cases stoi (rest.drop 1) with
    | error f => simp [Functor.map, Except.map]
    | ok status =>
        simp only [Functor.map, Except.map, Except.ok.injEq]
        constructor
        · rintro rfl
          exact ⟨status, rfl, rfl⟩
        · rintro ⟨_, rfl, rfl⟩
          rfl

theorem stringMember_completes_iff (hne : ascii name ≠ []) {offset : Nat}
    (hoffset : offset = (ascii name).length + 3) (line : List UInt8) :
    (∃ value, stringMember name offset line = .ok value) ↔
      ∀ rest, Behind (ascii name) line rest → 3 ≤ rest.length := by
  cases hfind : find (ascii name) line with
  | none =>
      refine iff_of_true ⟨none, by rw [stringMember, hfind]⟩ fun rest hrest => ?_
      exact absurd hrest (not_behind_of_find_none hne hfind rest)
  | some pos =>
      have hbehind := ((find_eq_some hne hfind).2 _).mpr rfl
      rw [stringMember_of_behind hne hoffset hbehind]
      constructor
      · rintro ⟨value, hvalue⟩ rest hrest
        obtain rfl := ((find_eq_some hne hfind).2 rest).mp hrest
        by_contra hshort
        rw [if_pos (by omega)] at hvalue
        cases hvalue
      · intro hfits
        exact ⟨_, if_neg (Nat.not_lt.mpr (hfits _ hbehind))⟩

theorem statusMember_completes_iff (line : List UInt8) :
    (∃ value, statusMember line = .ok value) ↔ ∀ rest,
      Behind (ascii "status\"") line rest → ∃ status, IntegerAhead (rest.drop 1) status := by
  have hne : ascii "status\"" ≠ [] := by decide
  cases hfind : find (ascii "status\"") line with
  | none =>
      refine iff_of_true ⟨none, by rw [statusMember, hfind]⟩ fun rest hrest => ?_
      exact absurd hrest (not_behind_of_find_none hne hfind rest)
  | some pos =>
      have hbehind := ((find_eq_some hne hfind).2 _).mpr rfl
      constructor
      · rintro ⟨value, hvalue⟩ rest hrest
        obtain ⟨status, -, hahead⟩ := (statusMember_of_behind hrest value).mp hvalue
        exact ⟨status, hahead⟩
      · intro hahead
        obtain ⟨status, hstatus⟩ := hahead _ hbehind
        exact ⟨some status, (statusMember_of_behind hbehind _).mpr ⟨status, rfl, hstatus⟩⟩

end Members

/-! ## Groups -/

/-- What is read of a key's group: nothing without the key; otherwise the pieces between the
    first braces from two bytes behind the key on. -/
theorem group_eq_ok_iff {σ : Type} {step : σ → List UInt8 → Except TextFault σ}
    (hstep : ∀ s, step s [] = .ok s) {key text : List UInt8} (hne : key ≠ []) (s s' : σ) :
    ((match find key text with
      | none => .ok s
      | some pos => do
        let content ← braceGroup text (pos + key.length + 2)
        Trace.runE step s (stringSplit content (ascii ",")) : Except TextFault σ) = .ok s') ↔
    if key <:+: text then
      ∃ rest content, Behind key text rest ∧ Encloses 123 125 content (rest.drop 2) ∧
        Trace.runE step s (content.splitOn 44) = .ok s'
    else s' = s := by
  cases hfind : find key text with
  | none =>
      rw [if_neg ((find_eq_none_iff hne).mp hfind)]
      exact ⟨fun h => (Except.ok.inj h).symm, fun h => congrArg Except.ok h.symm⟩
  | some pos =>
      have hoccurs : key <:+: text := by
        by_contra h
        rw [(find_eq_none_iff hne).mpr h] at hfind
        cases hfind
      obtain ⟨-, hbehind⟩ := find_eq_some hne hfind
      rw [if_pos hoccurs]
      simp only [bind_eq_ok, braceGroup_eq_ok_iff, runE_stringSplit hstep]
      constructor
      · rintro ⟨content, hgroup, hrun⟩
        exact ⟨_, content, (hbehind _).mpr rfl, by rwa [List.drop_drop], hrun⟩
      · rintro ⟨rest, content, hrest, hgroup, hrun⟩
        obtain rfl := (hbehind rest).mp hrest
        rw [List.drop_drop] at hgroup
        exact ⟨content, hgroup, hrun⟩

theorem readHeaderLine_nil (header : WebsocketEventResponseHeader) :
    readHeaderLine header [] = .ok header := rfl

theorem readPayloadLine_nil (payload : WebsocketEventResponsePayload) :
    readPayloadLine payload [] = .ok payload := rfl

theorem readHeader_eq_ok_iff (header header' : WebsocketEventResponseHeader)
    (text : List UInt8) : readHeader header text = .ok header' ↔
      if ascii "header" <:+: text then
        ∃ rest content, Behind (ascii "header") text rest ∧
          Encloses 123 125 content (rest.drop 2) ∧
          Trace.runE readHeaderLine header (content.splitOn 44) = .ok header'
      else header' = header :=
  group_eq_ok_iff readHeaderLine_nil (show ascii "header" ≠ [] by decide) header header'

/-- The payload as the client reads it. -/
theorem readPayload_eq_ok_iff (payload payload' : WebsocketEventResponsePayload)
    (text : List UInt8) :
    readPayload (WebsocketClient.payloadStart text) payload text = .ok payload' ↔
      if ascii "payload" <:+: text then
        ∃ rest content, Behind (ascii "payload") text rest ∧
          Encloses 123 125 content (rest.drop 2) ∧
          Trace.runE readPayloadLine payload (content.splitOn 44) = .ok payload'
      else payload' = payload := by
  rw [← group_eq_ok_iff readPayloadLine_nil (show ascii "payload" ≠ [] by decide)]
  unfold readPayload WebsocketClient.payloadStart
  cases find (ascii "payload") text <;> rfl

end Bifrost.Io
