/-
  Objects whose text is legible, and values that make it illegible.

  * An object is `Plain` when its strings hold no comma, no brace and none of the words that
    the scanner looks for where it would find them. Then the lines are the members and every
    name stands in its own member alone, so the text is legible (`legible_of_plain`).
  * A value is read from a piece between two commas, so a legible object has no comma in the
    six strings that are read (`no_comma_of_legible`).
-/
import Mathlib.Data.List.Nodup
import Bifrost.Io.EventReadBack

namespace Bifrost.Io

open Bifrost.Text Brackets

/-! ## Words in a member -/

/-- A word that neither the punctuation of a member nor a decimal integer has a symbol of. -/
def IsWord (word : List UInt8) : Prop :=
  word ≠ [] ∧ ∀ c ∈ word, c ≠ 34 ∧ c ≠ 58 ∧ c ≠ 45 ∧ isDigit c = false

instance : DecidablePred IsWord := fun word =>
  @instDecidableAnd _ _ inferInstance
    (List.decidableBAll (fun c => c ≠ 34 ∧ c ≠ 58 ∧ c ≠ 45 ∧ isDigit c = false) word)

section Word

variable {word : List UInt8} {m : Member}

theorem IsWord.quote_notMem (hword : IsWord word) : (34 : UInt8) ∉ word := fun h =>
  (hword.2 34 h).1 rfl

theorem IsWord.head_ne (hword : IsWord word) {c : UInt8} (hc : c = 34 ∨ c = 58) :
    word.head? ≠ some c := by
  intro hhead
  have hmem := hword.2 c (List.mem_of_head? hhead)
  rcases hc with rfl | rfl
  · exact hmem.1 rfl
  · exact hmem.2.1 rfl

theorem IsWord.not_subset_decimal (hword : IsWord word) (value : Int) :
    ¬ word ⊆ decimal value := by
  intro hsub
  obtain ⟨c, rest, rfl⟩ := List.exists_cons_of_ne_nil hword.1
  obtain ⟨-, -, hminus, hdigit⟩ := hword.2 c List.mem_cons_self
  rcases mem_decimal (hsub List.mem_cons_self) with hc | hc
  · exact hminus hc
  · rw [hdigit] at hc
    cases hc

/-- A word that neither the key nor the value has is not in the member. -/
theorem not_infix_text (hword : IsWord word) (hm : m.All (¬ word <:+: ·)) :
    ¬ word <:+: m.text := by
  intro h
  have hnil : ¬ word <:+: [] := fun h => hword.1 (List.infix_nil.mp h)
  obtain ⟨hkey, hvalue⟩ := hm
  have hquoted := infix_of_infix_cons (hword.head_ne (Or.inl rfl)) h
  rcases infix_append_cons hword.quote_notMem hquoted with hoccurs | hoccurs
  · exact hkey hoccurs
  · have hcolon := infix_of_infix_cons (hword.head_ne (Or.inr rfl)) hoccurs
    cases hcase : m.value with
    | string value =>
        rw [hcase] at hcolon hvalue
        rcases infix_append_cons hword.quote_notMem
          (infix_of_infix_cons (hword.head_ne (Or.inl rfl)) hcolon) with hoccurs | hoccurs
        · exact hvalue hoccurs
        · exact hnil hoccurs
    | integer value =>
        rw [hcase] at hcolon
        exact hword.not_subset_decimal value hcolon.subset

/-- A word and a quote are in a member only where the key or the value ends with the word. -/
theorem not_infix_quote_text (hword : IsWord word) (hescape : m.All Unescaped)
    (hm : m.All (¬ word <:+ ·)) : ¬ word ++ [34] <:+: m.text := by
  intro h
  have hhead : ∀ {c : UInt8}, c = 34 ∨ c = 58 → (word ++ [34]).head? ≠ some c := by
    intro c hc hhead
    obtain ⟨d, rest, rfl⟩ := List.exists_cons_of_ne_nil hword.1
    exact hword.head_ne hc hhead
  obtain ⟨hkey, hvalue⟩ := hm
  obtain ⟨hkeyEscape, hvalueEscape⟩ := hescape
  have hquoted := infix_of_infix_cons (hhead (Or.inl rfl)) h
  rcases infix_concat_append_cons hword.quote_notMem (fun hc => (hkeyEscape 34 hc).1 rfl)
    hquoted with hsuffix | hoccurs
  · exact hkey hsuffix
  · have hcolon := infix_of_infix_cons (hhead (Or.inr rfl))
      (infix_of_infix_cons (hhead (Or.inl rfl)) hoccurs)
    cases hcase : m.value with
    | string value =>
        rw [hcase] at hcolon hvalue hvalueEscape
        rcases infix_concat_append_cons hword.quote_notMem
          (fun hc => (hvalueEscape 34 hc).1 rfl)
          (infix_of_infix_cons (hhead (Or.inl rfl)) hcolon) with hsuffix | hoccurs
        · exact hvalue hsuffix
        · have hnil := infix_of_infix_cons (hhead (Or.inl rfl)) hoccurs
          simp at hnil
    | integer value =>
        rw [hcase] at hcolon
        exact hword.not_subset_decimal value
          fun c hc => hcolon.subset (List.mem_append_left [34] hc)

/-- Behind its key a member goes on with the quote, the colon and the value. -/
theorem behind_key (hword : IsWord m.key) :
    Behind m.key m.text (34 :: 58 :: m.value.text) := by
  obtain ⟨c, rest, hkey⟩ := List.exists_cons_of_ne_nil hword.1
  have hhead : m.key.head? = some c := by rw [hkey]; rfl
  refine @behind_of_head_notMem m.key [34] _ c hhead fun hc => ?_
  exact hword.head_ne (Or.inl rfl) (List.mem_singleton.mp hc ▸ hhead)

end Word

/-! ## The lines of an object -/

section Lines

variable {members : List Member}

theorem splitOn_membersText (hne : members ≠ []) (h : ∀ m ∈ members, m.All (44 ∉ ·)) :
    (membersText members).splitOn 44 = members.map Member.text := by
  refine List.splitOn_intercalate 44 (fun line hline => ?_) (by simpa using hne)
  obtain ⟨m, hm, rfl⟩ := List.mem_map.mp hline
  rw [← List.singleton_infix_iff]
  refine not_infix_text (by decide) ?_
  simpa only [List.singleton_infix_iff] using h m hm

theorem not_infix_membersText {word : List UInt8} (hword : IsWord word) (hcomma : 44 ∉ word)
    (h : ∀ m ∈ members, m.All (¬ word <:+: ·)) : ¬ word <:+: membersText members := by
  intro hoccurs
  obtain ⟨line, hline, hin⟩ := infix_intercalate hword.1 hcomma hoccurs
  obtain ⟨m, hm, rfl⟩ := List.mem_map.mp hline
  exact not_infix_text hword (h m hm) hin

theorem encloses_membersText (h : ∀ m ∈ members, m.All (123 ∉ ·) ∧ m.All (125 ∉ ·))
    (after : List UInt8) :
    Encloses 123 125 (membersText members) (123 :: (membersText members ++ 125 :: after)) := by
  refine ⟨[], after, rfl, List.forall_mem_nil _, balanced_of_plain fun c hc => ?_⟩
  have hbrace : ∀ brace : UInt8, IsWord [brace] → 44 ∉ [brace] →
      (∀ m ∈ members, m.All (brace ∉ ·)) → c ≠ brace := by
    rintro _ hword hcomma hall rfl
    refine not_infix_membersText hword hcomma (fun m hm => ?_)
      ((List.singleton_infix_iff c _).mpr hc)
    simpa only [List.singleton_infix_iff] using hall m hm
  exact ⟨hbrace 123 (by decide) (by decide) fun m hm => (h m hm).1,
    hbrace 125 (by decide) (by decide) fun m hm => (h m hm).2⟩

/-- A name that stands in one member alone is shown where this member shows it. -/
theorem lastShows_of_mem (hnodup : (members.map Member.key).Nodup)
    (hlines : (membersText members).splitOn 44 = members.map Member.text) {name : List UInt8}
    {Shows : List UInt8 → Prop} {m : Member} (hm : m ∈ members) (hshows : Shows m.text)
    (hother : ∀ other ∈ members, other.key ≠ m.key → ¬ name <:+: other.text) :
    LastShows name Shows (membersText members) := by
  obtain ⟨before, after, rfl⟩ := List.append_of_mem hm
  refine ⟨before.map Member.text, m.text, after.map Member.text, by rw [hlines]; simp, hshows,
    fun line hline => ?_⟩
  obtain ⟨later, hlater, rfl⟩ := List.mem_map.mp hline
  refine hother later (by simp [hlater]) fun hkey => ?_
  rw [List.map_append, List.map_cons] at hnodup
  have hnotMem := (List.nodup_cons.mp (List.nodup_append.mp hnodup).2.1).1
  exact hnotMem (List.mem_map.mpr ⟨later, hlater, hkey⟩)

end Lines

/-! ## Members that are looked for -/

section Looked

variable {name : String} {m : Member}

theorem LineShows.fits {value line : List UInt8} (hne : ascii name ≠ [])
    (h : LineShows name value line) : StringFits name line := by
  obtain ⟨sep, last, hbehind, hsep, -⟩ := h
  intro rest hrest
  obtain rfl := hrest.unique hne hbehind
  rw [List.length_append]
  omega

theorem LineShowsStatus.fits {value : Int} {line : List UInt8} (h : LineShowsStatus value line) :
    StatusFits line := by
  obtain ⟨rest, hbehind, hahead⟩ := h
  intro rest' hrest'
  obtain rfl := hrest'.unique (by decide) hbehind
  exact ⟨value, hahead⟩

theorem stringFits_of_absent {line : List UInt8} (hne : ascii name ≠ [])
    (h : ¬ ascii name <:+: line) : StringFits name line := fun rest hrest =>
  absurd ((exists_behind_iff hne).mp ⟨rest, hrest⟩) h

/-- A string member shows its value. -/
theorem lineShows_text (hword : IsWord (ascii name)) (hkey : m.key = ascii name)
    {value : List UInt8} (hvalue : m.value = .string value) : LineShows name value m.text := by
  refine ⟨[34, 58, 34], [34], ?_, rfl, Or.inl rfl⟩
  have hbehind := behind_key (hkey ▸ hword)
  rw [hvalue] at hbehind
  exact hkey ▸ hbehind

theorem stringFits_text (hword : IsWord (ascii name))
    (hstring : m.key = ascii name → m.value.isString)
    (hm : m.key ≠ ascii name → m.All (¬ ascii name <:+: ·)) : StringFits name m.text := by
  by_cases hkey : m.key = ascii name
  · cases hvalue : m.value with
    | string value => exact (lineShows_text hword hkey hvalue).fits hword.1
    | integer value =>
        have hcontra := hstring hkey
        rw [hvalue] at hcontra
        cases hcontra
  · exact stringFits_of_absent hword.1 (not_infix_text hword (hm hkey))

/-- The status shows its value. -/
theorem lineShowsStatus_text {value : Int} (hrange : -2 ^ 31 ≤ value ∧ value < 2 ^ 31) :
    LineShowsStatus value (Member.text ⟨ascii "status", .integer value⟩) :=
  ⟨58 :: decimal value,
    @behind_of_head_notMem (ascii "status\"") [34] _ 115 (by decide) (by decide),
    integerAhead_decimal hrange.1 hrange.2⟩

end Looked

/-! ## Plain objects -/

/-- No string holds a comma or a brace; the header does not name the payload; the names that
    are looked for stand in no other member of their object, and no other string of the header
    ends with `status`. -/
structure EventObject.Plain (o : EventObject) : Prop where
  marks : ∀ m ∈ o.header ++ o.payload, ∀ mark ∈ [(44 : UInt8), 123, 125], m.All (mark ∉ ·)
  payload_key : ∀ m ∈ o.header, m.All (¬ ascii "payload" <:+: ·)
  header_names : ∀ m ∈ o.header, ∀ name ∈ ["messageType", "connectId", "statusMessage"],
    m.key ≠ ascii name → m.All (¬ ascii name <:+: ·)
  status : ∀ m ∈ o.header, m.key ≠ ascii "status" → m.All (¬ ascii "status" <:+ ·)
  payload_names : ∀ m ∈ o.payload, ∀ name ∈ ["requestId", "simpleRate", "packOverlap"],
    m.key ≠ ascii name → m.All (¬ ascii name <:+: ·)

namespace EventObject

variable {o : EventObject}

theorem Plain.header_lines (h : o.Plain) :
    (membersText o.header).splitOn 44 = o.header.map Member.text :=
  splitOn_membersText (List.ne_nil_of_mem o.status_mem) fun m hm =>
    h.marks m (List.mem_append_left _ hm) 44 (by simp)

theorem Plain.payload_lines (h : o.Plain) :
    (membersText o.payload).splitOn 44 = o.payload.map Member.text :=
  splitOn_membersText (List.ne_nil_of_mem o.requestId_mem) fun m hm =>
    h.marks m (List.mem_append_right _ hm) 44 (by simp)

/-- Only the status has the name of the status and a quote. -/
theorem Plain.status_of_occurs (h : o.Plain) {m : Member} (hm : m ∈ o.header)
    (hoccurs : ascii "status\"" <:+: m.text) : m = ⟨ascii "status", .integer o.status⟩ := by
  by_contra hne
  have hkey : m.key ≠ ascii "status" := fun hkey =>
    hne (List.inj_on_of_nodup_map o.header_nodup hm o.status_mem hkey)
  exact not_infix_quote_text (show IsWord (ascii "status") by decide)
    (o.unescaped m (List.mem_append_left _ hm)) (h.status m hm hkey) hoccurs

theorem Plain.header_string (h : o.Plain) {name : String}
    (hname : name ∈ ["messageType", "connectId", "statusMessage"]) :
    IsWord (ascii name) ∧ ∀ m ∈ o.header, StringFits name m.text := by
  have hword : ∀ name ∈ ["messageType", "connectId", "statusMessage"],
      IsWord (ascii name) ∧ ascii name ≠ ascii "status" := by decide
  obtain ⟨hword, hstatus⟩ := hword name hname
  exact ⟨hword, fun m hm => stringFits_text hword
    (fun hkey => o.header_strings m hm (hkey ▸ hstatus)) (h.header_names m hm name hname)⟩

theorem Plain.payload_string (h : o.Plain) {name : String}
    (hname : name ∈ ["requestId", "simpleRate", "packOverlap"]) :
    IsWord (ascii name) ∧ ∀ m ∈ o.payload, StringFits name m.text := by
  have hword : ∀ name ∈ ["requestId", "simpleRate", "packOverlap"], IsWord (ascii name) := by
    decide
  exact ⟨hword name hname, fun m hm => stringFits_text (hword name hname)
    (fun _ => o.payload_strings m hm) (h.payload_names m hm name hname)⟩

theorem Plain.header_lineFits (h : o.Plain) {m : Member} (hm : m ∈ o.header) :
    HeaderLineFits m.text where
  messageType := (@Plain.header_string o h "messageType" (by simp)).2 m hm
  connectId := (@Plain.header_string o h "connectId" (by simp)).2 m hm
  statusMessage := (@Plain.header_string o h "statusMessage" (by simp)).2 m hm
  status := by
    intro rest hrest
    obtain rfl := h.status_of_occurs hm ((exists_behind_iff (by decide)).mp ⟨rest, hrest⟩)
    exact (lineShowsStatus_text o.status_int).fits rest hrest

theorem Plain.payload_lineFits (h : o.Plain) {m : Member} (hm : m ∈ o.payload) :
    PayloadLineFits m.text where
  requestId := (@Plain.payload_string o h "requestId" (by simp)).2 m hm
  simpleRate := (@Plain.payload_string o h "simpleRate" (by simp)).2 m hm
  packOverlap := (@Plain.payload_string o h "packOverlap" (by simp)).2 m hm

theorem Plain.header_lastShows (h : o.Plain) {name : String}
    (hname : name ∈ ["messageType", "connectId", "statusMessage"]) {value : List UInt8}
    (hm : ⟨ascii name, .string value⟩ ∈ o.header) :
    LastShows (ascii name) (LineShows name value) (membersText o.header) := by
  obtain ⟨hword, -⟩ := h.header_string hname
  exact lastShows_of_mem o.header_nodup h.header_lines hm (lineShows_text hword rfl rfl)
    fun other hother hkey => not_infix_text hword (h.header_names other hother name hname hkey)

theorem Plain.payload_lastShows (h : o.Plain) {name : String}
    (hname : name ∈ ["requestId", "simpleRate", "packOverlap"]) {value : List UInt8}
    (hm : ⟨ascii name, .string value⟩ ∈ o.payload) :
    LastShows (ascii name) (LineShows name value) (membersText o.payload) := by
  obtain ⟨hword, -⟩ := h.payload_string hname
  exact lastShows_of_mem o.payload_nodup h.payload_lines hm (lineShows_text hword rfl rfl)
    fun other hother hkey => not_infix_text hword (h.payload_names other hother name hname hkey)

theorem Plain.headerShows (h : o.Plain) : HeaderShows o (membersText o.header) where
  messageType := h.header_lastShows (by simp) o.messageType_mem
  connectId := h.header_lastShows (by simp) o.connectId_mem
  statusMessage := h.header_lastShows (by simp) o.statusMessage_mem
  status := lastShows_of_mem o.header_nodup h.header_lines o.status_mem
    (lineShowsStatus_text o.status_int) fun other hother hkey hoccurs =>
      hkey (congrArg Member.key (h.status_of_occurs hother hoccurs))

theorem Plain.payloadShows (h : o.Plain) : PayloadShows o (membersText o.payload) where
  requestId := h.payload_lastShows (by simp) o.requestId_mem
  simpleRate := h.payload_lastShows (by simp) o.simpleRate_mem
  packOverlap := h.payload_lastShows (by simp) o.packOverlap_mem

/-- The first `payload` of the text is the key. -/
theorem Plain.behind_payload (h : o.Plain) : Behind (ascii "payload") o.text
    (ascii "\":" ++ 123 :: (membersText o.payload ++ [125, 125])) := by
  have hword : IsWord (ascii "payload") := by decide
  rw [o.text_eq]
  refine behind_of_absent hword.1 fun hoccurs => ?_
  rw [List.append_assoc, List.cons_append, List.append_assoc, List.cons_append] at hoccurs
  rcases infix_append_cons (by decide) hoccurs with hfront | hoccurs
  · exact absurd hfront (by decide)
  · rcases infix_append_cons (by decide) hoccurs with hheader | hback
    · exact not_infix_membersText hword (by decide) h.payload_key hheader
    · exact absurd hback (by decide)

/-- **The text of a plain object is legible.** -/
theorem legible_of_plain (h : o.Plain) : Legible o := by
  have hbraces : ∀ members, members ⊆ o.header ++ o.payload → ∀ after,
      Encloses 123 125 (membersText members) (123 :: (membersText members ++ 125 :: after)) :=
    fun members hsub => encloses_membersText fun m hm =>
      ⟨h.marks m (hsub hm) 123 (by simp), h.marks m (hsub hm) 125 (by simp)⟩
  have hheader := hbraces o.header (List.subset_append_left _ _)
  have hpayload := hbraces o.payload (List.subset_append_right _ _)
  refine ⟨⟨by simp [text, ascii], ?_, ?_⟩, ⟨_, hheader _, h.headerShows⟩,
    ⟨_, _, h.behind_payload, hpayload [125], h.payloadShows⟩⟩
  · intro rest hrest
    obtain rfl := hrest.unique (by decide) o.behind_header
    refine ⟨_, hheader _, fun line hline => ?_⟩
    rw [h.header_lines] at hline
    obtain ⟨m, hm, rfl⟩ := List.mem_map.mp hline
    exact h.header_lineFits hm
  · intro rest hrest
    obtain rfl := hrest.unique (by decide) h.behind_payload
    refine ⟨_, hpayload [125], fun line hline => ?_⟩
    rw [h.payload_lines] at hline
    obtain ⟨m, hm, rfl⟩ := List.mem_map.mp hline
    exact h.payload_lineFits hm

end EventObject

/-! ## Commas in a value -/

theorem LastShows.no_comma {name : List UInt8} {key : String} {value content : List UInt8}
    (h : LastShows name (LineShows key value) content) : 44 ∉ value := by
  obtain ⟨before, line, after, hsplit, ⟨sep, last, ⟨front, hline, -⟩, -, -⟩, -⟩ := h
  have hmem : line ∈ content.splitOn 44 := by
    rw [hsplit]
    exact List.mem_append_right before List.mem_cons_self
  intro hcomma
  refine not_mem_of_mem_splitOn hmem ?_
  rw [hline]
  simp [hcomma]

/-- **No string that is read back holds a comma.** -/
theorem no_comma_of_legible {o : EventObject} (h : Legible o) :
    ∀ value ∈ [o.messageType, o.connectId, o.statusMessage, o.requestId, o.simpleRate,
      o.packOverlap], 44 ∉ value := by
  obtain ⟨-, ⟨_, -, hheader⟩, ⟨_, _, -, -, hpayload⟩⟩ := h
  simp only [List.forall_mem_cons]
  exact ⟨hheader.messageType.no_comma, hheader.connectId.no_comma, hheader.statusMessage.no_comma,
    hpayload.requestId.no_comma, hpayload.simpleRate.no_comma, hpayload.packOverlap.no_comma,
    List.forall_mem_nil _⟩

end Bifrost.Io
