/-
Which messages an end marker frames.

A packed message contains no NUL.  The first end marker in it stands at the first token
that is `final`, or else at its end.
-/

import Purple.Myspace.MessageTokens
import Purple.Separated

namespace Purple.Myspace

open List CString Decimal Separated

variable (base64 : Base64)

variable {msg : MsimMessage} {pair : Bytes × Bytes}

theorem printInt_noNul (value : Int) : 0 ∉ printInt value :=
  not_mem_printInt (by decide) (by decide) value

theorem msimEscape_noNul (text : Text) : 0 ∉ msimEscape text.val := by
  intro nul
  obtain ⟨byte, member, piece⟩ := mem_flatMap.mp nul
  cases found : msimEscapeReplacements.find? (fun replacement => replacement.2 == byte) with
  | none =>
    rw [found] at piece
    exact text.property (mem_singleton.mp piece ▸ member)
  | some replacement =>
    rw [found] at piece
    have codes : ∀ replacement ∈ msimEscapeReplacements, 0 ∉ replacement.1 := by decide
    exact codes replacement (mem_of_find?_eq_some found) piece

theorem mem_strjoinv {separator byte : UInt8} {strings : List Bytes}
    (member : byte ∈ strjoinv separator strings) :
    byte = separator ∨ ∃ string ∈ strings, byte ∈ string := by
  induction strings with
  | nil => exact absurd member not_mem_nil
  | cons string strings ih =>
    cases strings with
    | nil =>
      rw [strjoinv, intercalate_singleton] at member
      exact Or.inr ⟨string, mem_cons_self, member⟩
    | cons next strings =>
      rw [strjoinv, intercalate_cons_cons, append_assoc, mem_append,
        mem_append, mem_singleton] at member
      obtain inside | same | later := member
      · exact Or.inr ⟨string, mem_cons_self, inside⟩
      · exact Or.inl same
      · refine (ih later).imp_right ?_
        rintro ⟨other, among, inside⟩
        exact ⟨other, mem_cons_of_mem _ among, inside⟩

theorem strjoinv_noNul {separator : UInt8} {strings : List Bytes} (solid : 0 ≠ separator)
    (clean : ∀ string ∈ strings, 0 ∉ string) : 0 ∉ strjoinv separator strings := by
  intro nul
  obtain same | ⟨string, among, inside⟩ := mem_strjoinv nul
  · exact solid same
  · exact clean string among inside

mutual

theorem packElementData_noNul :
    (data : MsimData) → ∀ text, msimMsgPackElementData base64 data = some text → 0 ∉ text
  | .integer value, _, packed => Option.some.inj packed ▸ printInt_noNul _
  | .raw text, _, packed => Option.some.inj packed ▸ text.property
  | .string text, _, packed => Option.some.inj packed ▸ msimEscape_noNul text
  | .binary bytes, _, packed => Option.some.inj packed ▸ (base64.encode bytes).property
  | .boolean value, _, packed => by
    cases packed
    cases value <;> decide
  | .dictionary elements, _, packed => by
    rw [msimMsgPackElementData] at packed
    split at packed
    · cases packed
    · cases packed
      exact strjoinv_noNul (by decide) (packDict_noNul elements)
  | .list items, _, packed => by
    cases packed
    refine strjoinv_noNul (by decide) fun string member => ?_
    obtain ⟨item, _, rfl⟩ := List.mem_map.mp member
    exact item.property

theorem packDict_noNul :
    (elements : List (MsimMessageElement MsimData)) →
      ∀ string ∈ msimMsgPackDict base64 elements, 0 ∉ string
  | [], _, member => absurd member not_mem_nil
  | element :: rest, string, member => by
    rw [msimMsgPackDict, mem_append] at member
    obtain here | later := member
    · exact packElementDict_noNul element string (Option.mem_toList.mp here)
    · exact packDict_noNul rest string later

theorem packElementDict_noNul :
    (element : MsimMessageElement MsimData) →
      ∀ text, msimMsgPackElementDict base64 element = some text → 0 ∉ text
  | ⟨name, data⟩, text, packed => by
    rw [msimMsgPackElementDict] at packed
    split at packed
    · cases packed
    · obtain ⟨value, data', rfl⟩ := Option.map_eq_some_iff.mp packed
      have clean := packElementData_noNul data value data'
      rw [mem_append, mem_append, mem_singleton]
      rintro ((inside | equals) | inside)
      · exact name.property inside
      · exact absurd equals (by decide)
      · exact clean inside

end

theorem named_noNul {msg : MsimMessage} {pair : Bytes × Bytes}
    (member : pair ∈ named (items base64 msg)) : 0 ∉ pair.1 ∧ 0 ∉ pair.2 := by
  obtain ⟨item, among, rfl⟩ := mem_filterMap.mp member
  obtain ⟨element, _, packed⟩ := mem_filterMap.mp among
  obtain ⟨name, data⟩ := element
  rw [elementItem] at packed
  split at packed
  · cases packed
  · cases data with
    | boolean value =>
      cases value with
      | false => cases packed
      | true =>
        cases packed
        exact ⟨name.property, not_mem_nil⟩
    | integer | raw | string | binary | dictionary | list =>
      cases packed
      refine ⟨name.property, ?_⟩
      cases text : msimMsgPackElementData base64 _ with
      | none => exact not_mem_nil
      | some value => exact packElementData_noNul base64 _ value text

def final : Bytes := ascii "final"

theorem plain_prefix_iff {first second : Bytes} (plain : 92 ∉ first) (plain' : 92 ∉ second)
    (rest : Bytes) : first ++ [92] <+: second ++ 92 :: rest ↔ first = second := by
  induction first generalizing second with
  | nil =>
    cases second with
    | nil => exact ⟨fun _ => rfl, fun _ => ⟨rest, rfl⟩⟩
    | cons byte second =>
      constructor
      · intro initial
        exact absurd ((cons_prefix_cons.mp initial).1 ▸ mem_cons_self) plain'
      · exact fun same => (nomatch same)
  | cons byte first ih =>
    rw [mem_cons, not_or] at plain
    cases second with
    | nil =>
      constructor
      · exact fun initial => absurd (cons_prefix_cons.mp initial).1.symm plain.1
      · exact fun same => (nomatch same)
    | cons other second =>
      rw [mem_cons, not_or] at plain'
      change byte :: (first ++ [92]) <+: other :: (second ++ 92 :: rest) ↔ _
      rw [cons_prefix_cons, ih plain.2 plain'.2, List.cons.injEq]

theorem slashed_final_starts (tokens : List Bytes) :
    ∃ rest, slashed tokens ++ finalString = 92 :: rest := by
  cases tokens with
  | nil => exact ⟨_, rfl⟩
  | cons token tokens => exact ⟨_, rfl⟩

theorem strstr_slashed {tokens : List Bytes} (plain : ∀ token ∈ tokens, 92 ∉ token) :
    strstr finalString (slashed tokens ++ finalString) =
      some (slashed (tokens.takeWhile (· != final))).length := by
  induction tokens with
  | nil => rfl
  | cons token tokens ih =>
    rw [forall_mem_cons] at plain
    obtain ⟨rest, starts⟩ := slashed_final_starts tokens
    have whole : slashed (token :: tokens) ++ finalString =
        92 :: (token ++ (slashed tokens ++ finalString)) := by
      rw [slashed_cons, append_assoc]
      rfl
    have here : finalString.isPrefixOf (92 :: (token ++ (slashed tokens ++ finalString))) = true ↔
        token = final := by
      rw [ isPrefixOf_iff_prefix, starts]
      change 92 :: (final ++ [92]) <+: 92 :: (token ++ 92 :: rest) ↔ _
      rw [prefix_cons_inj, plain_prefix_iff (by decide) plain.1]
      exact eq_comm
    rw [whole, strstr]
    by_cases same : token = final
    · rw [if_pos (here.mpr same), takeWhile_cons_of_neg]
      · rfl
      · exact fun other => bne_iff_ne.mp other same
    · rw [if_neg fun prefixed => same (here.mp prefixed),
        takeWhile_cons_of_pos (p := (· != final)) (bne_iff_ne.mpr same)]
      change (strstr (92 :: (final ++ [92])) _).map _ = _
      rw [strstr_skip plain.1]
      change ((strstr finalString _).map _).map _ = _
      rw [ih plain.2, slashed_cons, length_append, length_cons]
      simp only [Option.map_some, Option.some.injEq]
      omega

/-- Some element is named, no name and no value is the end marker's word, no value has a
backslash, and what packs to nothing shifts nothing. -/
structure Framed (msg : MsimMessage) : Prop where
  some' : named (items base64 msg) ≠ []
  notFinal : ∀ pair ∈ named (items base64 msg), pair.1 ≠ final ∧ pair.2 ≠ final
  plain : ∀ pair ∈ named (items base64 msg), 92 ∉ pair.2
  aligned : Aligned (items base64 msg)

def PlainKeys (msg : MsimMessage) : Prop := ∀ element ∈ msg, 92 ∉ element.name.val

instance (msg : MsimMessage) : Decidable (PlainKeys msg) :=
  inferInstanceAs (Decidable (∀ element ∈ msg, 92 ∉ element.name.val))

variable {base64}

theorem named_plain (keys : PlainKeys msg) (member : pair ∈ named (items base64 msg)) :
    92 ∉ pair.1 := by
  obtain ⟨item, among, rfl⟩ := mem_filterMap.mp member
  obtain ⟨element, inside, packed⟩ := mem_filterMap.mp among
  have key := keys element inside
  obtain ⟨name, data⟩ := element
  rw [elementItem] at packed
  split at packed
  · cases packed
  · cases data with
    | boolean value =>
      cases value with
      | false => cases packed
      | true =>
        cases packed
        exact key
    | integer | raw | string | binary | dictionary | list =>
      cases packed
      exact key

theorem mem_tokens {items : List Item} {token : Bytes} (member : token ∈ tokens items) :
    token = [] ∨ ∃ pair ∈ named items, token = pair.1 ∨ token = pair.2 := by
  obtain ⟨item, among, here⟩ := mem_flatMap.mp member
  cases item with
  | none => exact Or.inl (mem_singleton.mp here)
  | some pair =>
    refine Or.inr ⟨pair, mem_filterMap.mpr ⟨some pair, among, rfl⟩, ?_⟩
    obtain first | second := mem_cons.mp here
    · exact Or.inl first
    · exact Or.inr (mem_singleton.mp second)

theorem tokens_plain (keys : PlainKeys msg)
    (plain : ∀ pair ∈ named (items base64 msg), 92 ∉ pair.2) :
    ∀ token ∈ tokens (items base64 msg), 92 ∉ token := by
  intro token member
  obtain rfl | ⟨pair, among, rfl | rfl⟩ := mem_tokens member
  · exact not_mem_nil
  · exact named_plain keys among
  · exact plain pair among

theorem named_pair {items : List Item} (member : pair ∈ named items) :
    pair.1 ∈ tokens items ∧ pair.2 ∈ tokens items := by
  obtain ⟨item, among, rfl⟩ := mem_filterMap.mp member
  exact ⟨mem_flatMap.mpr ⟨_, among, mem_cons_self⟩,
    mem_flatMap.mpr ⟨_, among, mem_cons_of_mem _ mem_cons_self⟩⟩

theorem body_named {items : List Item} (some' : named items ≠ []) : body items = tokens items := by
  refine if_neg fun empty => some' ?_
  rw [empty]
  rfl

theorem tokens_some {items : List Item} (some' : named items ≠ []) : tokens items ≠ [] := by
  obtain ⟨pair, member⟩ := exists_mem_of_ne_nil _ some'
  exact ne_nil_of_mem (named_pair member).1

theorem takeWhile_notFinal {tokens : List Bytes} (notFinal : final ∉ tokens) :
    tokens.takeWhile (· != final) = tokens := by
  rw [takeWhile_eq_self_iff]
  exact fun token member => bne_iff_ne.mpr fun same => notFinal (same ▸ member)

theorem framed_text (some' : msg ≠ []) (keys : PlainKeys msg) (framed : Framed base64 msg) :
    ∃ before, text base64 msg = before ++ finalString ∧
      strstr finalString (text base64 msg) = some before.length ∧
      msimParse before = unpacked base64 msg := by
  have plain := tokens_plain keys framed.plain
  have notFinal : final ∉ tokens (items base64 msg) := by
    intro member
    obtain empty | ⟨pair, among, first | second⟩ := mem_tokens member
    · cases empty
    · exact (framed.notFinal pair among).1 first.symm
    · exact (framed.notFinal pair among).2 second.symm
  refine ⟨slashed (tokens (items base64 msg)), ?_, ?_, ?_⟩
  · rw [text_slashed base64 some', body_named framed.some']
  · rw [text_slashed base64 some', body_named framed.some', strstr_slashed plain,
      takeWhile_notFinal notFinal]
  · rw [parse_slashed (tokens_some framed.some') plain, (pairs_tokens_iff _).mpr framed.aligned,
      unpacked]

def contents (element : MsimMessageElement MsimData) : Bytes × Bytes :=
  (element.name.val, match element.data with | .raw text => text.val | _ => [])

theorem contents_raw (clean : 0 ∉ pair.1 ∧ 0 ∉ pair.2) :
    contents (rawElement pair.1 pair.2) = pair := by
  change (cString pair.1, cString pair.2) = pair
  rw [cString_clean clean.1, cString_clean clean.2]

theorem map_contents {pairs : List (Bytes × Bytes)} (clean : ∀ pair ∈ pairs, 0 ∉ pair.1 ∧ 0 ∉ pair.2) :
    (pairs.map fun pair => rawElement pair.1 pair.2).map contents = pairs := by
  rw [List.map_map]
  refine (map_congr_left fun pair member => ?_).trans (List.map_id pairs)
  exact contents_raw (clean pair member)

theorem mem_strsplit {delimiter : UInt8} {part whole : Bytes}
    (member : part ∈ strsplit delimiter whole) : delimiter ∉ part := by
  rw [strsplit] at member
  split at member
  · exact absurd member not_mem_nil
  · exact mem_splitOn member

theorem mem_pairs {tokens : List Bytes} (member : pair ∈ pairs tokens) :
    pair.1 ∈ tokens ∧ pair.2 ∈ tokens := by
  induction tokens using pairs.induct with
  | case1 first second tokens ih =>
    rw [pairs] at member
    obtain rfl | later := mem_cons.mp member
    · exact ⟨mem_cons_self, mem_cons_of_mem _ mem_cons_self⟩
    · have both := ih later
      exact ⟨mem_cons_of_mem _ (mem_cons_of_mem _ both.1),
        mem_cons_of_mem _ (mem_cons_of_mem _ both.2)⟩
  | case2 tokens short =>
    rw [pairs] at member
    · exact absurd member not_mem_nil
    · exact short

theorem cString_sub {byte : UInt8} {bytes : Bytes} (member : byte ∈ cString bytes) : byte ∈ bytes :=
  (cString_initial bytes).subset member

theorem parse_plain {raw : Bytes} {element : MsimMessageElement MsimData}
    (member : element ∈ msimParse raw) : 92 ∉ (contents element).2 := by
  unfold msimParse at member
  split at member
  · rw [parseTokens_pairs] at member
    obtain ⟨pair, among, rfl⟩ := List.mem_map.mp member
    exact fun slash => mem_strsplit (mem_pairs among).2 (cString_sub slash)
  · exact absurd member not_mem_nil

theorem framed_of_text (some' : msg ≠ []) (keys : PlainKeys msg) {before : Bytes}
    (split : text base64 msg = before ++ finalString)
    (marker : strstr finalString (text base64 msg) = some before.length)
    (parsed : msimParse before = unpacked base64 msg) (something : unpacked base64 msg ≠ []) :
    Framed base64 msg := by
  have some'' : named (items base64 msg) ≠ [] := fun empty => something (by
    rw [unpacked, empty]
    rfl)
  have clean : ∀ pair ∈ named (items base64 msg), 0 ∉ pair.1 ∧ 0 ∉ pair.2 := fun pair =>
    named_noNul base64
  have plain : ∀ pair ∈ named (items base64 msg), 92 ∉ pair.2 := by
    intro pair member
    have among : rawElement pair.1 pair.2 ∈ msimParse before := by
      rw [parsed, unpacked]
      exact List.mem_map.mpr ⟨pair, member, rfl⟩
    have value := parse_plain among
    rw [contents_raw (clean pair member)] at value
    exact value
  have plain' := tokens_plain keys plain
  have same : before = slashed (tokens (items base64 msg)) := by
    rw [text_slashed base64 some', body_named some''] at split
    exact (append_cancel_right split).symm
  have notFinal : final ∉ tokens (items base64 msg) := by
    intro member
    rw [text_slashed base64 some', body_named some'', strstr_slashed plain', same,
      Option.some.injEq] at marker
    have front := takeWhile_append_dropWhile (p := (· != final)) (l := tokens (items base64 msg))
    have lengths := congrArg (fun tokens => (slashed tokens).length) front
    rw [slashed_append, length_append, marker] at lengths
    cases behind : (tokens (items base64 msg)).dropWhile (· != final) with
    | nil =>
      have others := dropWhile_eq_nil_iff.mp behind final member
      exact bne_iff_ne.mp others rfl
    | cons token rest =>
      rw [behind, slashed_cons, length_append, length_cons] at lengths
      omega
  refine ⟨some'', ?_, plain, ?_⟩
  · intro pair member
    have both := named_pair member
    exact ⟨fun other => notFinal (other ▸ both.1), fun other => notFinal (other ▸ both.2)⟩
  · rw [same, parse_slashed (tokens_some some'') plain', unpacked] at parsed
    have texts := congrArg (List.map contents) parsed
    rw [map_contents clean, map_contents] at texts
    · exact (pairs_tokens_iff _).mp texts
    · intro pair member
      have noNul : ∀ token ∈ tokens (items base64 msg), 0 ∉ token := by
        intro token among
        obtain rfl | ⟨other, inside, rfl | rfl⟩ := mem_tokens among
        · exact not_mem_nil
        · exact (clean other inside).1
        · exact (clean other inside).2
      exact ⟨noNul _ (mem_pairs member).1, noNul _ (mem_pairs member).2⟩

end Purple.Myspace
