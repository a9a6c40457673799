/-
Header fields are written and loaded again.
-/

import Purple.Mime

open List

namespace Purple.CString

theorem infix_separated {needle front behind : List UInt8} {separator : UInt8}
    (apart : separator ∉ needle) (nonempty : needle ≠ [])
    (inside : needle <:+: front ++ separator :: behind) : needle <:+: front ∨ needle <:+: behind := by
  induction front with
  | nil =>
    rcases infix_cons_iff.mp inside with initial | later
    · cases needle with
      | nil => exact absurd rfl nonempty
      | cons first rest =>
        rw [(cons_prefix_cons.mp initial).1] at apart
        exact absurd mem_cons_self apart
    · exact .inr later
  | cons byte front ih =>
    rcases infix_cons_iff.mp inside with initial | later
    · have separated : byte :: front ++ [separator] <+: byte :: (front ++ separator :: behind) :=
        ⟨behind, by simp⟩
      rcases prefix_or_prefix_of_prefix initial separated with short | long
      · rcases prefix_concat_iff.mp short with whole | early
        · rw [whole] at apart
          exact absurd (mem_append_right _ mem_cons_self) apart
        · exact .inl early.isInfix
      · exact absurd (long.subset (mem_append_right _ mem_cons_self)) apart
    · exact (ih later).imp_left fun early => early.trans (suffix_cons byte front).isInfix

/-- The first occurrence is behind a front that does not hold the needle, and
ends with a byte that is not in the needle. -/
theorem strstr_behind {needle front : List UInt8} (absent : ¬needle <:+: front)
    (cut : ∀ byte, front.getLast? = some byte → byte ∉ needle) (more : List UInt8) :
    strstr needle (front ++ needle ++ more) = some front.length := by
  induction front with
  | nil =>
    cases needle with
    | nil => exact absurd (infix_refl []) absent
    | cons first rest =>
      rw [nil_append, cons_append, strstr, if_pos]
      · rfl
      · exact isPrefixOf_iff_prefix.mpr (prefix_append (first :: rest) more)
  | cons byte front ih =>
    have elsewhere : ¬needle.isPrefixOf (byte :: (front ++ needle ++ more)) = true := by
      intro prefixed
      have frontFirst : byte :: front <+: byte :: (front ++ needle ++ more) :=
        ⟨needle ++ more, by simp⟩
      rcases prefix_or_prefix_of_prefix ( isPrefixOf_iff_prefix.mp prefixed)
        frontFirst with short | long
      · exact absent short.isInfix
      · obtain ⟨last, isLast⟩ : ∃ last, (byte :: front).getLast? = some last :=
          ⟨_, getLast?_eq_some_getLast (cons_ne_nil byte front)⟩
        exact cut last isLast (long.subset (mem_of_getLast? isLast))
    rw [cons_append, cons_append, strstr, if_neg elsewhere, ih]
    · rfl
    · exact fun inside => absent (inside.trans (suffix_cons byte front).isInfix)
    · intro last isLast
      refine cut last ?_
      rw [getLast?_cons, isLast]
      rfl

theorem strstr_absent {first : UInt8} {needle haystack : List UInt8} (absent : first ∉ haystack) :
    strstr (first :: needle) haystack = none := by
  cases found : strstr (first :: needle) haystack with
  | none => rfl
  | some offset =>
    obtain ⟨before, after, split, -⟩ := strstr_decompose found
    rw [split] at absent
    exact absurd (mem_append_left _ (mem_append_right _ mem_cons_self)) absent

theorem strstr_plain {first : UInt8} {needle front : List UInt8} (plain : first ∉ front)
    (more : List UInt8) :
    strstr (first :: needle) (front ++ (first :: needle) ++ more) = some front.length := by
  have here : (first :: needle).isPrefixOf (first :: (needle ++ more)) = true :=
    isPrefixOf_iff_prefix.mpr (prefix_append (first :: needle) more)
  rw [append_assoc, strstr_skip plain, cons_append, strstr, if_pos here, Option.map_some,
    Nat.zero_add]

end Purple.CString

namespace Purple.Mime

open CString

theorem joinSplit_plain {text : Bytes} (plain : 13 ∉ text) : joinSplit text = text := by
  induction text with
  | nil => rfl
  | cons byte rest ih =>
    have later := ih fun member => plain (mem_cons_of_mem _ member)
    unfold joinSplit
    split
    · rename_i same
      rw [same] at plain
      exact absurd (mem_cons_of_mem _ mem_cons_self) plain
    · rename_i same
      cases same
      rw [later]
    · rename_i empty
      cases empty

/-- A field whose line can be told apart from the others, and its name from its value. -/
structure LegibleField (entry : Bytes × Bytes) : Prop where
  lower : strdown entry.1 = entry.1
  stripped : strstrip entry.1 = entry.1
  noColon : colon ∉ entry.1
  nameLine : 13 ∉ entry.1
  valueLine : 13 ∉ entry.2
  valueFeed : 10 ∉ entry.2
  ends : entry.2.getLast? ≠ some semicolon

def fieldLine (entry : Bytes × Bytes) : Bytes := entry.1 ++ colon :: blank :: entry.2

theorem fieldLine_plain {entry : Bytes × Bytes} (legible : LegibleField entry) :
    13 ∉ fieldLine entry := by
  intro member
  rcases mem_append.mp member with name | behind
  · exact legible.nameLine name
  · rcases mem_cons.mp behind with isColon | later
    · exact absurd isColon (by decide)
    · rcases mem_cons.mp later with isBlank | value
      · exact absurd isBlank (by decide)
      · exact legible.valueLine value

theorem fieldLine_ends {entry : Bytes × Bytes} (legible : LegibleField entry) :
    (fieldLine entry).getLast? ≠ some semicolon := by
  unfold fieldLine
  cases value : entry.2 with
  | nil =>
    rw [getLast?_append, getLast?_cons_cons, getLast?_singleton, Option.some_or]
    decide
  | cons first rest =>
    have ends := legible.ends
    rw [value] at ends
    rw [getLast?_append, getLast?_cons_cons, getLast?_cons_cons]
    intro semi
    refine ends ?_
    rw [getLast?_eq_some_getLast (cons_ne_nil first rest)] at semi ⊢
    exact semi

theorem strstrip_blank (text : Bytes) : strstrip (blank :: text) = strstrip text := by
  have space : asciiSpace blank = true := by decide
  rw [strstrip, dropWhile_cons, if_pos space]
  rfl

theorem loadline_field {entry : Bytes × Bytes} (legible : LegibleField entry) (mf : MimeFields) :
    fieldsLoadline mf (fieldLine entry) = fieldsSet mf entry.1 (strstrip entry.2) := by
  have name : (fieldLine entry).takeWhile (fun byte => byte ≠ colon) = entry.1 := by
    have letters : ∀ byte ∈ entry.1, decide (byte ≠ colon) = true := by
      intro byte member
      refine decide_eq_true fun isColon => legible.noColon ?_
      rw [← isColon]
      exact member
    rw [fieldLine, takeWhile_append_of_pos letters, takeWhile_cons_of_neg (by simp),
      append_nil]
  have rest : (fieldLine entry).drop (entry.1.length + 1) = blank :: entry.2 := by
    rw [fieldLine, drop_append]
    simp
  have listed : colon ∈ fieldLine entry := mem_append_right _ mem_cons_self
  have valueLine : 13 ∉ blank :: entry.2 := by
    intro member
    rcases mem_cons.mp member with isBlank | value
    · exact absurd isBlank (by decide)
    · exact legible.valueLine value
  unfold fieldsLoadline
  simp only [name, rest]
  rw [if_pos listed, joinSplit_plain legible.nameLine, joinSplit_plain valueLine,
    legible.stripped, strstrip_blank]

def fieldsLoaded (mf : MimeFields) : List (Bytes × Bytes) → MimeFields
  | [] => mf
  | entry :: rest => fieldsLoaded (fieldsSet mf entry.1 (strstrip entry.2)) rest

theorem fieldWrite_line (entry : Bytes × Bytes) : fieldWrite entry = fieldLine entry ++ crlf := by
  rw [fieldWrite, fieldLine]

theorem fieldsLoad_written {entries : List (Bytes × Bytes)}
    (legible : ∀ entry ∈ entries, LegibleField entry) (mf : MimeFields) (more : Bytes)
    {rounds : Nat} (enough : entries.length < rounds) :
    fieldsLoad rounds mf (entries.flatMap fieldWrite ++ crlf ++ more) =
      some (fieldsLoaded mf entries, more) := by
  induction entries generalizing mf rounds with
  | nil =>
    cases rounds with
    | zero => exact absurd enough (Nat.not_lt_zero _)
    | succ rounds =>
      have found : strstr crlf (crlf ++ more) = some 0 := strstr_plain not_mem_nil more
      rw [flatMap_nil, nil_append, fieldsLoad, found]
      rfl
  | cons entry rest ih =>
    cases rounds with
    | zero => exact absurd enough (Nat.not_lt_zero _)
    | succ rounds =>
      have own := legible entry mem_cons_self
      have written : (entry :: rest).flatMap fieldWrite ++ crlf ++ more =
          fieldLine entry ++ crlf ++ (rest.flatMap fieldWrite ++ crlf ++ more) := by
        rw [flatMap_cons, fieldWrite_line]
        simp only [append_assoc]
      have found : strstr crlf (fieldLine entry ++ crlf ++
          (rest.flatMap fieldWrite ++ crlf ++ more)) = some (fieldLine entry).length :=
        strstr_plain (fieldLine_plain own) _
      have line : (fieldLine entry ++ crlf ++ (rest.flatMap fieldWrite ++ crlf ++ more)).take
          (fieldLine entry).length = fieldLine entry := by
        rw [append_assoc, take_left' rfl]
      have behind : (fieldLine entry ++ crlf ++ (rest.flatMap fieldWrite ++ crlf ++ more)).drop
          ((fieldLine entry).length + 2) = rest.flatMap fieldWrite ++ crlf ++ more :=
        drop_left' (by rw [length_append]; rfl)
      have notEmpty : (fieldLine entry).length ≠ 0 := by
        rw [fieldLine, length_append, length_cons]
        omega
      have last : ¬(fieldLine entry ++ crlf ++ (rest.flatMap fieldWrite ++ crlf ++ more))[
          (fieldLine entry).length - 1]? = some semicolon := by
        rw [append_assoc, getElem?_append_left (by omega), ← getLast?_eq_getElem?]
        exact fieldLine_ends own
      rw [written, fieldsLoad, found]
      simp only [if_neg notEmpty, if_neg last, line, behind]
      rw [loadline_field own, fieldsLoaded]
      exact ih (fun other later => legible other (mem_cons_of_mem _ later)) _
        (Nat.lt_of_succ_lt_succ enough)

end Purple.Mime
