/-
What is parsed from a challenge that was rendered from a list of directives.

A quote always toggles and cannot be escaped.  A value with quotes is read back where
its quotes pair up and its commas stand outside the pairs.
-/

import Purple.Jabber.DigestMd5

namespace Purple.Jabber.DigestMd5

open List

structure Directive where
  name : Bytes
  value : Bytes
  quoted : Bool
deriving DecidableEq, Repr

/-- `name="value"` or `name=value` -/
def Directive.render (directive : Directive) : Bytes :=
  directive.name ++ 61 ::
    if directive.quoted then 34 :: (directive.value ++ [34]) else directive.value

/-- Each directive with the white space behind the comma that follows it. -/
def render : List (Directive × Bytes) → Bytes
  | [] => []
  | [(directive, _)] => directive.render
  | (directive, space) :: next :: rest =>
    directive.render ++ 44 :: (space ++ render (next :: rest))

def isPlain (byte : UInt8) : Bool := !isSeparator byte && byte != 34 && byte != 0

structure Directive.Formed (directive : Directive) (last : Bool) : Prop where
  named : directive.name ≠ []
  plainName : ∀ byte ∈ directive.name, isPlain byte = true ∧ byte ≠ 61
  solid : 0 ∉ directive.value
  unquoted : directive.quoted = false → ∀ byte ∈ directive.value, isPlain byte = true
  begins : ∀ byte, directive.value.head? = some byte → isPlain byte = true
  ends : ∀ byte, directive.value.getLast? = some byte → isPlain byte = true
  /-- Every comma is behind an even number of the value's own quotes. -/
  commas : ∀ front back, directive.value = front ++ 44 :: back → front.count 34 % 2 = 0
  quotes : last = false → directive.value.count 34 % 2 = 0

def SpacedFormed : List (Directive × Bytes) → Prop
  | [] => True
  | [(directive, _)] => directive.Formed true
  | (directive, space) :: next :: rest =>
    directive.Formed false ∧ (∀ byte ∈ space, isWhite byte = true) ∧ SpacedFormed (next :: rest)

structure Formed (list : List (Directive × Bytes)) : Prop where
  distinct : (list.map (·.1.name)).Nodup
  spaced : SpacedFormed list

def toggled (inQuotes : Bool) (text : Bytes) : Bool :=
  text.foldl (fun inQuotes byte => if byte = 34 then !inQuotes else inQuotes) inQuotes

def commasQuoted : Bool → Bytes → Prop
  | _, [] => True
  | inQuotes, byte :: rest =>
    (byte = 44 → inQuotes = true) ∧ commasQuoted (if byte = 34 then !inQuotes else inQuotes) rest

variable {text : Bytes} {directive : Directive}

theorem toggled_append (inQuotes : Bool) (front back : Bytes) :
    toggled inQuotes (front ++ back) = toggled (toggled inQuotes front) back :=
  foldl_append

theorem commasQuoted_append (inQuotes : Bool) (front back : Bytes) :
    commasQuoted inQuotes (front ++ back) ↔
      commasQuoted inQuotes front ∧ commasQuoted (toggled inQuotes front) back := by
  induction front generalizing inQuotes with
  | nil => exact (and_iff_right trivial).symm
  | cons byte front ih =>
    rw [cons_append, commasQuoted, commasQuoted, ih, and_assoc]
    rfl

theorem tokenSplit_through {inQuotes : Bool} (quoted : commasQuoted inQuotes text) (more : Bytes) :
    tokenSplit inQuotes (text ++ more) =
      (text ++ (tokenSplit (toggled inQuotes text) more).1,
        (tokenSplit (toggled inQuotes text) more).2) := by
  induction text generalizing inQuotes with
  | nil => rfl
  | cons byte text ih =>
    obtain ⟨here, later⟩ := quoted
    have inside : inQuotes = true ∨ byte ≠ 44 := by
      by_cases comma : byte = 44
      · exact .inl (here comma)
      · exact .inr comma
    rw [cons_append, tokenSplit, if_pos inside]
    dsimp only
    rw [ih later]
    rfl

theorem toggled_count (inQuotes : Bool) (text : Bytes) :
    toggled inQuotes text = if text.count 34 % 2 = 0 then inQuotes else !inQuotes := by
  induction text generalizing inQuotes with
  | nil => rfl
  | cons byte text ih =>
    change toggled (if byte = 34 then !inQuotes else inQuotes) text = _
    rw [ih]
    by_cases quote : byte = 34
    · rw [if_pos quote, quote, count_cons_self, Bool.not_not]
      rcases Nat.mod_two_eq_zero_or_one (text.count 34) with even | odd
      · rw [if_pos even, if_neg (by omega)]
      · rw [if_neg (by omega), if_pos (by omega)]
    · rw [if_neg quote, count_cons_of_ne quote]

theorem commasQuoted_of_splits {inQuotes : Bool}
    (splits : ∀ front back, text = front ++ 44 :: back → toggled inQuotes front = true) :
    commasQuoted inQuotes text := by
  induction text generalizing inQuotes with
  | nil => trivial
  | cons byte text ih =>
    constructor
    · rintro rfl
      exact splits [] text rfl
    · apply ih
      intro front back split
      exact splits (byte :: front) back (by rw [split]; rfl)

theorem plain_commasQuoted (plain : ∀ byte ∈ text, isPlain byte = true) (inQuotes : Bool) :
    commasQuoted inQuotes text ∧ toggled inQuotes text = inQuotes := by
  induction text with
  | nil => exact ⟨trivial, rfl⟩
  | cons byte text ih =>
    have here := plain byte mem_cons_self
    have noComma : byte ≠ 44 := by
      rintro rfl
      exact absurd here (by decide)
    have noQuote : byte ≠ 34 := by
      rintro rfl
      exact absurd here (by decide)
    obtain ⟨commas, same⟩ := ih fun byte member => plain byte (mem_cons_of_mem _ member)
    rw [commasQuoted, if_neg noQuote]
    refine ⟨⟨fun comma => absurd comma noComma, commas⟩, ?_⟩
    change toggled (if byte = 34 then !inQuotes else inQuotes) text = _
    rw [if_neg noQuote]
    exact same

/-- A rendered directive has its commas in quotes, and its quotes are closed behind it
unless it is the last one. -/
theorem render_quoted {last : Bool} (formed : directive.Formed last) :
    commasQuoted false directive.render ∧
      (last = false → toggled false directive.render = false) := by
  have name := plain_commasQuoted (fun byte member => (formed.plainName byte member).1) false
  rw [Directive.render, commasQuoted_append, toggled_append, name.2]
  cases quoted : directive.quoted with
  | false =>
    have value := plain_commasQuoted (formed.unquoted quoted) false
    exact ⟨⟨name.1, fun comma => absurd comma (by decide), value.1⟩, fun _ => value.2⟩
  | true =>
    have inside : commasQuoted true directive.value := by
      apply commasQuoted_of_splits
      intro front back split
      rw [toggled_count, if_pos (formed.commas front back split)]
    constructor
    · refine ⟨name.1, fun comma => absurd comma (by decide), fun comma => absurd comma (by decide), ?_⟩
      refine (commasQuoted_append true directive.value [34]).mpr ⟨inside, ?_⟩
      exact ⟨fun comma => absurd comma (by decide), trivial⟩
    · intro further
      change toggled true (directive.value ++ [34]) = false
      rw [toggled_append, toggled_count true directive.value, if_pos (formed.quotes further)]
      rfl

theorem plain_kept {byte : UInt8} (plain : isPlain byte = true) :
    isLead byte = false ∧ isTrail byte = false ∧ isSeparator byte = false := by
  simp only [isPlain, Bool.and_eq_true, Bool.not_eq_true', bne_iff_ne, isSeparator,
    Bool.or_eq_false_iff] at plain
  obtain ⟨⟨⟨white, comma⟩, quote⟩, solid⟩ := plain
  simp only [isLead, isTrail, isSeparator, white, comma, Bool.false_or, Bool.or_false, beq_eq_false_iff_ne]
  exact ⟨quote, by rw [Bool.or_eq_false_iff]; exact ⟨beq_eq_false_iff_ne.mpr quote, beq_eq_false_iff_ne.mpr solid⟩, trivial⟩

section Values

variable {value : Bytes} (begins : ∀ byte, value.head? = some byte → isPlain byte = true)
  (ends : ∀ byte, value.getLast? = some byte → isPlain byte = true)

include ends in
theorem trail_kept : value.rdropWhile isTrail = value := by
  apply rdropWhile_eq_self_iff.mpr
  intro nonempty
  have last := ends _ (getLast?_eq_some_getLast nonempty)
  rw [(plain_kept last).2.1]
  exact Bool.false_ne_true

include begins in
theorem lead_kept (more : Bytes) (nonempty : value ≠ []) :
    (value ++ more).dropWhile isLead = value ++ more := by
  obtain ⟨byte, rest, rfl⟩ := exists_cons_of_ne_nil nonempty
  have first := begins byte rfl
  rw [cons_append, dropWhile_cons, (plain_kept first).1]
  rfl

include begins ends

theorem trimValue_plain : trimValue value = value := by
  by_cases nonempty : value ≠ []
  · have lead := lead_kept begins [] nonempty
    rw [append_nil] at lead
    rw [trimValue, lead, trail_kept ends]
  · rw [not_not] at nonempty
    rw [nonempty]
    rfl

theorem trimValue_quoted : trimValue (34 :: (value ++ [34])) = value := by
  have first : isLead 34 = true := rfl
  by_cases nonempty : value ≠ []
  · rw [trimValue, dropWhile_cons, if_pos first, lead_kept begins [34] nonempty,
      rdropWhile_concat_pos _ _ _ rfl, trail_kept ends]
  · rw [not_not] at nonempty
    rw [nonempty]
    rfl

end Values

theorem tokenEntry_render {last : Bool} (formed : directive.Formed last) :
    tokenEntry directive.render = some (directive.name, some directive.value) := by
  have name : ∀ byte ∈ directive.name, (byte != 61) = true := fun byte member =>
    bne_iff_ne.mpr (formed.plainName byte member).2
  rw [tokenEntry, Directive.render, takeWhile_append_of_pos name,
    dropWhile_append_of_pos name]
  have stops (rest : Bytes) : (61 :: rest).takeWhile (· != 61) = [] := rfl
  have starts (rest : Bytes) : (61 :: rest).dropWhile (· != 61) = 61 :: rest := rfl
  rw [stops, starts, append_nil, if_neg formed.named, tail?_cons, Option.map_some]
  congr 3
  cases directive.quoted with
  | false => exact trimValue_plain formed.begins formed.ends
  | true => exact trimValue_quoted formed.begins formed.ends

def addDirective (table : Directives) (directive : Directive) : Directives :=
  table.insert directive.name (some directive.value)

theorem render_ne_nil (directive : Directive) (more : Bytes) : directive.render ++ more ≠ [] := by
  rw [Directive.render, append_assoc]
  exact append_ne_nil_of_right_ne_nil _ (cons_ne_nil _ _)

theorem parseText_token (more : text ≠ []) (table : Directives) :
    parseText text table =
      parseText (nextText text) (addEntry table (tokenEntry (tokenSplit false text).1)) := by
  conv_lhs => rw [parseText, dif_pos more]

theorem parseText_last (formed : directive.Formed true) (table : Directives) :
    parseText directive.render table = addDirective table directive := by
  have split := tokenSplit_through (render_quoted formed).1 []
  rw [append_nil] at split
  have nonempty := render_ne_nil directive []
  rw [append_nil] at nonempty
  rw [parseText_token nonempty, nextText, split, tokenSplit]
  dsimp only
  rw [append_nil, tokenEntry_render formed]
  change parseText [] _ = _
  rw [parseText, dif_neg (not_not_intro rfl)]
  rfl

theorem skip_render {last : Bool} {directive : Directive} (formed : directive.Formed last)
    (more : Bytes) :
    (directive.render ++ more).dropWhile isSeparator = directive.render ++ more := by
  obtain ⟨byte, rest, name⟩ := exists_cons_of_ne_nil formed.named
  have plain := (formed.plainName byte (by rw [name]; exact mem_cons_self)).1
  rw [Directive.render, name, cons_append, cons_append, dropWhile_cons,
    (plain_kept plain).2.2]
  rfl

theorem parseText_next {space more : Bytes} (formed : directive.Formed false)
    (white : ∀ byte ∈ space, isWhite byte = true) (skipped : more.dropWhile isSeparator = more)
    (table : Directives) :
    parseText (directive.render ++ 44 :: (space ++ more)) table =
      parseText more (addDirective table directive) := by
  obtain ⟨quoted, closed⟩ := render_quoted formed
  have split := tokenSplit_through quoted (44 :: (space ++ more))
  have stopped (rest : Bytes) : tokenSplit false (44 :: rest) = ([], 44 :: rest) := rfl
  have separators : ∀ byte ∈ space, isSeparator byte = true := by
    intro byte member
    rw [isSeparator, white byte member]
    rfl
  rw [closed rfl, stopped, append_nil] at split
  rw [parseText_token (render_ne_nil _ _), nextText, split, tokenEntry_render formed]
  change parseText ((space ++ more).dropWhile isSeparator) _ = _
  rw [dropWhile_append_of_pos separators, skipped]
  rfl

theorem parseText_render : ∀ (list : List (Directive × Bytes)), SpacedFormed list → ∀ table,
    parseText (render list) table = (list.map Prod.fst).foldl addDirective table
  | [], _, table => by
    rw [render, parseText, dif_neg (not_not_intro rfl)]
    rfl
  | [(directive, space)], formed, table => parseText_last formed table
  | (directive, space) :: next :: rest, formed, table => by
    obtain ⟨first, white, later⟩ := formed
    have skipped : (render (next :: rest)).dropWhile isSeparator = render (next :: rest) := by
      cases rest with
      | nil =>
        have alone := @skip_render true next.1 later []
        rw [append_nil] at alone
        exact alone
      | cons other rest => exact skip_render later.1 _
    rw [render, parseText_next first white skipped, parseText_render _ later]
    rfl

theorem lookup_addDirectives (directives : List Directive)
    (distinct : (directives.map Directive.name).Nodup) (table : Directives)
    (fresh : ∀ directive ∈ directives, table.lookup directive.name = none) (name : Bytes)
    (value : Option Bytes) :
    (directives.foldl addDirective table).lookup name = some value ↔
      table.lookup name = some value ∨
        ∃ directive ∈ directives, directive.name = name ∧ value = some directive.value := by
  induction directives generalizing table with
  | nil => exact ⟨.inl, fun held => held.elim id fun ⟨_, member, _⟩ => absurd member not_mem_nil⟩
  | cons directive directives ih =>
    obtain ⟨single, distinct⟩ := nodup_cons.mp distinct
    have later : ∀ other ∈ directives,
        (addDirective table directive).lookup other.name = none := by
      intro other member
      have differs : other.name ≠ directive.name := fun same =>
        single (same ▸ List.mem_map_of_mem member)
      rw [addDirective, HashTable.lookup_insert_other _ differs]
      exact fresh other (mem_cons_of_mem _ member)
    refine (ih distinct (addDirective table directive) later).trans ?_
    have unused := fresh directive mem_cons_self
    rw [addDirective]
    by_cases here : name = directive.name
    · subst here
      rw [HashTable.lookup_insert_self, unused]
      constructor
      · rintro (same | ⟨other, member, isName, isValue⟩)
        · exact .inr ⟨directive, mem_cons_self, rfl, (Option.some.inj same).symm⟩
        · exact .inr ⟨other, mem_cons_of_mem _ member, isName, isValue⟩
      · rintro (impossible | ⟨other, member, isName, isValue⟩)
        · cases impossible
        · rcases mem_cons.mp member with rfl | member
          · exact .inl (congrArg some isValue.symm)
          · exact .inr ⟨other, member, isName, isValue⟩
    · rw [HashTable.lookup_insert_other _ here]
      constructor
      · rintro (old | ⟨other, member, isName, isValue⟩)
        · exact .inl old
        · exact .inr ⟨other, mem_cons_of_mem _ member, isName, isValue⟩
      · rintro (old | ⟨other, member, isName, isValue⟩)
        · exact .inl old
        · rcases mem_cons.mp member with rfl | member
          · exact absurd isName.symm here
          · exact .inr ⟨other, member, isName, isValue⟩

theorem directive_clean {directive : Directive} {last : Bool} (formed : directive.Formed last) :
    0 ∉ directive.render := by
  intro nul
  rw [Directive.render] at nul
  rcases mem_append.mp nul with name | nul
  · exact absurd (formed.plainName 0 name).1 (by decide)
  · rcases mem_cons.mp nul with equals | nul
    · exact absurd equals (by decide)
    · cases quoted : directive.quoted with
      | false =>
        rw [quoted] at nul
        exact formed.solid nul
      | true =>
        rw [quoted] at nul
        rcases mem_cons.mp nul with quote | nul
        · exact absurd quote (by decide)
        · rcases mem_append.mp nul with value | quote
          · exact formed.solid value
          · exact absurd (mem_singleton.mp quote) (by decide)

theorem render_clean : ∀ (list : List (Directive × Bytes)), SpacedFormed list → 0 ∉ render list
  | [], _ => not_mem_nil
  | [(directive, space)], formed => @directive_clean directive true formed
  | (directive, space) :: next :: rest, ⟨first, white, later⟩ => by
    intro nul
    rcases mem_append.mp nul with here | nul
    · exact directive_clean first here
    · rcases mem_cons.mp nul with comma | nul
      · exact absurd comma (by decide)
      · rcases mem_append.mp nul with spaced | nul
        · exact absurd (white 0 spaced) (by decide)
        · exact render_clean _ later nul

/-- Every challenge is parsed without a read outside it, and a rendered list gives exactly
its directives. -/
theorem digestMd5Parse_exact :
    (∀ challenge, (jabberAuthDigestMd5Parse challenge).isSome = true) ∧
      ∀ list, Formed list → ∃ table, jabberAuthDigestMd5Parse (render list) = some table ∧
        ∀ name value, table.lookup name = some value ↔
          ∃ entry ∈ list, entry.1.name = name ∧ value = some entry.1.value := by
  constructor
  · intro challenge
    rw [parse_text]
    rfl
  · intro list formed
    refine ⟨_, parse_text (render list), fun name value => ?_⟩
    have distinct : ((list.map Prod.fst).map Directive.name).Nodup := by
      rw [List.map_map]
      exact formed.distinct
    rw [CString.cString_clean (render_clean list formed.spaced), parseText_render list formed.spaced,
      lookup_addDirectives _ distinct _ fun _ _ => rfl, HashTable.lookup_empty]
    constructor
    · rintro (impossible | ⟨directive, member, isName, isValue⟩)
      · cases impossible
      · obtain ⟨entry, listed, rfl⟩ := List.mem_map.mp member
        exact ⟨entry, listed, isName, isValue⟩
    · rintro ⟨entry, listed, isName, isValue⟩
      exact .inr ⟨entry.1, List.mem_map_of_mem listed, isName, isValue⟩

theorem commas_of_quoteFree {value : Bytes} (quoteFree : 34 ∉ value) (front back : Bytes)
    (split : value = front ++ 44 :: back) : front.count 34 % 2 = 0 := by
  have absent : 34 ∉ front := fun member => quoteFree (by
    rw [split]
    exact mem_append_left _ member)
  rw [count_eq_zero.mpr absent]

open CString in
/-- `realm="some, realm", qop=auth` -/
theorem realm_parsed : ∃ table,
    jabberAuthDigestMd5Parse (render [(⟨ascii "realm", ascii "some, realm", true⟩, [32]),
      (⟨ascii "qop", ascii "auth", false⟩, [])]) = some table ∧
    ∀ name value, table.lookup name = some value ↔
      ∃ entry ∈ [((⟨ascii "realm", ascii "some, realm", true⟩ : Directive), ([32] : Bytes)),
        (⟨ascii "qop", ascii "auth", false⟩, [])],
        entry.1.name = name ∧ value = some entry.1.value := by
  apply digestMd5Parse_exact.2
  refine ⟨by decide +kernel, ?_, by decide +kernel, ?_⟩
  · exact {
      named := by decide +kernel
      plainName := by decide +kernel
      solid := by decide +kernel
      unquoted := nofun
      begins := by rintro byte ⟨⟩; rfl
      ends := by rintro byte ⟨⟩; rfl
      commas := commas_of_quoteFree (by decide +kernel)
      quotes := fun _ => by decide +kernel }
  · exact {
      named := by decide +kernel
      plainName := by decide +kernel
      solid := by decide +kernel
      unquoted := fun _ => by decide +kernel
      begins := by rintro byte ⟨⟩; rfl
      ends := by rintro byte ⟨⟩; rfl
      commas := commas_of_quoteFree (by decide +kernel)
      quotes := fun _ => by decide +kernel }

open CString in
/-- A quote inside a value takes in the next directive, and a form feed stays in the next
name. -/
theorem misread_directives :
    (jabberAuthDigestMd5Parse (render [(⟨ascii "n", [97, 34, 98], true⟩, []),
      (⟨ascii "m", ascii "c", false⟩, [])])).map (·.lookup (ascii "m")) = some none ∧
    (jabberAuthDigestMd5Parse (render [(⟨ascii "n", ascii "a", false⟩, [12]),
      (⟨ascii "m", ascii "c", false⟩, [])])).map (·.lookup (ascii "m")) = some none := by
  decide +kernel

end Purple.Jabber.DigestMd5
