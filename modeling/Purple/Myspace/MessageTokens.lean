/-
What a packed message looks like to the parser.

A packed element is a name and a value, or nothing; the backslashes in between make the
packed message one sequence of tokens.  The parser pairs the tokens in front of the first
end marker.
-/

import Purple.Myspace.Message

namespace Purple.Myspace

open List CString Decimal

variable (base64 : Base64)

/-- A boolean that is false packs to nothing, between two backslashes. -/
abbrev Item := Option (Bytes × Bytes)

def elementItem (element : MsimMessageElement MsimData) : Option Item :=
  if hidden element.name then none
  else
    match element.data with
    | .boolean value => some (if value then some (element.name.val, []) else none)
    | data => some (some (element.name.val, (msimMsgPackElementData base64 data).getD []))

def items (msg : MsimMessage) : List Item := msg.filterMap (elementItem base64)

def named (items : List Item) : List (Bytes × Bytes) := items.filterMap id

def unpacked (msg : MsimMessage) : MsimMessage :=
  (named (items base64 msg)).map fun pair => rawElement pair.1 pair.2

def text (msg : MsimMessage) : Bytes := (msimMsgPack base64 msg).getD []

def itemTokens : Item → List Bytes
  | none => [[]]
  | some (name, value) => [name, value]

def tokens (items : List Item) : List Bytes := items.flatMap itemTokens

/-- No element at all still leaves an empty token. -/
def body (items : List Item) : List Bytes := if items = [] then [[]] else tokens items

def slashed (tokens : List Bytes) : Bytes := tokens.flatMap (92 :: ·)

def pairs : List Bytes → List (Bytes × Bytes)
  | first :: second :: tokens => (first, second) :: pairs tokens
  | _ => []

theorem parseTokens_pairs (tokens : List Bytes) :
    parseTokens tokens = (pairs tokens).map fun pair => rawElement pair.1 pair.2 := by
  induction tokens using pairs.induct with
  | case1 first second tokens ih => rw [parseTokens, pairs, ih, map_cons]
  | case2 tokens short =>
    rw [parseTokens, pairs]
    · rfl
    · exact short
    · exact short

def itemString : Item → Bytes
  | none => []
  | some (name, value) => name ++ [92] ++ value

theorem packElement_item (element : MsimMessageElement MsimData) :
    msimMsgPackElement base64 element = (elementItem base64 element).map itemString := by
  obtain ⟨name, data⟩ := element
  rw [msimMsgPackElement, elementItem]
  split
  · rfl
  · cases data with
    | boolean value =>
      cases value with
      | false => rfl
      | true => exact congrArg some (append_nil _).symm
    | _ => rfl

theorem slashed_item (item : Item) : slashed (itemTokens item) = 92 :: itemString item := by
  cases item with
  | none => rfl
  | some pair =>
    change 92 :: pair.1 ++ (92 :: pair.2 ++ []) = 92 :: (pair.1 ++ [92] ++ pair.2)
    rw [append_nil, append_assoc]
    rfl

theorem join_slashed {strings : List Bytes} (some' : strings ≠ []) :
    [92] ++ strjoinv 92 strings = slashed strings := by
  induction strings with
  | nil => exact absurd rfl some'
  | cons string strings ih =>
    cases strings with
    | nil =>
      rw [strjoinv, intercalate_singleton]
      exact (append_nil _).symm
    | cons next strings =>
      have later := ih (cons_ne_nil _ _)
      rw [strjoinv] at later
      rw [strjoinv, intercalate_cons_cons, append_assoc, later]
      rfl

theorem slashed_cons (token : Bytes) (tokens : List Bytes) :
    slashed (token :: tokens) = (92 :: token) ++ slashed tokens := flatMap_cons

theorem slashed_append (first second : List Bytes) :
    slashed (first ++ second) = slashed first ++ slashed second := flatMap_append

theorem slashed_strings (items : List Item) :
    slashed (items.map itemString) = slashed (tokens items) := by
  induction items with
  | nil => rfl
  | cons item items ih =>
    rw [tokens, flatMap_cons, slashed_append, slashed_item, ← tokens, ← ih, map_cons,
      slashed_cons]

theorem text_slashed {msg : MsimMessage} (some' : msg ≠ []) :
    text base64 msg = slashed (body (items base64 msg)) ++ finalString := by
  have strings : msg.filterMap (msimMsgPackElement base64) = (items base64 msg).map itemString := by
    rw [items, map_filterMap]
    congr 1
    exact funext (packElement_item base64)
  have full : msg.isEmpty = false := isEmpty_eq_false_iff.mpr some'
  rw [text, msimMsgPack, full, if_neg Bool.false_ne_true, Option.getD_some, strings, body]
  by_cases none' : items base64 msg = []
  · rw [none', if_pos rfl]
    rfl
  · have some'' : (items base64 msg).map itemString ≠ [] := fun empty =>
      none' (map_eq_nil_iff.mp empty)
    rw [if_neg none', join_slashed some'', slashed_strings]

theorem strsplit_strjoinv {separator : UInt8} {strings : List Bytes} (some' : strings ≠ [])
    (plain : ∀ string ∈ strings, separator ∉ string) :
    strsplit separator (strjoinv separator strings) = if strings = [[]] then [] else strings := by
  rw [strsplit, strjoinv, splitOn_intercalate separator plain some']
  by_cases single : strings = [[]]
  · rw [if_pos single, single]
    rfl
  · rw [if_neg single, if_neg]
    intro empty
    cases strings with
    | nil => exact some' rfl
    | cons first rest =>
      cases rest with
      | nil =>
        rw [intercalate_singleton] at empty
        exact single (congrArg ([·]) empty)
      | cons second rest =>
        rw [intercalate_cons_cons] at empty
        exact cons_ne_nil _ _
          (append_eq_nil_iff.mp (append_eq_nil_iff.mp empty).1).2

theorem parse_slashed {tokens : List Bytes} (some' : tokens ≠ [])
    (plain : ∀ token ∈ tokens, 92 ∉ token) :
    msimParse (slashed tokens) = (pairs tokens).map fun pair => rawElement pair.1 pair.2 := by
  rw [← join_slashed some', ← parseTokens_pairs]
  change parseTokens (strsplit 92 (strjoinv 92 tokens)) = _
  rw [strsplit_strjoinv some' plain]
  split
  · rename_i single
    rw [single]
    rfl
  · rfl

theorem tokens_length (items : List Item) :
    2 * (named items).length ≤ (tokens items).length := by
  induction items with
  | nil => exact Nat.le_refl _
  | cons item items ih =>
    rw [tokens, flatMap_cons, length_append, ← tokens]
    cases item with
    | none =>
      change 2 * (named items).length ≤ 1 + (tokens items).length
      omega
    | some pair =>
      change 2 * ((named items).length + 1) ≤ 2 + (tokens items).length
      omega

theorem pairs_length (tokens : List Bytes) : (pairs tokens).length = tokens.length / 2 := by
  induction tokens using pairs.induct with
  | case1 first second tokens ih =>
    rw [pairs, length_cons, ih, length_cons, length_cons]
    omega
  | case2 tokens short =>
    cases tokens with
    | nil => rfl
    | cons first tokens =>
      cases tokens with
      | nil => exact (Nat.div_eq_of_lt (show 1 < 2 from Nat.lt_succ_self 1)).symm
      | cons second tokens => exact absurd rfl (short first second tokens)

theorem pairs_shifted_iff (token : Bytes) (items : List Item) :
    pairs (token :: tokens items) = named items ↔ ∀ item ∈ items, item = some (token, token) := by
  induction items generalizing token with
  | nil => exact ⟨fun _ _ member => absurd member not_mem_nil, fun _ => rfl⟩
  | cons item items ih =>
    cases item with
    | none =>
      constructor
      · intro same
        have counted := congrArg List.length same
        change (pairs (tokens items)).length + 1 = (named items).length at counted
        have enough := tokens_length items
        rw [pairs_length] at counted
        omega
      · exact fun alike => (nomatch alike none mem_cons_self)
    | some pair =>
      change (token, pair.1) :: pairs (pair.2 :: tokens items) = pair :: named items ↔ _
      rw [List.cons.injEq, ih, forall_mem_cons, Option.some.injEq]
      constructor
      · rintro ⟨here, later⟩
        have first := congrArg Prod.fst here
        have second := congrArg Prod.snd here
        change token = pair.1 at first
        change pair.1 = pair.2 at second
        rw [← second, ← first] at later
        exact ⟨Prod.ext first.symm (second.symm.trans first.symm), later⟩
      · rintro ⟨rfl, later⟩
        exact ⟨rfl, later⟩

/-- Behind an element that packs to nothing there is only what is blank. -/
def Aligned : List Item → Prop
  | [] => True
  | some _ :: items => Aligned items
  | none :: items => ∀ item ∈ items, item = some ([], [])

theorem pairs_tokens_iff (items : List Item) : pairs (tokens items) = named items ↔ Aligned items := by
  induction items with
  | nil => exact ⟨fun _ => trivial, fun _ => rfl⟩
  | cons item items ih =>
    cases item with
    | none => exact pairs_shifted_iff [] items
    | some pair =>
      change pair :: pairs (tokens items) = pair :: named items ↔ _
      rw [List.cons.injEq, ih]
      exact ⟨fun both => both.2, fun aligned => ⟨rfl, aligned⟩⟩

end Purple.Myspace
