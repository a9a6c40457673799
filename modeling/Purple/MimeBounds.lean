/-
The cursor and the remaining length of the parser of mime.c.

The buffer is the bytes before `buf + len`, so a read at or beyond it is `none`.
Each call of `g_strstr_len` in `fields_load` and `doc_parts_load` is recorded
with its cursor, its remaining length and the end of the input it searches.
-/

import Purple.Mime

namespace Purple.Mime

open List Option CString

/-- The needle against what stands at `p`, up to the first difference. -/
def matchesAt (buf : Bytes) : Bytes → Nat → Option Bool
  | [], _ => some true
  | byte :: rest, p =>
    (buf[p]?).bind fun found => if found = byte then matchesAt buf rest (p + 1) else some false

/-- The loop over the places where the needle has room, which a NUL ends. -/
def searchFrom (buf needle : Bytes) : Nat → Nat → Option (Option Nat)
  | 0, _ => some none
  | places + 1, p =>
    (buf[p]?).bind fun byte =>
      if byte = 0 then some none
      else
        (matchesAt buf needle p).bind fun same =>
          if same then some (some p) else searchFrom buf needle places (p + 1)

def gStrstrLen (buf : Bytes) (cursor len : Nat) (needle : Bytes) : Option (Option Nat) :=
  if len < needle.length then some none
  else searchFrom buf needle (len - needle.length + 1) cursor

/-! ### The loops with their cursors -/

structure SearchCall where
  cursor : Nat
  len : Nat
  stop : Nat

def SearchCall.exact (call : SearchCall) : Prop := call.cursor + call.len = call.stop

/-- The bytes of a line up to a NUL, as `g_strndup` copies them. -/
def lineAt (buf : Bytes) (line len : Nat) : Option Bytes :=
  if line + len ≤ buf.length then some (cString ((buf.drop line).take len)) else none

structure FieldsLoaded where
  fields : MimeFields
  cursor : Nat
  len : Nat
  calls : List SearchCall

/-- `fields_load` of an input that ends at `stop`. -/
def fieldsLoadAt (buf : Bytes) (stop : Nat) :
    Nat → List SearchCall → MimeFields → Nat → Nat → Option FieldsLoaded
  | 0, _, _, _, _ => none
  | rounds + 1, calls, mf, cursor, len => do
    let calls := calls ++ [⟨cursor, len, stop⟩]
    match ← gStrstrLen buf cursor len crlf with
    | none => return ⟨mf, cursor, len, calls⟩
    | some tail =>
      let ln := tail - cursor
      if ln = 0 then return ⟨mf, tail + 2, len - (ln + 2), calls⟩
      else
        if (← buf[cursor + ln - 1]?) = semicolon then
          let calls := calls ++ [⟨tail + 2, len - (ln + 2), stop⟩]
          match ← gStrstrLen buf (tail + 2) (len - (ln + 2)) crlf with
          | none =>
            fieldsLoadAt buf stop rounds calls (fieldsLoadline mf (← lineAt buf cursor ln))
              (tail + 2) (len - (ln + 2))
          | some behind =>
            fieldsLoadAt buf stop rounds calls
              (fieldsLoadline mf (← lineAt buf cursor (behind - cursor)))
              (behind + 2) (len - (ln + 2) - (behind - (tail + 2) + 2))
        else
          fieldsLoadAt buf stop rounds calls (fieldsLoadline mf (← lineAt buf cursor ln))
            (tail + 2) (len - (ln + 2))

/-- `part_load`: the data is cut by four bytes where there are more. -/
def partLoadAt (buf : Bytes) (calls : List SearchCall) (cursor len : Nat) :
    Option (MimePart × List SearchCall) := do
  let loaded ← fieldsLoadAt buf (cursor + len) (buf.length + 1) calls fieldsInit cursor len
  let n := if loaded.len > 4 then loaded.len - 4 else loaded.len
  if loaded.cursor + n ≤ buf.length then
    return ({ fields := loaded.fields, data := (buf.drop loaded.cursor).take n }, loaded.calls)
  else none

/-- Behind a boundary at `cursor` and the two bytes behind it, if there are two. -/
def behindBoundary (bnd : Bytes) (cursor len : Nat) : Nat :=
  cursor + bnd.length + if 2 ≤ len - bnd.length then 2 else 0

def lengthBehind (bnd : Bytes) (len : Nat) : Nat :=
  len - bnd.length - if 2 ≤ len - bnd.length then 2 else 0

/-- The loop of `doc_parts_load` from a boundary at `cursor` on. -/
def docPartsLoadAt (buf bnd : Bytes) :
    Nat → List SearchCall → List MimePart → Nat → Nat → Option (List MimePart × List SearchCall)
  | 0, _, _, _, _ => none
  | rounds + 1, calls, parts, cursor, len => do
    let cursor := behindBoundary bnd cursor len
    let len := lengthBehind bnd len
    let calls := calls ++ [⟨cursor, len, buf.length⟩]
    match ← gStrstrLen buf cursor len bnd with
    | none => return (parts, calls)
    | some tail =>
      if tail - cursor = 0 then docPartsLoadAt buf bnd rounds calls parts tail len
      else
        let (part, calls) ← partLoadAt buf calls cursor (tail - cursor)
        docPartsLoadAt buf bnd rounds calls (part :: parts) tail len

/-- `doc_parts_load` -/
def docPartsAt (buf boundary : Bytes) (calls : List SearchCall) (cursor len : Nat) :
    Option (List MimePart × List SearchCall) := do
  let bnd := dashes ++ boundary
  let calls := calls ++ [⟨cursor, len, buf.length⟩]
  match ← gStrstrLen buf cursor len bnd with
  | none => return ([], calls)
  | some found => docPartsLoadAt buf bnd (buf.length + 1) calls [] found len

def partsBoundary (mf : MimeFields) : Option Bytes := (multipartType mf).bind parseBoundary

/-- `purple_mime_document_parsen` of a buffer and its length. -/
def purpleMimeDocumentParsen (buf : Bytes) : Option (MimeDocument × List SearchCall) :=
  if buf.length = 0 then some (purpleMimeDocumentNew, [])
  else do
    let loaded ← fieldsLoadAt buf buf.length (buf.length + 1) [] fieldsInit 0 buf.length
    match partsBoundary loaded.fields with
    | none => return ({ fields := loaded.fields, parts := [] }, loaded.calls)
    | some boundary =>
      let (parts, calls) ← docPartsAt buf boundary loaded.calls loaded.cursor loaded.len
      return ({ fields := loaded.fields, parts }, calls)

/-- The parser ends, reads nothing behind the buffer, and each remaining length
is the distance to the end. -/
def ParsesInBounds (buf : Bytes) : Prop :=
  ∃ doc calls, purpleMimeDocumentParsen buf = some (doc, calls) ∧ ∀ call ∈ calls, call.exact

/-- From the boundary at the cursor on, each boundary that is found stands where
the search for it starts. -/
inductive Adjacent (buf bnd : Bytes) : Nat → Prop where
  | last {cursor behind : Nat} (here : behind = behindBoundary bnd cursor (buf.length - cursor))
      (none : gStrstrLen buf behind (buf.length - behind) bnd = some none) : Adjacent buf bnd cursor
  | next {cursor behind : Nat} (here : behind = behindBoundary bnd cursor (buf.length - cursor))
      (found : gStrstrLen buf behind (buf.length - behind) bnd = some (some behind))
      (rest : Adjacent buf bnd behind) : Adjacent buf bnd cursor

/-- There is no boundary to look for, or the body has none, or it starts with one
and those behind it follow at once. -/
def BoundariesTogether (buf : Bytes) : Prop :=
  ∀ loaded boundary,
    fieldsLoadAt buf buf.length (buf.length + 1) [] fieldsInit 0 buf.length = some loaded →
    partsBoundary loaded.fields = some boundary →
      gStrstrLen buf loaded.cursor (buf.length - loaded.cursor) (dashes ++ boundary) = some none ∨
        gStrstrLen buf loaded.cursor (buf.length - loaded.cursor) (dashes ++ boundary) =
            some (some loaded.cursor) ∧
          Adjacent buf (dashes ++ boundary) loaded.cursor

variable {buf : Bytes} {calls : List SearchCall} {rounds : Nat}

theorem matchesAt_inside {buf needle : Bytes} {p : Nat} (inside : p + needle.length ≤ buf.length) :
    ∃ same, matchesAt buf needle p = some same := by
  induction needle generalizing p with
  | nil => exact ⟨true, rfl⟩
  | cons byte rest ih =>
    rw [length_cons] at inside
    rw [matchesAt, getElem?_eq_getElem (by omega), bind_some]
    split
    · exact ih (by omega)
    · exact ⟨false, rfl⟩

theorem searchFrom_inside {buf needle : Bytes} (nonempty : needle ≠ []) {places p : Nat}
    (inside : p + places + needle.length ≤ buf.length + 1) :
    ∃ found, searchFrom buf needle places p = some found ∧
      ∀ place, found = some place → p ≤ place ∧ place + 1 ≤ p + places := by
  have positive := length_pos_of_ne_nil nonempty
  induction places generalizing p with
  | zero => exact ⟨none, rfl, fun _ impossible => nomatch impossible⟩
  | succ places ih =>
    rw [searchFrom, getElem?_eq_getElem (by omega), bind_some]
    split
    · exact ⟨none, rfl, fun _ impossible => nomatch impossible⟩
    · obtain ⟨same, compared⟩ := @matchesAt_inside buf needle p (by omega)
      rw [compared, bind_some]
      cases same with
      | true =>
        refine ⟨some p, rfl, ?_⟩
        rintro _ ⟨rfl⟩
        omega
      | false =>
        obtain ⟨found, searched, between⟩ := ih (p := p + 1) (by omega)
        refine ⟨found, searched, fun place same => ?_⟩
        have bounds := between place same
        omega

/-- A search whose length ends inside the buffer reads nothing behind it, and
finds the needle inside the length. -/
theorem gStrstrLen_inside {buf needle : Bytes} (nonempty : needle ≠ []) {cursor len : Nat}
    (inside : cursor + len ≤ buf.length) :
    ∃ found, gStrstrLen buf cursor len needle = some found ∧
      ∀ place, found = some place → cursor ≤ place ∧ place + needle.length ≤ cursor + len := by
  rw [gStrstrLen]
  split
  · exact ⟨none, rfl, fun _ impossible => nomatch impossible⟩
  · obtain ⟨found, searched, between⟩ := @searchFrom_inside buf needle nonempty
      (len - needle.length + 1) cursor (by omega)
    refine ⟨found, searched, fun place same => ?_⟩
    have bounds := between place same
    omega

theorem lineAt_inside {line len : Nat} (inside : line + len ≤ buf.length) :
    lineAt buf line len = some (cString ((buf.drop line).take len)) := if_pos inside

def AllExact (calls : List SearchCall) : Prop := ∀ call ∈ calls, call.exact

theorem allExact_append (exact : AllExact calls) {call : SearchCall} (last : call.exact) :
    AllExact (calls ++ [call]) := by
  intro other member
  rcases mem_append.mp member with old | new
  · exact exact other old
  · rw [mem_singleton.mp new]
    exact last

/-- What `fields_load` leaves: the length is the distance to the end, as it was
at every search. -/
structure FieldsLoaded.Right (loaded : FieldsLoaded) (stop : Nat) : Prop where
  exact : loaded.cursor + loaded.len = stop
  calls : AllExact loaded.calls

theorem fieldsLoadAt_right {buf : Bytes} {stop : Nat} (inside : stop ≤ buf.length) (rounds : Nat) :
    ∀ (calls : List SearchCall) (mf : MimeFields) (cursor len : Nat), cursor + len = stop →
      len < rounds → AllExact calls →
      ∃ loaded, fieldsLoadAt buf stop rounds calls mf cursor len = some loaded ∧
        loaded.Right stop := by
  induction rounds with
  | zero => exact fun _ _ _ _ _ impossible => absurd impossible (Nat.not_lt_zero _)
  | succ rounds ih =>
    intro calls mf cursor len exact enough before
    have crlfTwo : crlf.length = 2 := rfl
    have nonempty : crlf ≠ [] := cons_ne_nil _ _
    have here : SearchCall.exact ⟨cursor, len, stop⟩ := exact
    have called := allExact_append before here
    obtain ⟨found, searched, between⟩ :=
      @gStrstrLen_inside buf crlf nonempty cursor len (by omega)
    rw [fieldsLoadAt]
    simp only [searched, bind_eq_bind, bind_some]
    cases found with
    | none => exact ⟨_, rfl, exact, called⟩
    | some tail =>
      obtain ⟨behind, room⟩ := between tail rfl
      dsimp only
      split
      · exact ⟨_, rfl, by dsimp only; omega, called⟩
      · rename_i full
        rw [getElem?_eq_getElem (show cursor + (tail - cursor) - 1 < buf.length by omega)]
        simp only [bind_some]
        split
        · -- a line that goes on, if there is another
          have hereAgain : SearchCall.exact ⟨tail + 2, len - (tail - cursor + 2), stop⟩ :=
            show tail + 2 + (len - (tail - cursor + 2)) = stop by omega
          have calledAgain := allExact_append called hereAgain
          obtain ⟨next, searchedNext, betweenNext⟩ := @gStrstrLen_inside buf crlf nonempty
            (tail + 2) (len - (tail - cursor + 2)) (by omega)
          simp only [searchedNext, bind_some]
          cases next with
          | none =>
            simp only [lineAt_inside (show cursor + (tail - cursor) ≤ buf.length by omega),
              bind_some]
            exact ih _ _ _ _ (by omega) (by omega) calledAgain
          | some place =>
            obtain ⟨behindNext, roomNext⟩ := betweenNext place rfl
            simp only [lineAt_inside (show cursor + (place - cursor) ≤ buf.length by omega),
              bind_some]
            exact ih _ _ _ _ (by omega) (by omega) calledAgain
        · simp only [lineAt_inside (show cursor + (tail - cursor) ≤ buf.length by omega),
            bind_some]
          exact ih _ _ _ _ (by omega) (by omega) called

/-! ### The calls that are recorded -/

theorem fieldsLoadAt_calls {stop : Nat} :
    ∀ {calls : List SearchCall} {mf : MimeFields} {cursor len : Nat} {loaded : FieldsLoaded},
      fieldsLoadAt buf stop rounds calls mf cursor len = some loaded → calls ⊆ loaded.calls := by
  induction rounds with
  | zero =>
    intro _ _ _ _ _ impossible
    cases impossible
  | succ rounds ih =>
    intro calls mf cursor len loaded ran
    rw [fieldsLoadAt] at ran
    obtain ⟨found, -, ran⟩ := bind_eq_some_iff.mp ran
    have first : calls ⊆ calls ++ [⟨cursor, len, stop⟩] := subset_append_left _ _
    cases found with
    | none =>
      cases ran
      exact first
    | some tail =>
      dsimp only at ran
      split at ran
      · cases ran
        exact first
      · obtain ⟨byte, -, ran⟩ := bind_eq_some_iff.mp ran
        split at ran
        · obtain ⟨next, -, ran⟩ := bind_eq_some_iff.mp ran
          cases next with
          | none =>
            obtain ⟨line, -, ran⟩ := bind_eq_some_iff.mp ran
            exact List.Subset.trans (List.Subset.trans first (subset_append_left _ _)) (ih ran)
          | some behind =>
            obtain ⟨line, -, ran⟩ := bind_eq_some_iff.mp ran
            exact List.Subset.trans (List.Subset.trans first (subset_append_left _ _)) (ih ran)
        · obtain ⟨line, -, ran⟩ := bind_eq_some_iff.mp ran
          exact List.Subset.trans first (ih ran)

theorem partLoadAt_calls {after : List SearchCall} {cursor len : Nat} {part : MimePart}
    (ran : partLoadAt buf calls cursor len = some (part, after)) : calls ⊆ after := by
  obtain ⟨loaded, fields, ran⟩ := bind_eq_some_iff.mp ran
  dsimp only at ran
  split at ran
  · split at ran
    · cases ran
      exact fieldsLoadAt_calls fields
    · cases ran
  · split at ran
    · cases ran
      exact fieldsLoadAt_calls fields
    · cases ran

theorem docPartsLoadAt_cases {bnd : Bytes} {after : List SearchCall} {parts made : List MimePart}
    {cursor len : Nat}
    (ran : docPartsLoadAt buf bnd (rounds + 1) calls parts cursor len = some (made, after)) :
    ∃ found, gStrstrLen buf (behindBoundary bnd cursor len) (lengthBehind bnd len) bnd = some found ∧
      ((found = none ∧
          after = calls ++ [⟨behindBoundary bnd cursor len, lengthBehind bnd len, buf.length⟩]) ∨
        ∃ tail parts between,
          found = some tail ∧
          calls ++ [⟨behindBoundary bnd cursor len, lengthBehind bnd len, buf.length⟩] ⊆ between ∧
          docPartsLoadAt buf bnd rounds between parts tail (lengthBehind bnd len) =
            some (made, after)) := by
  rw [docPartsLoadAt] at ran
  obtain ⟨found, searched, ran⟩ := bind_eq_some_iff.mp ran
  refine ⟨found, searched, ?_⟩
  cases found with
  | none =>
    cases ran
    exact Or.inl ⟨rfl, rfl⟩
  | some tail =>
    right
    dsimp only at ran
    split at ran
    · exact ⟨tail, parts, _, rfl, List.Subset.refl _, ran⟩
    · obtain ⟨⟨part, between⟩, loaded, ran⟩ := bind_eq_some_iff.mp ran
      exact ⟨tail, part :: parts, between, rfl, partLoadAt_calls loaded, ran⟩

theorem docPartsLoadAt_calls {bnd : Bytes} :
    ∀ {calls after : List SearchCall} {parts made : List MimePart} {cursor len : Nat},
      docPartsLoadAt buf bnd rounds calls parts cursor len = some (made, after) →
      calls ⊆ after ∧
        ⟨behindBoundary bnd cursor len, lengthBehind bnd len, buf.length⟩ ∈ after := by
  induction rounds with
  | zero =>
    intro _ _ _ _ _ _ impossible
    cases impossible
  | succ rounds ih =>
    intro calls after parts made cursor len ran
    obtain ⟨found, -, ⟨-, rfl⟩ | ⟨tail, later, between, -, kept, ran⟩⟩ := docPartsLoadAt_cases ran
    · exact ⟨subset_append_left _ _, mem_append_right _ mem_cons_self⟩
    · have grown := List.Subset.trans kept (ih ran).1
      exact ⟨List.Subset.trans (subset_append_left _ _) grown,
        grown (mem_append_right _ mem_cons_self)⟩

/-! ### `doc_parts_load` -/

theorem behind_exact {bnd : Bytes} {cursor len stop : Nat} (here : cursor + len = stop)
    (fits : bnd.length ≤ len) :
    behindBoundary bnd cursor len + lengthBehind bnd len = stop := by
  rw [behindBoundary, lengthBehind]
  split <;> omega

theorem adjacent_of_exact {bnd : Bytes} (nonempty : bnd ≠ []) :
    ∀ {calls after : List SearchCall} {parts made : List MimePart} {cursor len : Nat},
      docPartsLoadAt buf bnd rounds calls parts cursor len = some (made, after) →
      AllExact after → cursor + len = buf.length → bnd.length ≤ len → Adjacent buf bnd cursor := by
  induction rounds with
  | zero =>
    intro _ _ _ _ _ _ impossible
    cases impossible
  | succ rounds ih =>
    intro calls after parts made cursor len ran exact here fits
    have left : len = buf.length - cursor := by omega
    have exactHere := behind_exact here fits
    have rest : lengthBehind bnd len = buf.length - behindBoundary bnd cursor len := by omega
    have place : behindBoundary bnd cursor len =
        behindBoundary bnd cursor (buf.length - cursor) := by rw [← left]
    obtain ⟨found, searched, ⟨rfl, -⟩ | ⟨tail, later, between, rfl, kept, ran⟩⟩ :=
      docPartsLoadAt_cases ran
    · rw [rest] at searched
      exact .last place searched
    · obtain ⟨found, searchedAgain, bounds⟩ := @gStrstrLen_inside buf bnd nonempty
        (behindBoundary bnd cursor len) (lengthBehind bnd len) (by omega)
      rw [searched] at searchedAgain
      cases searchedAgain
      obtain ⟨behind, room⟩ := bounds tail rfl
      -- the call behind the next boundary is exact only if that boundary is here
      have next := exact _ (docPartsLoadAt_calls ran).2
      have moved := @behind_exact bnd tail (lengthBehind bnd len) _ rfl (by omega)
      change behindBoundary bnd tail (lengthBehind bnd len) +
        lengthBehind bnd (lengthBehind bnd len) = buf.length at next
      have same : tail = behindBoundary bnd cursor len := by omega
      rw [same] at ran searched
      rw [rest] at searched
      exact .next place searched (ih ran exact exactHere (by omega))

theorem docPartsLoadAt_adjacent {buf bnd : Bytes} (nonempty : bnd ≠ []) {cursor : Nat}
    (adjacent : Adjacent buf bnd cursor) :
    ∀ {rounds : Nat} {calls : List SearchCall} {parts : List MimePart} {len : Nat},
      cursor + len = buf.length → bnd.length ≤ len → len < rounds → AllExact calls →
      ∃ after, docPartsLoadAt buf bnd rounds calls parts cursor len = some (parts, after) ∧
        AllExact after := by
  induction adjacent with
  | @last cursor behind place none =>
    intro rounds calls parts len here fits enough exact
    obtain _ | rounds := rounds
    · exact absurd enough (Nat.not_lt_zero _)
    have left : buf.length - cursor = len := by omega
    have exactHere := behind_exact here fits
    rw [left] at place
    subst place
    have rest : buf.length - behindBoundary bnd cursor len = lengthBehind bnd len := by omega
    rw [rest] at none
    have called : SearchCall.exact ⟨behindBoundary bnd cursor len, lengthBehind bnd len, buf.length⟩ :=
      exactHere
    refine ⟨_, ?_, allExact_append exact called⟩
    rw [docPartsLoadAt]
    simp only [none, bind_eq_bind, bind_some]
    rfl
  | @next cursor behind place found _ ih =>
    intro rounds calls parts len here fits enough exact
    obtain _ | rounds := rounds
    · exact absurd enough (Nat.not_lt_zero _)
    have left : buf.length - cursor = len := by omega
    have exactHere := behind_exact here fits
    rw [left] at place
    subst place
    have rest : buf.length - behindBoundary bnd cursor len = lengthBehind bnd len := by omega
    rw [rest] at found
    have called : SearchCall.exact ⟨behindBoundary bnd cursor len, lengthBehind bnd len, buf.length⟩ :=
      exactHere
    obtain ⟨there, searched, bounds⟩ := @gStrstrLen_inside buf bnd nonempty
      (behindBoundary bnd cursor len) (lengthBehind bnd len) (by omega)
    rw [found] at searched
    cases searched
    obtain ⟨-, room⟩ := bounds _ rfl
    have positive := length_pos_of_ne_nil nonempty
    have shorter : lengthBehind bnd len + bnd.length ≤ len := by
      rw [lengthBehind]
      omega
    rw [docPartsLoadAt]
    simp only [found, bind_eq_bind, bind_some, Nat.sub_self, if_true]
    exact ih exactHere (by omega) (by omega) (allExact_append exact called)

/-! ### The document -/

/-- What `doc_parts_load` does from the fields on, where they leave the distance
to the end. -/
theorem docPartsAt_exact_iff {buf boundary : Bytes} {calls : List SearchCall} {cursor len : Nat}
    (before : AllExact calls) (here : cursor + len = buf.length) :
    (∃ parts after, docPartsAt buf boundary calls cursor len = some (parts, after) ∧
        AllExact after) ↔
      gStrstrLen buf cursor len (dashes ++ boundary) = some none ∨
        gStrstrLen buf cursor len (dashes ++ boundary) = some (some cursor) ∧
          Adjacent buf (dashes ++ boundary) cursor := by
  have nonempty : dashes ++ boundary ≠ [] := cons_ne_nil _ _
  have called : SearchCall.exact ⟨cursor, len, buf.length⟩ := here
  have first := allExact_append before called
  obtain ⟨found, searched, bounds⟩ :=
    @gStrstrLen_inside buf (dashes ++ boundary) nonempty cursor len (by omega)
  rw [docPartsAt]
  simp only [searched, bind_eq_bind, bind_some]
  cases found with
  | none => exact ⟨fun _ => Or.inl rfl, fun _ => ⟨_, _, rfl, first⟩⟩
  | some place =>
    obtain ⟨behind, room⟩ := bounds place rfl
    dsimp only
    constructor
    · rintro ⟨parts, after, ran, exact⟩
      -- the search behind the first boundary gets the whole length
      have next := exact _ (docPartsLoadAt_calls ran).2
      change behindBoundary (dashes ++ boundary) place len +
        lengthBehind (dashes ++ boundary) len = buf.length at next
      have moved := @behind_exact (dashes ++ boundary) place len _ rfl (by omega)
      have same : place = cursor := by omega
      subst same
      exact Or.inr ⟨rfl, adjacent_of_exact nonempty ran exact here (by omega)⟩
    · rintro (impossible | ⟨same, adjacent⟩)
      · cases impossible
      · cases same
        obtain ⟨after, ran, exact⟩ := @docPartsLoadAt_adjacent buf (dashes ++ boundary) nonempty
          cursor adjacent (buf.length + 1) (calls ++ [⟨cursor, len, buf.length⟩]) [] len here
          (by omega) (by omega) first
        exact ⟨_, after, ran, exact⟩

/-- The parser keeps inside the buffer with the right lengths where nothing
stands before a boundary, and only there. -/
theorem parsesInBounds_iff (buf : Bytes) : ParsesInBounds buf ↔ BoundariesTogether buf := by
  have nothing : AllExact [] := fun _ impossible => nomatch impossible
  rw [ParsesInBounds, BoundariesTogether, purpleMimeDocumentParsen]
  by_cases empty : buf.length = 0
  · rw [if_pos empty]
    obtain rfl := length_eq_zero_iff.mp empty
    refine ⟨fun _ loaded boundary ran multipart => ?_, fun _ => ⟨_, _, rfl, nothing⟩⟩
    cases ran
    cases multipart
  · rw [if_neg empty]
    obtain ⟨loaded, ran, right⟩ := @fieldsLoadAt_right buf buf.length (Nat.le_refl _)
      (buf.length + 1) [] fieldsInit 0 buf.length (Nat.zero_add _) (Nat.lt_succ_self _) nothing
    have left : buf.length - loaded.cursor = loaded.len := by
      have exact := right.exact
      omega
    simp only [ran, bind_eq_bind, bind_some]
    cases multipart : partsBoundary loaded.fields with
    | none =>
      dsimp only
      refine ⟨fun _ other boundary same bounded => ?_, fun _ => ⟨_, _, rfl, right.calls⟩⟩
      cases same
      rw [multipart] at bounded
      cases bounded
    | some boundary =>
      have loadsParts := @docPartsAt_exact_iff buf boundary _ _ _ right.calls right.exact
      dsimp only
      constructor
      · rintro ⟨doc, calls, parsed, exact⟩ other found same bounded
        cases same
        rw [multipart] at bounded
        cases bounded
        obtain ⟨⟨parts, after⟩, read, parsed⟩ := bind_eq_some_iff.mp parsed
        cases parsed
        rw [left]
        exact loadsParts.mp ⟨parts, after, read, exact⟩
      · intro together
        have these := together loaded boundary rfl multipart
        rw [left] at these
        obtain ⟨parts, after, read, exact⟩ := loadsParts.mpr these
        rw [read]
        exact ⟨_, _, rfl, exact⟩

/-- One part between two boundaries: the search behind the second one is given
the bytes of the part again, and reads behind the buffer. -/
def onePart : Bytes := ascii "Content-Type: multipart; boundary=b\r\n\r\n--b\r\n\r\nhi\r\n--b--"

theorem onePart_out_of_bounds : ¬ ParsesInBounds onePart := by
  have behind : purpleMimeDocumentParsen onePart = none := rfl
  rintro ⟨doc, calls, parsed, -⟩
  rw [behind] at parsed
  cases parsed

end Purple.Mime
