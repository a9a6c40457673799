/-
Stable sorting by a key that an element may lack.

The comparison of two keys has the sign convention of `strcmp`.  What is written for the
sorted elements depends on the order of the list only through elements of one key.
-/

import Purple.SortedList

namespace Purple.SortedList

open List Option

variable {Element Key Word : Type*}

/-- A comparison function of C on keys that are there. -/
structure Signed (cmp : Key → Key → Int) : Prop where
  swap : ∀ first second, 0 < cmp first second ↔ cmp second first < 0
  trans : ∀ first second third, cmp first second ≤ 0 → cmp second third ≤ 0 → cmp first third ≤ 0

theorem Signed.on {Value : Type*} {cmp : Key → Key → Int} (signed : Signed cmp)
    (part : Value → Key) : Signed fun first second => cmp (part first) (part second) where
  swap := fun first second => signed.swap (part first) (part second)
  trans := fun first second third => signed.trans (part first) (part second) (part third)

theorem Signed.lex {first second : Key → Key → Int} (signed : Signed first)
    (signedSecond : Signed second) :
    Signed fun left right => if first left right = 0 then second left right else first left right where
  swap := by
    intro left right
    have up := signed.swap left right
    have down := signed.swap right left
    by_cases equal : first left right = 0
    · rw [if_pos equal, if_pos (by omega)]
      exact signedSecond.swap left right
    · rw [if_neg equal, if_neg (by omega)]
      exact up
  trans := by
    intro left middle right low high
    have up := signed.swap left middle
    have down := signed.swap middle left
    have upNext := signed.swap middle right
    have downNext := signed.swap right middle
    have upFar := signed.swap left right
    have downFar := signed.swap right left
    have forward := signed.trans left middle right
    have backward := signed.trans right middle left
    have firstLow : first left middle ≤ 0 := by
      split at low <;> omega
    have firstHigh : first middle right ≤ 0 := by
      split at high <;> omega
    have far := forward firstLow firstHigh
    by_cases equal : first left right = 0
    · have around := signed.trans middle right left firstHigh (by omega)
      have aroundNext := signed.trans right left middle (by omega) firstLow
      rw [if_pos (by omega)] at low high
      rw [if_pos equal]
      exact signedSecond.trans left middle right low high
    · rw [if_neg equal]
      exact far

/-- Two elements are compared by their keys; a key that is missing is undefined behaviour. -/
def keyCompare (key : Element → Option Key) (cmp : Key → Key → Int) (first second : Element) :
    Option Int :=
  (key first).bind fun left => (key second).map fun right => cmp left right

section keys

variable {key : Element → Option Key} {cmp : Key → Key → Int}

variable {first second data : Element} {new : List Element}

theorem keyCompare_some {left right : Key} (keyed : key first = some left)
    (keyedSecond : key second = some right) :
    keyCompare key cmp first second = some (cmp left right) := by
  rw [keyCompare, keyed, keyedSecond]
  rfl

theorem keyCompare_eq_some_iff {sign : Int} :
    keyCompare key cmp first second = some sign ↔
      ∃ left right, key first = some left ∧ key second = some right ∧ cmp left right = sign := by
  rw [keyCompare, bind_eq_some_iff]
  constructor
  · intro compared
    obtain ⟨left, keyed, compared⟩ := compared
    obtain ⟨right, keyedSecond, same⟩ := map_eq_some_iff.mp compared
    exact ⟨left, right, keyed, keyedSecond, same⟩
  · intro compared
    obtain ⟨left, right, keyed, keyedSecond, same⟩ := compared
    exact ⟨left, keyed, by rw [keyedSecond, map_some, same]⟩

theorem keyCompare_lawful (signed : Signed cmp) : Lawful (keyCompare key cmp) where
  trans := by
    intro first second third low high
    obtain ⟨signLow, compared, below⟩ := low
    obtain ⟨signHigh, comparedNext, belowNext⟩ := high
    obtain ⟨left, middle, keyed, keyedSecond, rfl⟩ := keyCompare_eq_some_iff.mp compared
    obtain ⟨middle', right, keyedAgain, keyedThird, rfl⟩ := keyCompare_eq_some_iff.mp comparedNext
    rw [keyedSecond] at keyedAgain
    cases keyedAgain
    exact ⟨cmp left right, keyCompare_some keyed keyedThird,
      signed.trans left middle right below belowNext⟩
  swap := by
    intro first second sign compared positive
    obtain ⟨left, right, keyed, keyedSecond, rfl⟩ := keyCompare_eq_some_iff.mp compared
    exact ⟨cmp right left, keyCompare_some keyedSecond keyed,
      Int.le_of_lt ((signed.swap left right).mp positive)⟩

theorem insertSorted_keyed {list : List Element} (keyed : (key data).isSome)
    (all : ∀ other ∈ list, (key other).isSome) :
    ∃ new, insertSorted (keyCompare key cmp) data list = some new := by
  induction list with
  | nil => exact ⟨[data], rfl⟩
  | cons head rest ih =>
    obtain ⟨left, isKey⟩ := isSome_iff_exists.mp keyed
    obtain ⟨right, isHead⟩ := isSome_iff_exists.mp (all head mem_cons_self)
    obtain ⟨behind, inserted⟩ := ih fun other member => all other (mem_cons_of_mem _ member)
    rw [insertSorted, keyCompare_some isKey isHead, bind_some, inserted]
    split
    · exact ⟨head :: behind, rfl⟩
    · exact ⟨data :: head :: rest, rfl⟩

theorem sort_isSome_iff (list : List Element) :
    (sort (keyCompare key cmp) list).isSome ↔
      (2 ≤ list.length → ∀ element ∈ list, (key element).isSome) := by
  induction list with
  | nil => exact ⟨fun _ _ _ member => absurd member not_mem_nil, fun _ => rfl⟩
  | cons data rest ih =>
    cases rest with
    | nil =>
      constructor
      · intro _ long
        exact absurd long (by simp)
      · intro _
        rfl
    | cons next others =>
      constructor
      · intro sorted _
        obtain ⟨new, sorted⟩ := isSome_iff_exists.mp sorted
        rw [sort] at sorted
        obtain ⟨middle, sortedRest, inserted⟩ := bind_eq_some_iff.mp sorted
        have perm := sort_perm sortedRest
        cases middle with
        | nil =>
          have empty := perm.length_eq
          simp at empty
        | cons head behind =>
          obtain ⟨sign, compared⟩ : ∃ sign, keyCompare key cmp data head = some sign := by
            rw [insertSorted] at inserted
            obtain ⟨sign, compared, _⟩ := bind_eq_some_iff.mp inserted
            exact ⟨sign, compared⟩
          obtain ⟨left, right, keyed, keyedHead, _⟩ := keyCompare_eq_some_iff.mp compared
          have keyedRest : ∀ element ∈ next :: others, (key element).isSome := by
            cases others with
            | nil =>
              have single := perm_singleton.mp perm
              rw [cons_eq_cons] at single
              intro element member
              rw [mem_singleton.mp member, ← single.1, keyedHead]
              rfl
            | cons third more =>
              exact ih.mp (by rw [sortedRest]; rfl) (by simp)
          exact forall_mem_cons.mpr ⟨by rw [keyed]; rfl, keyedRest⟩
      · intro all
        have everyone := all (by simp)
        have sortedRest := ih.mpr fun _ element member =>
          everyone element (mem_cons_of_mem _ member)
        obtain ⟨middle, sortedRest⟩ := isSome_iff_exists.mp sortedRest
        have keyedMiddle : ∀ other ∈ middle, (key other).isSome := fun other member =>
          everyone other (mem_cons_of_mem _ ((sort_perm sortedRest).mem_iff.mp member))
        have inserted : ∃ new, insertSorted (keyCompare key cmp) data middle = some new :=
          insertSorted_keyed (everyone data mem_cons_self) keyedMiddle
        obtain ⟨new, inserted⟩ := inserted
        rw [sort, sortedRest, bind_some, inserted]
        rfl

theorem flatMap_commute {element : Element} {text : Element → List Word} {front : List Element}
    (commute : ∀ other ∈ front, text element ++ text other = text other ++ text element) :
    front.flatMap text ++ text element = text element ++ front.flatMap text := by
  induction front with
  | nil => simp only [flatMap_nil, nil_append, append_nil]
  | cons head front ih =>
    rw [flatMap_cons, append_assoc,
      ih fun other member => commute other (mem_cons_of_mem _ member),
      ← append_assoc, ← commute head mem_cons_self, append_assoc]

theorem flatMap_pairwise_perm {total : Element → Element → Int} (signed : Signed total)
    {text : Element → List Word} {first second : List Element}
    (sortedFirst : first.Pairwise (total · · ≤ 0)) (sortedSecond : second.Pairwise (total · · ≤ 0))
    (perm : first.Perm second)
    (commute : ∀ left ∈ first, ∀ right ∈ first, total left right = 0 →
      text left ++ text right = text right ++ text left) :
    first.flatMap text = second.flatMap text := by
  induction first generalizing second with
  | nil => rw [nil_perm.mp perm]
  | cons head rest ih =>
    obtain ⟨front, back, rfl⟩ := append_of_mem (perm.mem_iff.mp mem_cons_self)
    have permRest : rest.Perm (front ++ back) :=
      (perm_cons head).mp (perm.trans perm_middle)
    obtain ⟨headFirst, sortedRest⟩ := pairwise_cons.mp sortedFirst
    obtain ⟨_, _, across⟩ := pairwise_append.mp sortedSecond
    have sortedShorter : (front ++ back).Pairwise (total · · ≤ 0) :=
      sortedSecond.sublist ((List.Sublist.refl front).append (sublist_cons_self head back))
    have commuteFront : ∀ other ∈ front, text head ++ text other = text other ++ text head := by
      intro other member
      have below := headFirst other (permRest.mem_iff.mpr (mem_append_left _ member))
      have above := across other member head mem_cons_self
      have sign := signed.swap other head
      exact commute head mem_cons_self other
        (perm.mem_iff.mpr (mem_append_left _ member)) (by omega)
    rw [flatMap_cons, flatMap_append, flatMap_cons, ← append_assoc,
      flatMap_commute commuteFront, append_assoc, ← flatMap_append,
      ih sortedRest sortedShorter permRest fun left leftIn right rightIn =>
        commute left (mem_cons_of_mem _ leftIn) right (mem_cons_of_mem _ rightIn)]

theorem Sorted.total {total : Element → Element → Int} {list : List Element}
    (sorted : Sorted (keyCompare key cmp) list)
    (agrees : ∀ first second sign, keyCompare key cmp first second = some sign →
      total first second = sign) : list.Pairwise (total · · ≤ 0) := by
  apply List.Pairwise.imp _ sorted
  intro first second inOrder
  obtain ⟨sign, compared, below⟩ := inOrder
  rw [agrees first second sign compared]
  exact below

theorem Signed.mergeSort_sorted {total : Element → Element → Int} (signed : Signed total)
    (list : List Element) :
    (list.mergeSort fun first second => decide (total first second ≤ 0)).Pairwise
      (total · · ≤ 0) := by
  have transitive : ∀ first second third, decide (total first second ≤ 0) = true →
      decide (total second third ≤ 0) = true → decide (total first third ≤ 0) = true := by
    intro first second third low high
    rw [decide_eq_true_eq] at low high ⊢
    exact signed.trans first second third low high
  have connected : ∀ first second,
      (decide (total first second ≤ 0) || decide (total second first ≤ 0)) = true := by
    intro first second
    have sign := signed.swap second first
    rw [Bool.or_eq_true, decide_eq_true_eq, decide_eq_true_eq]
    omega
  exact (pairwise_mergeSort transitive connected list).imp fun below =>
    decide_eq_true_eq.mp below

theorem eq_of_pairwise_perm {total : Element → Element → Int} (signed : Signed total)
    (antisymm : ∀ first second, total first second = 0 → first = second)
    {first second : List Element} (sortedFirst : first.Pairwise (total · · ≤ 0))
    (sortedSecond : second.Pairwise (total · · ≤ 0)) (perm : first.Perm second) : first = second := by
  apply List.Perm.eq_of_pairwise _ sortedFirst sortedSecond perm
  intro left right _ _ below above
  have sign := signed.swap right left
  exact antisymm left right (by omega)

theorem insertSorted_split {list : List Element}
    (inserted : insertSorted (keyCompare key cmp) data list = some new) :
    ∃ lower upper, new = lower ++ data :: upper ∧
      (∀ element ∈ lower, ∃ sign, keyCompare key cmp data element = some sign ∧ 0 < sign) ∧
      ∀ other, key other = key data →
        insertSorted (keyCompare key cmp) other list = some (lower ++ other :: upper) := by
  induction list generalizing new with
  | nil =>
    cases inserted
    exact ⟨[], [], rfl, fun _ member => absurd member not_mem_nil, fun _ _ => rfl⟩
  | cons head rest ih =>
    have compares (other : Element) (same : key other = key data) :
        keyCompare key cmp other head = keyCompare key cmp data head := by
      rw [keyCompare, keyCompare, same]
    obtain ⟨sign, behind, compared, positive, insertedBehind, rfl⟩ | ⟨inOrder, rfl⟩ :=
      insertSorted_cons inserted
    · obtain ⟨lower, upper, rfl, smaller, others⟩ := ih insertedBehind
      refine ⟨head :: lower, upper, rfl,
        forall_mem_cons.mpr ⟨⟨sign, compared, positive⟩, smaller⟩, ?_⟩
      intro other same
      rw [insertSorted, compares other same, compared, bind_some, if_pos positive,
        others other same]
      rfl
    · refine ⟨[], head :: rest, rfl, fun _ member => absurd member not_mem_nil, ?_⟩
      intro other same
      obtain ⟨sign, compared, below⟩ := inOrder
      rw [insertSorted, compares other same, compared, bind_some,
        if_neg (Int.not_lt.mpr below)]
      rfl

/-- An element in front of the list is put behind the smaller ones.  Another element of
that key is put at the same place. -/
theorem sort_front {rest : List Element}
    (sorted : sort (keyCompare key cmp) (data :: rest) = some new) :
    ∃ lower upper, new = lower ++ data :: upper ∧ ∀ other, key other = key data →
      sort (keyCompare key cmp) (other :: rest) = some (lower ++ other :: upper) := by
  rw [sort] at sorted
  obtain ⟨middle, sortedRest, inserted⟩ := bind_eq_some_iff.mp sorted
  obtain ⟨lower, upper, rfl, _, others⟩ := insertSorted_split inserted
  refine ⟨lower, upper, rfl, ?_⟩
  intro other same
  rw [sort, sortedRest]
  exact others other same

theorem insertSorted_behind {other : Element} {lower upper : List Element} (signed : Signed cmp)
    (keyed : (key data).isSome) (same : key other = key data)
    (smaller : ∀ element ∈ lower, ∃ sign, keyCompare key cmp data element = some sign ∧ 0 < sign) :
    insertSorted (keyCompare key cmp) data (lower ++ other :: upper) =
      some (lower ++ data :: other :: upper) := by
  induction lower with
  | nil =>
    obtain ⟨at_, isData⟩ := isSome_iff_exists.mp keyed
    have equal : ¬cmp at_ at_ > 0 := by
      have sign := signed.swap at_ at_
      omega
    rw [nil_append, insertSorted, keyCompare_some isData (same.trans isData),
      bind_some, if_neg equal]
    rfl
  | cons head lower ih =>
    obtain ⟨sign, compared, positive⟩ := smaller head mem_cons_self
    rw [cons_append, insertSorted, compared, bind_some, if_pos positive,
      ih fun element member => smaller element (mem_cons_of_mem _ member)]
    rfl

theorem sort_pair (signed : Signed cmp) {rest : List Element} (same : key first = key second)
    (sorted : sort (keyCompare key cmp) (first :: second :: rest) = some new) :
    ∃ lower upper, new = lower ++ first :: second :: upper ∧
      sort (keyCompare key cmp) (second :: first :: rest) =
        some (lower ++ second :: first :: upper) := by
  have keyed := (sort_isSome_iff (first :: second :: rest)).mp (by rw [sorted]; rfl) (by simp)
  rw [sort, sort] at sorted
  obtain ⟨middle, sortedTwo, inserted⟩ := bind_eq_some_iff.mp sorted
  obtain ⟨low, sortedRest, insertedSecond⟩ := bind_eq_some_iff.mp sortedTwo
  obtain ⟨lower, upper, rfl, smaller, others⟩ := insertSorted_split insertedSecond
  have smallerFirst : ∀ element ∈ lower,
      ∃ sign, keyCompare key cmp first element = some sign ∧ 0 < sign := by
    intro element member
    rw [keyCompare, same]
    exact smaller element member
  rw [insertSorted_behind signed (keyed first mem_cons_self) same.symm smallerFirst] at inserted
  cases inserted
  refine ⟨lower, upper, rfl, ?_⟩
  have secondKeyed := keyed second (mem_cons_of_mem _ mem_cons_self)
  rw [sort, sort, sortedRest, bind_some, others first same, bind_some,
    insertSorted_behind signed secondKeyed same smaller]

theorem sort_map {Image : Type*} {imageKey : Image → Option Key} {image : Element → Image}
    (list : List Element) (kept : ∀ element ∈ list, imageKey (image element) = key element) :
    sort (keyCompare imageKey cmp) (list.map image) =
      (sort (keyCompare key cmp) list).map (List.map image) := by
  have inserts (data : Element) (others : List Element) (keptData : imageKey (image data) = key data)
      (keptOthers : ∀ element ∈ others, imageKey (image element) = key element) :
      insertSorted (keyCompare imageKey cmp) (image data) (others.map image) =
        (insertSorted (keyCompare key cmp) data others).map (List.map image) := by
    induction others with
    | nil => rfl
    | cons head others ih =>
      have compares : keyCompare imageKey cmp (image data) (image head) =
          keyCompare key cmp data head := by
        rw [keyCompare, keyCompare, keptData, keptOthers head mem_cons_self]
      rw [map_cons, insertSorted, insertSorted, compares,
        ih fun element member => keptOthers element (mem_cons_of_mem _ member)]
      cases keyCompare key cmp data head with
      | none => rfl
      | some sign =>
        rw [bind_some, bind_some]
        split
        · rw [Option.map_map, Option.map_map]
          rfl
        · rfl
  induction list with
  | nil => rfl
  | cons data rest ih =>
    rw [map_cons, sort, sort, ih fun element member =>
      kept element (mem_cons_of_mem _ member)]
    cases sorted : sort (keyCompare key cmp) rest with
    | none => rfl
    | some middle =>
      rw [map_some, bind_some, bind_some]
      exact inserts data middle (kept data mem_cons_self) fun element member =>
        kept element (mem_cons_of_mem _ ((sort_perm sorted).mem_iff.mp member))

end keys

end Purple.SortedList
