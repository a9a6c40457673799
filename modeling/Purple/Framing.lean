/-
Streams of frames that arrive piece by piece.

What is complete in the elements received so far, and what is left over behind it,
are functions of the frames and of what was received; how it was cut does not
matter.
-/

import Mathlib.Data.List.Infix

namespace Purple.Framing

open List

variable {Frame Byte : Type*} (encode : Frame → List Byte)

def stream (frames : List Frame) : List Byte := frames.flatMap encode

def complete : List Frame → List Byte → List Frame
  | [], _ => []
  | frame :: later, received =>
    if (encode frame).length ≤ received.length then
      frame :: complete later (received.drop (encode frame).length)
    else []

def unconsumed : List Frame → List Byte → List Byte
  | [], received => received
  | frame :: later, received =>
    if (encode frame).length ≤ received.length then
      unconsumed later (received.drop (encode frame).length)
    else received

variable {encode}

variable {rest : List Byte} {frames : List Frame}

@[simp] theorem stream_cons (frame : Frame) (frames : List Frame) :
    stream encode (frame :: frames) = encode frame ++ stream encode frames := flatMap_cons

theorem stream_append (first second : List Frame) :
    stream encode (first ++ second) = stream encode first ++ stream encode second :=
  flatMap_append

theorem complete_front (front later : List Frame) (received : List Byte) :
    complete encode (front ++ later) (stream encode front ++ received) =
      front ++ complete encode later received := by
  induction front with
  | nil => rfl
  | cons frame front ih =>
    rw [stream_cons, cons_append, complete, if_pos, append_assoc,
      drop_left' rfl, ih]
    · rfl
    · rw [append_assoc, length_append]
      exact Nat.le_add_right _ _

theorem unconsumed_front (front later : List Frame) (received : List Byte) :
    unconsumed encode (front ++ later) (stream encode front ++ received) =
      unconsumed encode later received := by
  induction front with
  | nil => rfl
  | cons frame front ih =>
    rw [stream_cons, cons_append, unconsumed, if_pos, append_assoc,
      drop_left' rfl, ih]
    rw [append_assoc, length_append]
    exact Nat.le_add_right _ _

theorem arrived_whole {frame : Frame} {later : List Frame}
    (arrived : rest <+: stream encode (frame :: later))
    (whole : (encode frame).length ≤ rest.length) :
    ∃ behind, rest = encode frame ++ behind ∧ behind <+: stream encode later := by
  rw [stream_cons] at arrived
  have first : encode frame <+: rest :=
    prefix_of_prefix_length_le (prefix_append _ _) arrived whole
  obtain ⟨behind, same⟩ := first
  rw [← same] at arrived
  exact ⟨behind, same.symm, (prefix_append_right_inj _).mp arrived⟩

theorem arrived_split (arrived : rest <+: stream encode frames) :
    ∃ later, frames = complete encode frames rest ++ later ∧
      rest = stream encode (complete encode frames rest) ++ unconsumed encode frames rest ∧
      unconsumed encode frames rest <+: stream encode later ∧
      complete encode later (unconsumed encode frames rest) = [] := by
  induction frames generalizing rest with
  | nil => exact ⟨[], rfl, rfl, arrived, rfl⟩
  | cons frame frames ih =>
    by_cases whole : (encode frame).length ≤ rest.length
    · obtain ⟨behind, same, front⟩ := arrived_whole arrived whole
      obtain ⟨later, split, bytes, start, incomplete⟩ := ih front
      have dropped : rest.drop (encode frame).length = behind := by
        rw [same, drop_left' rfl]
      rw [complete, unconsumed, if_pos whole, if_pos whole, dropped]
      refine ⟨later, ?_, ?_, start, incomplete⟩
      · rw [cons_append, ← split]
      · rw [stream_cons, append_assoc, ← bytes, same]
    · have none : complete encode (frame :: frames) rest = [] := by
        rw [complete, if_neg whole]
      rw [none, unconsumed, if_neg whole]
      exact ⟨frame :: frames, rfl, rfl, arrived, none⟩

theorem arrived_more {more : List Byte} (arrived : rest ++ more <+: stream encode frames) :
    ∃ later, frames = complete encode frames rest ++ later ∧
      unconsumed encode frames rest ++ more <+: stream encode later ∧
      complete encode frames (rest ++ more) =
        complete encode frames rest ++
          complete encode later (unconsumed encode frames rest ++ more) ∧
      unconsumed encode frames (rest ++ more) =
        unconsumed encode later (unconsumed encode frames rest ++ more) := by
  obtain ⟨later, split, bytes, _, _⟩ := arrived_split ((prefix_append rest more).trans arrived)
  refine ⟨later, split, ?_⟩
  generalize complete encode frames rest = early at split bytes ⊢
  generalize unconsumed encode frames rest = tail at bytes ⊢
  rw [bytes, split, stream_append, append_assoc] at arrived
  rw [split, bytes, append_assoc, complete_front, unconsumed_front]
  exact ⟨(prefix_append_right_inj _).mp arrived, rfl, rfl⟩

theorem complete_initial {front whole : List Byte} (initial : front <+: whole) :
    complete encode frames front <+: complete encode frames whole := by
  induction frames generalizing front whole with
  | nil => exact prefix_refl _
  | cons frame later ih =>
    by_cases early : (encode frame).length ≤ front.length
    · have late := Nat.le_trans early initial.length_le
      rw [complete, complete, if_pos early, if_pos late]
      exact (prefix_cons_inj frame).mpr (ih (initial.drop _))
    · rw [complete, if_neg early]
      exact nil_prefix

theorem unconsumed_length_le (frames : List Frame) (received : List Byte) :
    (unconsumed encode frames received).length ≤ received.length := by
  induction frames generalizing received with
  | nil => exact Nat.le_refl _
  | cons frame later ih =>
    rw [unconsumed]
    by_cases whole : (encode frame).length ≤ received.length
    · rw [if_pos whole]
      refine (ih _).trans ?_
      rw [List.length_drop]
      exact Nat.sub_le _ _
    · rw [if_neg whole]

theorem unconsumed_nil (frames : List Frame) : unconsumed encode frames [] = [] :=
  length_eq_zero_iff.mp (Nat.eq_zero_of_le_zero (unconsumed_length_le frames []))

theorem complete_nil (positive : ∀ frame ∈ frames, 0 < (encode frame).length) :
    complete encode frames [] = [] := by
  cases frames with
  | nil => rfl
  | cons frame later =>
    rw [complete, if_neg]
    exact Nat.not_le_of_lt (positive frame mem_cons_self)

end Purple.Framing
