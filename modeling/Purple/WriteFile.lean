/-
`purple_util_write_data_to_file_absolute` of util.c, on a system that has `fileno`.

Files are known by their names.  Which calls fail is up to the environment, and a
stream that cannot be flushed has brought any part of its bytes to the file.
-/

import Mathlib.Logic.Function.Basic
import Purple.CString

namespace Purple.WriteFile

open CString

structure Environment where
  unlinks : Bool
  opens : Bool
  accepted : Nat
  flushes : Bool
  reached : Nat
  syncs : Bool
  closes : Bool
  stats : Bool
  renames : Bool

abbrev Files := String → Option (List UInt8)

/-- The bytes at `data`, which are as many as a `size` that is not -1 says. -/
def given (data : List UInt8) (size : Int) : List UInt8 :=
  if size = -1 then cString data else data.take size.toNat

def filenameTemp (filenameFull : String) : String := filenameFull ++ ".save"

def gStat (env : Environment) (files : Files) (name : String) : Option Nat :=
  if env.stats then (files name).map List.length else none

def gRename (env : Environment) (files : Files) (old new : String) : Files :=
  if env.renames then Function.update (Function.update files new (files old)) old none else files

/-- The open stream, and what the file is checked for once it is closed. -/
def writeTemp (env : Environment) (files : Files) (filenameFull : String) (real : List UInt8) :
    Bool × Files :=
  let temp := filenameTemp filenameFull
  let written := real.take env.accepted
  -- a failing `fchmod` is only reported
  if env.flushes = false then
    (false, Function.update files temp (some (written.take env.reached)))
  else
    let files := Function.update files temp (some written)
    if env.syncs = false ∨ env.closes = false ∨ written.length ≠ real.length ∨
        gStat env files temp ≠ some real.length then
      (false, files)
    else
      -- so is a failing `g_rename`
      (true, gRename env files temp filenameFull)

def purpleUtilWriteDataToFileAbsolute (env : Environment) (files : Files) (filenameFull : String)
    (data : List UInt8) (size : Int) : Bool × Files :=
  if size < -1 then (false, files)
  else
    let temp := filenameTemp filenameFull
    let files := if (files temp).isSome ∧ env.unlinks then Function.update files temp none else files
    if env.opens = false then (false, files)
    else writeTemp env (Function.update files temp (some [])) filenameFull (given data size)

def WritesWhole (env : Environment) (files : Files) (filenameFull : String) (data : List UInt8)
    (size : Int) : Prop :=
  let result := purpleUtilWriteDataToFileAbsolute env files filenameFull data size
  (result.1 = true → result.2 filenameFull = some (given data size)) ∧
    (result.1 = false → result.2 filenameFull = files filenameFull)

/-- Every call before `g_rename` succeeds. -/
structure Completes (env : Environment) (data : List UInt8) (size : Int) : Prop where
  sized : -1 ≤ size
  opens : env.opens = true
  accepts : (given data size).length ≤ env.accepted
  flushes : env.flushes = true
  syncs : env.syncs = true
  closes : env.closes = true
  stats : env.stats = true

variable {env : Environment} {files : Files} {filenameFull : String} {real : List UInt8}

theorem filenameTemp_ne (filenameFull : String) : filenameFull ≠ filenameTemp filenameFull := by
  intro same
  have lengths := congrArg String.length same
  rw [filenameTemp, String.length_append] at lengths
  change filenameFull.length = filenameFull.length + 5 at lengths
  omega

theorem update_temp (files : Files) (filenameFull : String) (bytes : Option (List UInt8)) :
    Function.update files (filenameTemp filenameFull) bytes filenameFull = files filenameFull :=
  Function.update_of_ne (filenameTemp_ne filenameFull) _ _

/-- A call that fails before `g_rename` leaves the file alone. -/
theorem writeTemp_cases (env : Environment) (files : Files) (filenameFull : String)
    (real : List UInt8) :
    (env.flushes = true ∧ env.syncs = true ∧ env.closes = true ∧ env.stats = true ∧
        real.length ≤ env.accepted ∧ (writeTemp env files filenameFull real).1 = true ∧
        (writeTemp env files filenameFull real).2 filenameFull =
          if env.renames then some real else files filenameFull) ∨
      (¬ (env.flushes = true ∧ env.syncs = true ∧ env.closes = true ∧ env.stats = true ∧
          real.length ≤ env.accepted) ∧ (writeTemp env files filenameFull real).1 = false ∧
        (writeTemp env files filenameFull real).2 filenameFull = files filenameFull) := by
  rw [writeTemp]
  dsimp only
  by_cases flushes : env.flushes = false
  · rw [if_pos flushes]
    refine Or.inr ⟨?_, rfl, update_temp files filenameFull _⟩
    intro all
    rw [flushes] at all
    cases all.1
  · rw [if_neg flushes]
    have sized : gStat env (Function.update files (filenameTemp filenameFull)
        (some (real.take env.accepted))) (filenameTemp filenameFull) =
        if env.stats then some (real.take env.accepted).length else none := by
      rw [gStat, Function.update_self]
      rfl
    rw [sized]
    by_cases fails : env.syncs = false ∨ env.closes = false ∨
        (real.take env.accepted).length ≠ real.length ∨
        (if env.stats then some (real.take env.accepted).length else none) ≠ some real.length
    · rw [if_pos fails]
      refine Or.inr ⟨?_, rfl, update_temp files filenameFull _⟩
      intro all
      obtain ⟨-, syncs, closes, stats, accepts⟩ := all
      rw [List.take_of_length_le accepts, if_pos stats, syncs, closes] at fails
      rcases fails with no | no | no | no
      · cases no
      · cases no
      · exact no rfl
      · exact no rfl
    · rw [if_neg fails]
      simp only [not_or, Bool.not_eq_false, not_not] at fails
      obtain ⟨syncs, closes, whole, stats⟩ := fails
      have accepts : real.length ≤ env.accepted := by
        rw [List.length_take] at whole
        omega
      refine Or.inl ⟨eq_true_of_ne_false flushes, syncs, closes, ?_, accepts, rfl, ?_⟩
      · by_contra fails
        rw [if_neg fails] at stats
        cases stats
      · dsimp only
        rw [gRename, Function.update_self, List.take_of_length_le accepts]
        split
        · rw [update_temp, Function.update_self]
        · exact update_temp files filenameFull _

theorem writesWhole_iff (env : Environment) (files : Files) (filenameFull : String)
    (data : List UInt8) (size : Int) :
    WritesWhole env files filenameFull data size ↔
      (Completes env data size →
        env.renames = true ∨ files filenameFull = some (given data size)) := by
  rw [WritesWhole, purpleUtilWriteDataToFileAbsolute]
  dsimp only
  by_cases small : size < -1
  · rw [if_pos small]
    refine iff_of_true ⟨fun done => absurd done Bool.false_ne_true, fun _ => rfl⟩ ?_
    intro completes
    exact absurd completes.sized (Int.not_le.mpr small)
  · rw [if_neg small]
    generalize start : (if (files (filenameTemp filenameFull)).isSome ∧ env.unlinks then
      Function.update files (filenameTemp filenameFull) none else files) = cleared
    have kept : cleared filenameFull = files filenameFull := by
      rw [← start]
      split
      · exact update_temp files filenameFull none
      · rfl
    by_cases opens : env.opens = false
    · rw [if_pos opens]
      refine iff_of_true ⟨fun done => absurd done Bool.false_ne_true, fun _ => kept⟩ ?_
      intro completes
      have opened := completes.opens
      rw [opens] at opened
      cases opened
    · rw [if_neg opens]
      rcases writeTemp_cases env (Function.update cleared (filenameTemp filenameFull) (some []))
        filenameFull (given data size) with
        ⟨flushes, syncs, closes, stats, accepts, done, after⟩ | ⟨fails, done, after⟩
      · rw [done, after, update_temp, kept]
        have completes : Completes env data size :=
          ⟨Int.not_lt.mp small, eq_true_of_ne_false opens, accepts, flushes, syncs, closes,
            stats⟩
        constructor
        · intro whole _
          have written := whole.1 rfl
          split at written
          · exact Or.inl ‹_›
          · exact Or.inr written
        · intro enough
          refine ⟨fun _ => ?_, fun none => absurd none.symm Bool.false_ne_true⟩
          split
          · rfl
          · exact (enough completes).resolve_left ‹_›
      · rw [done, after, update_temp, kept]
        refine iff_of_true ⟨fun none => absurd none Bool.false_ne_true, fun _ => rfl⟩ ?_
        intro completes
        exact absurd ⟨completes.flushes, completes.syncs, completes.closes, completes.stats,
          completes.accepts⟩ fails

/-- Only the renaming fails. -/
theorem failedRename_not_whole :
    ¬ WritesWhole ⟨true, true, 1, true, 0, true, true, true, false⟩ (fun _ => none) "prefs.xml"
      (ascii "x") 1 := by
  intro whole
  have done := whole.1 rfl
  have lost : (purpleUtilWriteDataToFileAbsolute
      ⟨true, true, 1, true, 0, true, true, true, false⟩ (fun _ => none) "prefs.xml"
      (ascii "x") 1).2 "prefs.xml" = none := by
    decide
  rw [lost] at done
  cases done

end Purple.WriteFile
