/-
The RC4 cipher of rc4.c.

An index of the state is a `guchar`, so that its 256 cells are a function of one.
A read outside the key, or a division by a key length of zero, makes the
operation `none`.
-/

import Mathlib.Logic.Equiv.Basic
import Purple.PartialRun

namespace Purple.Ciphers.Rc4

open List PartialRun

structure RC4Context where
  state : UInt8 → UInt8
  x : UInt8
  y : UInt8
  keyLen : Int

def rc4Reset : RC4Context := { state := id, x := 0, y := 0, keyLen := 5 }

def swapped (state : UInt8 → UInt8) (x y : UInt8) : UInt8 → UInt8 :=
  Function.update (Function.update state x (state y)) y (state x)

/-- The rounds of `rc4_set_key` from round `i` on; its `x` and `y` are not the context's. -/
def setKeyRounds (key : List UInt8) (keyLen : Int) :
    Nat → Nat → (UInt8 → UInt8) → UInt8 → UInt8 → Option (UInt8 → UInt8)
  | 0, _, state, _, _ => some state
  | rounds + 1, i, state, x, y =>
    (key[x.toNat]?).bind fun byte =>
      let y := byte + state (UInt8.ofNat i) + y
      let state := swapped state (UInt8.ofNat i) y
      if keyLen = 0 then none
      else setKeyRounds key keyLen rounds (i + 1) state
        (UInt8.ofNat ((x.toNat + 1 : Int).tmod keyLen).toNat) y

def rc4SetKey (ctx : RC4Context) (key : List UInt8) : Option RC4Context :=
  (setKeyRounds key ctx.keyLen 256 0 ctx.state 0 0).map fun state => { ctx with state }

def rc4Encrypt (ctx : RC4Context) : List UInt8 → List UInt8 × RC4Context
  | [] => ([], ctx)
  | byte :: data =>
    let x := ctx.x + 1
    let y := ctx.state x + ctx.y
    let state := swapped ctx.state x y
    let (output, after) := rc4Encrypt { ctx with state, x, y } data
    ((byte ^^^ state (state x + state y)) :: output, after)

inductive Call where
  | reset
  | setOpt (keyLen : Int)
  | setKey (key : List UInt8)
  | encrypt (data : List UInt8)

def call (ctx : RC4Context) : Call → Option RC4Context
  | .reset => some rc4Reset
  | .setOpt keyLen => some { ctx with keyLen }
  | .setKey key => rc4SetKey ctx key
  | .encrypt data => some (rc4Encrypt ctx data).2

/-! ### The state is a permutation -/

theorem swapped_eq (state : UInt8 → UInt8) (x y : UInt8) :
    swapped state x y = state ∘ Equiv.swap x y := by
  funext cell
  simp only [swapped, Function.update_apply, Function.comp_apply, Equiv.swap_apply_def]
  by_cases atY : cell = y
  · subst atY
    by_cases same : cell = x
    · rw [if_pos rfl, if_pos same, same]
    · rw [if_pos rfl, if_neg same, if_pos rfl]
  · rw [if_neg atY, if_neg atY, apply_ite state]

theorem swapped_bijective {state : UInt8 → UInt8} (bijective : state.Bijective) (x y : UInt8) :
    (swapped state x y).Bijective := by
  rw [swapped_eq]
  exact bijective.comp (Equiv.swap x y).bijective

theorem setKeyRounds_bijective {key : List UInt8} {keyLen : Int} (rounds i : Nat)
    {state : UInt8 → UInt8} (bijective : state.Bijective) {x y : UInt8} :
    ∀ after ∈ setKeyRounds key keyLen rounds i state x y, after.Bijective := by
  induction rounds generalizing i state x y with
  | zero =>
    rintro _ ⟨rfl⟩
    exact bijective
  | succ rounds ih =>
    intro after ran
    obtain ⟨byte, -, ran⟩ := Option.bind_eq_some_iff.mp ran
    by_cases zero : keyLen = 0
    · rw [if_pos zero] at ran
      cases ran
    · rw [if_neg zero] at ran
      exact ih _ (swapped_bijective bijective _ _) after ran

theorem rc4Encrypt_bijective {ctx : RC4Context} (bijective : ctx.state.Bijective)
    (data : List UInt8) : (rc4Encrypt ctx data).2.state.Bijective := by
  induction data generalizing ctx with
  | nil => exact bijective
  | cons byte data ih => exact ih (swapped_bijective bijective _ _)

theorem call_bijective {ctx after : RC4Context} (bijective : ctx.state.Bijective) {made : Call}
    (stepped : call ctx made = some after) : after.state.Bijective := by
  cases made with
  | reset =>
    cases stepped
    exact Function.bijective_id
  | setOpt keyLen =>
    cases stepped
    exact bijective
  | setKey key =>
    obtain ⟨state, ran, rfl⟩ := Option.map_eq_some_iff.mp stepped
    exact setKeyRounds_bijective 256 0 bijective state ran
  | encrypt data =>
    cases stepped
    exact rc4Encrypt_bijective bijective data

/-! ### Reading the key -/

theorem tmod_natAbs (count : Nat) (keyLen : Int) :
    (count : Int).tmod keyLen = (count % keyLen.natAbs : Nat) := by
  rcases Int.natAbs_eq keyLen with same | same
  · rw [same, Int.natAbs_natCast]
    rfl
  · rw [same, Int.tmod_neg, Int.natAbs_neg, Int.natAbs_natCast]
    rfl

/-- The rounds read the key at the remainders of their numbers. -/
theorem setKeyRounds_isSome {key : List UInt8} {keyLen : Int} (nonzero : keyLen ≠ 0)
    {rounds i : Nat} (inside : i + rounds = 256) {state : UInt8 → UInt8} {x y : UInt8}
    (position : 0 < rounds → x.toNat = i % keyLen.natAbs) :
    (setKeyRounds key keyLen rounds i state x y).isSome ↔
      ∀ round, i ≤ round → round < 256 → round % keyLen.natAbs < key.length := by
  induction rounds generalizing i state x y with
  | zero => exact iff_of_true rfl fun round low high => absurd high (by omega)
  | succ rounds ih =>
    have here := position (Nat.succ_pos _)
    rw [setKeyRounds, here]
    by_cases read : i % keyLen.natAbs < key.length
    · rw [getElem?_eq_getElem read, Option.bind_some, if_neg nonzero, ih (by omega)]
      · constructor
        · intro later round low high
          rcases Nat.lt_or_eq_of_le low with more | same
          · exact later round more high
          · exact same ▸ read
        · exact fun all round low high => all round (by omega) high
      · intro more
        have small : (i + 1) % keyLen.natAbs ≤ i + 1 := Nat.mod_le _ _
        rw [← Int.natCast_one, ← Int.natCast_add, tmod_natAbs, Int.toNat_natCast,
          Nat.mod_add_mod, UInt8.toNat_ofNat_of_lt' (by change _ < 256; omega)]
    · rw [getElem?_eq_none (Nat.le_of_not_lt read)]
      exact iff_of_false Bool.false_ne_true fun all => read (all i (Nat.le_refl _) (by omega))

theorem rc4SetKey_isSome_iff (ctx : RC4Context) (key : List UInt8) :
    (rc4SetKey ctx key).isSome ↔ ctx.keyLen ≠ 0 ∧ min ctx.keyLen.natAbs 256 ≤ key.length := by
  rw [rc4SetKey, Option.isSome_map]
  by_cases zero : ctx.keyLen = 0
  · rw [setKeyRounds]
    cases key[(0 : UInt8).toNat]? with
    | none => exact iff_of_false Bool.false_ne_true fun both => both.1 zero
    | some byte =>
      rw [Option.bind_some, if_pos zero]
      exact iff_of_false Bool.false_ne_true fun both => both.1 zero
  · have positive : 0 < ctx.keyLen.natAbs := Int.natAbs_pos.mpr zero
    rw [@setKeyRounds_isSome key ctx.keyLen zero 256 0 rfl ctx.state 0 0 fun _ =>
      (Nat.zero_mod _).symm]
    constructor
    · intro reads
      have last := reads (min ctx.keyLen.natAbs 256 - 1) (Nat.zero_le _) (by omega)
      rw [Nat.mod_eq_of_lt (by omega)] at last
      exact ⟨zero, by omega⟩
    · intro both round _ high
      have low := Nat.mod_lt round positive
      have less := Nat.mod_le round ctx.keyLen.natAbs
      omega

def Admits (ctx : RC4Context) : Call → Prop
  | .setKey key => ctx.keyLen ≠ 0 ∧ min ctx.keyLen.natAbs 256 ≤ key.length
  | _ => True

/-- Calls are safe exactly if every key is as long as was announced, up to the 256 bytes
that are read of it; then each byte value stays in one cell of the state. -/
theorem calls_permute (calls : List Call) :
    ((run call rc4Reset calls).isSome ↔ Admitted call Admits rc4Reset calls) ∧
      ∀ ctx ∈ run call rc4Reset calls, ctx.state.Bijective := by
  constructor
  · refine run_isSome_iff fun ctx made => ?_
    cases made with
    | reset => exact iff_of_true rfl trivial
    | setOpt keyLen => exact iff_of_true rfl trivial
    | setKey key => exact rc4SetKey_isSome_iff ctx key
    | encrypt data => exact iff_of_true rfl trivial
  · intro ctx ran
    exact reached_of_run (fun ctx => ctx.state.Bijective)
      (fun _ _ _ bijective _ stepped => call_bijective bijective stepped) Function.bijective_id
      (admitted_always calls) ran

/-! ### Two ends of a connection -/

/-- One call for each piece. -/
def encryptPieces (ctx : RC4Context) : List (List UInt8) → List (List UInt8) × RC4Context
  | [] => ([], ctx)
  | piece :: pieces =>
    let (output, middle) := rc4Encrypt ctx piece
    let (outputs, after) := encryptPieces middle pieces
    (output :: outputs, after)

theorem rc4Encrypt_append (ctx : RC4Context) (first second : List UInt8) :
    rc4Encrypt ctx (first ++ second) =
      ((rc4Encrypt ctx first).1 ++ (rc4Encrypt (rc4Encrypt ctx first).2 second).1,
        (rc4Encrypt (rc4Encrypt ctx first).2 second).2) := by
  induction first generalizing ctx with
  | nil => rfl
  | cons byte first ih =>
    rw [cons_append, rc4Encrypt, ih]
    rfl

theorem encryptPieces_eq (ctx : RC4Context) (pieces : List (List UInt8)) :
    (encryptPieces ctx pieces).1.flatten = (rc4Encrypt ctx pieces.flatten).1 ∧
      (encryptPieces ctx pieces).2 = (rc4Encrypt ctx pieces.flatten).2 := by
  induction pieces generalizing ctx with
  | nil => exact ⟨rfl, rfl⟩
  | cons piece pieces ih =>
    obtain ⟨outputs, after⟩ := ih (rc4Encrypt ctx piece).2
    rw [encryptPieces, flatten_cons, flatten_cons, rc4Encrypt_append, outputs]
    exact ⟨rfl, after⟩

theorem rc4Encrypt_twice (ctx : RC4Context) (data : List UInt8) :
    rc4Encrypt ctx (rc4Encrypt ctx data).1 = (data, (rc4Encrypt ctx data).2) := by
  induction data generalizing ctx with
  | nil => rfl
  | cons byte data ih =>
    simp only [rc4Encrypt, ih]
    rw [UInt8.xor_assoc, UInt8.xor_self, UInt8.xor_zero]

theorem pieces_recovered (ctx : RC4Context) (sent received : List (List UInt8))
    (same : received.flatten = (encryptPieces ctx sent).1.flatten) :
    (encryptPieces ctx received).1.flatten = sent.flatten ∧
      (encryptPieces ctx received).2 = (encryptPieces ctx sent).2 := by
  obtain ⟨outputs, after⟩ := encryptPieces_eq ctx sent
  obtain ⟨outputs', after'⟩ := encryptPieces_eq ctx received
  rw [outputs', after', same, outputs, after, rc4Encrypt_twice]
  exact ⟨rfl, rfl⟩

theorem pieces_recovered_whole :
    (encryptPieces rc4Reset [(encryptPieces rc4Reset [[1], [2, 3]]).1.flatten]).1.flatten =
      [1, 2, 3] :=
  (pieces_recovered rc4Reset [[1], [2, 3]] _ flatten_singleton).1

end Purple.Ciphers.Rc4
