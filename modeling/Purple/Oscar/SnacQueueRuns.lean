/-
No SNAC is lost, reordered or sent too early, in runs of any length.

One walk over a queue is described once; the timer makes two of them, and a
direct send none.  Every state of a run is described by what was submitted, what
was sent and what waits.
-/

import Purple.Oscar.SnacQueue

namespace Purple.Oscar

open List Option

variable {classes : Nat}

/-- The class of the SNAC, if it has one, is not dropping and stays above its alert. -/
def SnacConnection.Clear (conn : SnacConnection classes) (now : Timeval)
    (family subtype : UInt16) : Prop :=
  ∀ index, conn.flapConnectionGetRateclass family subtype = some index →
    (conn.rateclasses index).droppingSnacs = 0 ∧
      ∃ newCurrent, rateclassGetNewCurrent (conn.rateclasses index) now = some newCurrent ∧
        (conn.rateclasses index).alert < newCurrent

def SnacConnection.Windowed (conn : SnacConnection classes) : Prop :=
  ∀ family subtype index, conn.flapConnectionGetRateclass family subtype = some index →
    (conn.rateclasses index).windowsize ≠ 0

/-- What is sent is clear, bypasses nothing that waits, and leaves no SNAC of high
priority behind one of low priority. -/
structure Transmission.Permitted (sent : Transmission classes) : Prop where
  clear : sent.before.Clear sent.now sent.snac.family sent.snac.subtype
  inOrder : (sent.before.waiting sent.highPriority).head? = some sent.snac ∨
    ∀ priority, sent.before.waiting priority = []
  afterHigh : sent.highPriority = false → sent.before.waiting true = []

/-- Every SNAC was sent once or waits, in the order of submission within its
priority, and the timer is armed exactly while a SNAC waits. -/
structure Traffic.Sound (traffic : Traffic classes) : Prop where
  once : (traffic.transmitted.map Transmission.snac ++
    (traffic.conn.waiting true ++ traffic.conn.waiting false)).Perm (traffic.submitted.map Prod.snd)
  fifo : ∀ priority,
    (traffic.transmitted.filter (·.highPriority == priority)).map Transmission.snac ++
        traffic.conn.waiting priority =
      (traffic.submitted.filter (·.1 == priority)).map Prod.snd
  permitted : ∀ sent ∈ traffic.transmitted, sent.Permitted
  armed : traffic.conn.queuedTimeout = true ↔ ∃ priority, traffic.conn.waiting priority ≠ []

variable {conn : SnacConnection classes} {transmitted : List (Transmission classes)}
  {submitted : List (Bool × QueuedSnac)} {traffic : Traffic classes}

@[simp] theorem waiting_setQueue_same (conn : SnacConnection classes) (priority : Bool)
    (snacs : List QueuedSnac) : (conn.setQueue priority snacs).waiting priority = snacs := by
  cases priority <;> rfl

@[simp] theorem waiting_setQueue_other (conn : SnacConnection classes) (priority : Bool)
    (snacs : List QueuedSnac) :
    (conn.setQueue priority snacs).waiting (!priority) = conn.waiting (!priority) := by
  cases priority <;> rfl

theorem windowed_setQueue (windowed : conn.Windowed) (priority : Bool) (snacs : List QueuedSnac) :
    (conn.setQueue priority snacs).Windowed := by
  cases priority <;> exact windowed

@[simp] theorem queuedTimeout_setQueue (conn : SnacConnection classes) (priority : Bool)
    (snacs : List QueuedSnac) :
    (conn.setQueue priority snacs).queuedTimeout = conn.queuedTimeout := by
  cases priority <;> rfl

theorem newCurrent_exists {rateclass : Rateclass} (nonzero : rateclass.windowsize ≠ 0)
    (now : Timeval) : ∃ newCurrent, rateclassGetNewCurrent rateclass now = some newCurrent := by
  rw [rateclassGetNewCurrent, if_neg nonzero]
  exact ⟨_, rfl⟩

theorem admitSnac_spec (windowed : conn.Windowed) (now : Timeval) (family subtype : UInt16) :
    ∃ admitted, conn.admitSnac now family subtype = some admitted ∧
      ∀ after, admitted = some after → conn.Clear now family subtype ∧ after.Windowed ∧
        (∀ priority, after.waiting priority = conn.waiting priority) ∧
        after.queuedTimeout = conn.queuedTimeout := by
  cases found : conn.flapConnectionGetRateclass family subtype with
  | none =>
    refine ⟨some conn, by rw [SnacConnection.admitSnac, found], fun after same => ?_⟩
    cases same
    refine ⟨fun index other => ?_, windowed, fun _ => rfl, rfl⟩
    rw [found] at other
    cases other
  | some index =>
    obtain ⟨newCurrent, average⟩ := newCurrent_exists (windowed family subtype index found) now
    have tested : conn.admitSnac now family subtype =
        some (if (conn.rateclasses index).droppingSnacs ≠ 0 ∨
            newCurrent ≤ (conn.rateclasses index).alert then none
          else some { conn with
            rateclasses := Function.update conn.rateclasses index
              { conn.rateclasses index with current := newCurrent, last := now } }) := by
      rw [SnacConnection.admitSnac, found]
      simp only [average, map_some]
    refine ⟨_, tested, fun after same => ?_⟩
    by_cases blocked : (conn.rateclasses index).droppingSnacs ≠ 0 ∨
        newCurrent ≤ (conn.rateclasses index).alert
    · rw [if_pos blocked] at same
      cases same
    · rw [if_neg blocked] at same
      cases same
      rw [not_or, not_not, UInt32.not_le] at blocked
      refine ⟨fun other same => ?_, fun family subtype other looked => ?_, fun _ => rfl, rfl⟩
      · rw [found] at same
        cases same
        exact ⟨blocked.1, newCurrent, average, blocked.2⟩
      · change (Function.update conn.rateclasses index
          { conn.rateclasses index with current := newCurrent, last := now } other).windowsize ≠ 0
        by_cases own : other = index
        · rw [own, Function.update_self]
          rw [own] at looked
          exact windowed family subtype index looked
        · rw [Function.update_of_ne own]
          exact windowed family subtype other looked

structure Walked (conn : SnacConnection classes) (priority : Bool) (sending : Sending classes) :
    Prop where
  windowed : sending.conn.Windowed
  split : conn.waiting priority =
    sending.transmitted.map Transmission.snac ++ sending.conn.waiting priority
  other : sending.conn.waiting (!priority) = conn.waiting (!priority)
  timeout : sending.conn.queuedTimeout = conn.queuedTimeout
  own : ∀ sent ∈ sending.transmitted, sent.highPriority = priority
  permitted : ∀ sent ∈ sending.transmitted, sent.Permitted
  emptied : sending.emptied = true ↔ sending.conn.waiting priority = []

theorem sendSnacQueue_walks (now : Timeval) (priority : Bool) (queue : List QueuedSnac)
    (windowed : conn.Windowed) (own : conn.waiting priority = queue)
    (turn : priority = false → conn.waiting true = []) :
    ∃ sending, flapConnectionSendSnacQueue now priority queue conn = some sending ∧
      Walked conn priority sending := by
  induction queue generalizing conn with
  | nil =>
    refine ⟨_, rfl, windowed, rfl, rfl, rfl, ?_, ?_, fun _ => own, fun _ => rfl⟩
    · exact fun _ absent => absurd absent not_mem_nil
    · exact fun _ absent => absurd absent not_mem_nil
  | cons snac rest ih =>
    obtain ⟨admitted, tested, passes⟩ := admitSnac_spec windowed now snac.family snac.subtype
    rw [flapConnectionSendSnacQueue, tested, bind_some]
    cases admitted with
    | none =>
      refine ⟨_, rfl, windowed, rfl, rfl, rfl, ?_, ?_, ?_⟩
      · exact fun _ absent => absurd absent not_mem_nil
      · exact fun _ absent => absurd absent not_mem_nil
      · change false = true ↔ conn.waiting priority = []
        rw [own]
        exact ⟨Bool.noConfusion, fun empty => absurd empty (cons_ne_nil _ _)⟩
    | some after =>
      obtain ⟨clear, afterWindowed, sameWaiting, sameTimeout⟩ := passes after rfl
      have turnAfter : priority = false → (after.setQueue priority rest).waiting true = [] := by
        intro low
        subst low
        exact (sameWaiting true).trans (turn rfl)
      obtain ⟨sending, walked, result⟩ := ih (windowed_setQueue afterWindowed priority rest)
        (waiting_setQueue_same after priority rest) turnAfter
      rw [elim_some, walked, map_some]
      refine ⟨_, rfl, result.windowed, ?_, ?_, ?_, ?_, ?_, result.emptied⟩
      · have split := result.split
        rw [waiting_setQueue_same] at split
        rw [own, map_cons, cons_append, ← split]
      · exact result.other.trans ((waiting_setQueue_other after priority rest).trans
          (sameWaiting _))
      · exact result.timeout.trans ((queuedTimeout_setQueue after priority rest).trans
          sameTimeout)
      · intro sent member
        cases member with
        | head => rfl
        | tail _ later => exact result.own sent later
      · intro sent member
        cases member with
        | head =>
          refine ⟨clear, .inl ?_, turn⟩
          change (conn.waiting priority).head? = some snac
          rw [own]
          rfl
        | tail _ later => exact result.permitted sent later

theorem sendQueueUnlessNull_walks (now : Timeval) (priority : Bool) (windowed : conn.Windowed)
    (turn : priority = false → conn.waiting true = []) :
    ∃ sending, sendQueueUnlessNull now priority conn = some sending ∧
      Walked conn priority sending := by
  cases used : conn.queue priority with
  | none =>
    have empty : conn.waiting priority = [] := by
      rw [SnacConnection.waiting, used]
      rfl
    rw [sendQueueUnlessNull, used]
    refine ⟨_, rfl, windowed, rfl, rfl, rfl, ?_, ?_, fun _ => empty, fun _ => rfl⟩
    · exact fun _ absent => absurd absent not_mem_nil
    · exact fun _ absent => absurd absent not_mem_nil
  | some queue =>
    have own : conn.waiting priority = queue := by
      rw [SnacConnection.waiting, used]
      rfl
    rw [sendQueueUnlessNull, used]
    exact sendSnacQueue_walks now priority queue windowed own turn

/-! ### One call -/

theorem filter_own {priority : Bool} (own : ∀ sent ∈ transmitted, sent.highPriority = priority)
    (wanted : Bool) :
    transmitted.filter (·.highPriority == wanted) = if priority = wanted then transmitted else [] := by
  by_cases same : priority = wanted
  · rw [if_pos same]
    apply filter_eq_self.mpr
    intro sent member
    rw [own sent member, same]
    exact beq_self_eq_true wanted
  · rw [if_neg same]
    apply filter_eq_nil_iff.mpr
    intro sent member
    rw [own sent member, beq_iff_eq]
    exact same

/-- What was sent, waits and was submitted, for both priorities, as far as order goes. -/
def Fifo (conn : SnacConnection classes) (submitted : List (Bool × QueuedSnac))
    (transmitted : List (Transmission classes)) : Prop :=
  ∀ priority, (transmitted.filter (·.highPriority == priority)).map Transmission.snac ++
      conn.waiting priority =
    (submitted.filter (·.1 == priority)).map Prod.snd

theorem fifo_walked (fifo : Fifo conn submitted transmitted) {priority : Bool}
    {sending : Sending classes} (walked : Walked conn priority sending) :
    Fifo sending.conn submitted (transmitted ++ sending.transmitted) := by
  intro wanted
  rw [filter_append, filter_own walked.own, ← fifo wanted, map_append, append_assoc]
  by_cases same : priority = wanted
  · rw [if_pos same, ← same, walked.split]
  · have other : wanted = !priority := Bool.eq_not.mpr fun equal => same equal.symm
    rw [if_neg same, map_nil, nil_append, other, walked.other]

theorem once_of_fifo (fifo : Fifo conn submitted transmitted) :
    (transmitted.map Transmission.snac ++ (conn.waiting true ++ conn.waiting false)).Perm
      (submitted.map Prod.snd) := by
  have notTrue : (fun sent : Transmission classes => !(sent.highPriority == true)) =
      fun sent => sent.highPriority == false := by
    funext sent
    cases sent.highPriority <;> rfl
  have notHigh : (fun entry : Bool × QueuedSnac => !(entry.1 == true)) =
      fun entry => entry.1 == false := by
    funext entry
    cases entry.1 <;> rfl
  have sent := filter_append_perm (fun sent => sent.highPriority == true) transmitted
  have given := filter_append_perm (fun entry : Bool × QueuedSnac => entry.1 == true) submitted
  rw [notTrue] at sent
  rw [notHigh] at given
  have moved := ((sent.map Transmission.snac).symm).append_right
    (conn.waiting true ++ conn.waiting false)
  refine moved.trans (List.Perm.trans ?_ (given.map Prod.snd))
  rw [map_append, map_append, ← fifo true, ← fifo false]
  simp only [append_assoc]
  refine List.Perm.append_left _ ?_
  rw [← append_assoc, ← append_assoc]
  exact List.Perm.append_right _ perm_append_comm

theorem fifo_enqueued (fifo : Fifo conn submitted transmitted) (priority : Bool)
    (snac : QueuedSnac) :
    Fifo (conn.enqueue priority snac) (submitted ++ [(priority, snac)]) transmitted := by
  intro wanted
  by_cases same : priority = wanted
  · have waits : (conn.enqueue priority snac).waiting wanted = conn.waiting priority ++ [snac] := by
      rw [← same]
      exact waiting_setQueue_same conn priority _
    have newest : [(priority, snac)].filter (·.1 == wanted) = [(priority, snac)] := by
      rw [same]
      cases wanted <;> rfl
    rw [waits, filter_append, newest, map_append, ← fifo wanted, same, append_assoc]
    rfl
  · have other : wanted = !priority := Bool.eq_not.mpr fun equal => same equal.symm
    have waits : (conn.enqueue priority snac).waiting wanted = conn.waiting wanted := by
      rw [other]
      exact waiting_setQueue_other conn priority _
    have none : [(priority, snac)].filter (·.1 == wanted) = [] := by
      rw [other]
      cases priority <;> rfl
    rw [waits, filter_append, none, append_nil, fifo wanted]

theorem fifo_sent {after : SnacConnection classes} (fifo : Fifo conn submitted transmitted)
    (idle : ∀ priority, conn.waiting priority = [])
    (same : ∀ priority, after.waiting priority = conn.waiting priority)
    (sent : Transmission classes) :
    Fifo after (submitted ++ [(sent.highPriority, sent.snac)]) (transmitted ++ [sent]) := by
  intro wanted
  have before := fifo wanted
  rw [idle, append_nil] at before
  rw [same, idle, append_nil, filter_append, filter_append, map_append,
    map_append, before]
  cases own : (sent.highPriority == wanted) with
  | true =>
    simp only [filter_cons, own, filter_nil]
    rfl
  | false =>
    simp only [filter_cons, own, filter_nil]
    rfl

theorem waits_enqueued (conn : SnacConnection classes) (priority : Bool) (snac : QueuedSnac) :
    ∃ wanted, (conn.enqueue priority snac).waiting wanted ≠ [] := by
  refine ⟨priority, ?_⟩
  change (conn.setQueue priority (conn.waiting priority ++ [snac])).waiting priority ≠ []
  rw [waiting_setQueue_same]
  exact append_ne_nil_of_right_ne_nil _ (cons_ne_nil _ _)

/-! ### Steps and runs -/

structure Traffic.Kept (traffic : Traffic classes) : Prop where
  windowed : traffic.conn.Windowed
  fifo : Fifo traffic.conn traffic.submitted traffic.transmitted
  permitted : ∀ sent ∈ traffic.transmitted, sent.Permitted
  armed : traffic.conn.queuedTimeout = true ↔ ∃ priority, traffic.conn.waiting priority ≠ []

theorem Traffic.Kept.sound (kept : traffic.Kept) : traffic.Sound :=
  ⟨once_of_fifo kept.fifo, kept.fifo, kept.permitted, kept.armed⟩

theorem Traffic.Kept.idle (kept : traffic.Kept) (unarmed : traffic.conn.queuedTimeout = false)
    (priority : Bool) : traffic.conn.waiting priority = [] := by
  by_contra waits
  have armed := kept.armed.mpr ⟨priority, waits⟩
  rw [unarmed] at armed
  cases armed

theorem permitted_append {first second : List (Transmission classes)}
    (firsts : ∀ sent ∈ first, sent.Permitted) (seconds : ∀ sent ∈ second, sent.Permitted) :
    ∀ sent ∈ first ++ second, sent.Permitted := by
  intro sent member
  cases mem_append.mp member with
  | inl early => exact firsts sent early
  | inr late => exact seconds sent late

theorem sendSnac_kept (kept : traffic.Kept) (snac : QueuedSnac) (priority : Bool) (now : Timeval) :
    ∃ conn transmitted,
      flapConnectionSendSnacWithPriority traffic.conn snac priority now = some (conn, transmitted) ∧
      Traffic.Kept { conn, submitted := traffic.submitted ++ [(priority, snac)]
                     transmitted := traffic.transmitted ++ transmitted } := by
  have queued : Traffic.Kept { conn := traffic.conn.enqueue priority snac
                               submitted := traffic.submitted ++ [(priority, snac)]
                               transmitted := traffic.transmitted ++ [] } := by
    rw [append_nil]
    exact ⟨windowed_setQueue kept.windowed priority _, fifo_enqueued kept.fifo priority snac,
      kept.permitted, fun _ => waits_enqueued _ _ _, fun _ => rfl⟩
  cases armed : traffic.conn.queuedTimeout with
  | true =>
    refine ⟨_, _, ?_, queued⟩
    rw [flapConnectionSendSnacWithPriority, if_pos armed]
  | false =>
    obtain ⟨admitted, tested, passes⟩ :=
      admitSnac_spec kept.windowed now snac.family snac.subtype
    have sends : flapConnectionSendSnacWithPriority traffic.conn snac priority now =
        some (admitted.elim (traffic.conn.enqueue priority snac, []) fun after =>
          (after, [{ snac, highPriority := priority, now, before := traffic.conn }])) := by
      rw [flapConnectionSendSnacWithPriority, if_neg (ne_true_of_eq_false armed), tested,
        map_some]
    cases admitted with
    | none => exact ⟨_, _, sends, queued⟩
    | some after =>
      obtain ⟨clear, windowed, sameWaiting, sameTimeout⟩ := passes after rfl
      refine ⟨_, _, sends, windowed, fifo_sent kept.fifo (kept.idle armed) sameWaiting _, ?_, ?_⟩
      · refine permitted_append kept.permitted fun sent member => ?_
        cases mem_singleton.mp member
        exact ⟨clear, .inr (kept.idle armed), fun _ => kept.idle armed true⟩
      · change after.queuedTimeout = true ↔ ∃ wanted, after.waiting wanted ≠ []
        rw [sameTimeout, kept.armed]
        simp only [sameWaiting]

theorem sendQueued_kept (kept : traffic.Kept) (now : Timeval)
    (armed : traffic.conn.queuedTimeout = true) :
    ∃ conn transmitted, flapConnectionSendQueued traffic.conn now = some (conn, transmitted) ∧
      Traffic.Kept { traffic with conn, transmitted := traffic.transmitted ++ transmitted } := by
  obtain ⟨first, walked, high⟩ :=
    sendQueueUnlessNull_walks now true kept.windowed Bool.noConfusion
  have highFifo := fifo_walked kept.fifo high
  have highPermitted := permitted_append kept.permitted high.permitted
  have highArmed : first.conn.queuedTimeout = true := high.timeout.trans armed
  cases highEmptied : first.emptied with
  | false =>
    refine ⟨first.conn, first.transmitted, ?_, high.windowed, highFifo, highPermitted,
      fun _ => ⟨true, fun empty => ?_⟩, fun _ => highArmed⟩
    · rw [flapConnectionSendQueued, walked, bind_some, if_neg (ne_true_of_eq_false highEmptied)]
    · exact absurd (high.emptied.mpr empty) (ne_true_of_eq_false highEmptied)
  | true =>
    have highEmpty := high.emptied.mp highEmptied
    obtain ⟨second, lowWalked, low⟩ :=
      sendQueueUnlessNull_walks now false high.windowed fun _ => highEmpty
    have lowFifo := fifo_walked highFifo low
    rw [append_assoc] at lowFifo
    have lowPermitted := permitted_append kept.permitted
      (permitted_append high.permitted low.permitted)
    have stillEmpty : second.conn.waiting true = [] := low.other.trans highEmpty
    have sends : flapConnectionSendQueued traffic.conn now =
        some (if second.emptied then { second.conn with queuedTimeout := false } else second.conn,
          first.transmitted ++ second.transmitted) := by
      rw [flapConnectionSendQueued, walked, bind_some, if_pos highEmptied, lowWalked,
        map_some]
    cases lowEmptied : second.emptied with
    | false =>
      rw [lowEmptied] at sends
      refine ⟨second.conn, _, sends, low.windowed, lowFifo, lowPermitted,
        fun _ => ⟨false, fun empty => ?_⟩, fun _ => low.timeout.trans highArmed⟩
      exact absurd (low.emptied.mpr empty) (ne_true_of_eq_false lowEmptied)
    | true =>
      rw [lowEmptied] at sends
      refine ⟨_, _, sends, low.windowed, lowFifo, lowPermitted, Bool.noConfusion, ?_⟩
      intro ⟨wanted, waits⟩
      cases wanted with
      | true => exact absurd stillEmpty waits
      | false => exact absurd (low.emptied.mp lowEmptied) waits

theorem trafficStep_kept (traffic : Traffic classes) (action : SnacAction) (kept : traffic.Kept)
    (_admitted : True) : ∃ next, trafficStep traffic action = some next ∧ next.Kept := by
  cases action with
  | sendSnac family subtype snacid data priority now fresh =>
    obtain ⟨conn, transmitted, sent, next⟩ := sendSnac_kept kept
      { family, subtype, frame := snacFrame fresh family subtype snacid data } priority now
    exact ⟨_, by rw [trafficStep, sent, map_some], next⟩
  | tick now =>
    by_cases armed : traffic.conn.queuedTimeout = true
    · obtain ⟨conn, transmitted, sent, next⟩ := sendQueued_kept kept now armed
      exact ⟨_, by rw [trafficStep, if_pos armed, sent, map_some], next⟩
    · exact ⟨traffic, by rw [trafficStep, if_neg armed], kept⟩

theorem start_kept (rateclasses : Fin classes → Rateclass)
    (members : HashTable UInt32 (Fin classes)) (default : Option (Fin classes))
    (windowed : (Traffic.start rateclasses members default).conn.Windowed) :
    (Traffic.start rateclasses members default).Kept where
  windowed := windowed
  fifo := fun wanted => by cases wanted <;> rfl
  permitted := fun _ absent => absurd absent not_mem_nil
  armed := ⟨Bool.noConfusion, fun ⟨wanted, waits⟩ => by cases wanted <;> exact absurd rfl waits⟩

theorem divides_by_zero {conn : SnacConnection classes} (unarmed : conn.queuedTimeout = false)
    {family subtype : UInt16} {index : Fin classes}
    (found : conn.flapConnectionGetRateclass family subtype = some index)
    (zero : (conn.rateclasses index).windowsize = 0) (frame : FlapFrame) (priority : Bool)
    (now : Timeval) :
    flapConnectionSendSnacWithPriority conn { family, subtype, frame } priority now = none := by
  rw [flapConnectionSendSnacWithPriority, if_neg (ne_true_of_eq_false unarmed),
    SnacConnection.admitSnac, found]
  simp only [rateclassGetNewCurrent, if_pos zero, map_none]

/-- For a table of rate classes, all runs are sound if and only if no class that a
SNAC can be looked up in has the window size 0. -/
theorem snacQueue_sound_iff (classes : Nat) (rateclasses : Fin classes → Rateclass)
    (members : HashTable UInt32 (Fin classes)) (default : Option (Fin classes)) :
    (∀ actions, ∃ last, PartialRun.run trafficStep (Traffic.start rateclasses members default)
      actions = some last ∧ last.Sound) ↔
      (Traffic.start rateclasses members default).conn.Windowed := by
  constructor
  · intro sound family subtype index found zero
    obtain ⟨last, ran, _sound⟩ :=
      sound [.sendSnac family subtype 0 none true { tvSec := 0, tvUsec := 0 } zeroed]
    have crashed := divides_by_zero rfl found zero (snacFrame zeroed family subtype 0 none) true
      { tvSec := 0, tvUsec := 0 }
    rw [PartialRun.run_cons, trafficStep, crashed] at ran
    cases ran
  · intro windowed actions
    obtain ⟨last, ran, kept⟩ := PartialRun.reached Traffic.Kept trafficStep_kept
      (start_kept rateclasses members default windowed) (PartialRun.admitted_always actions)
      (prefix_refl actions)
    exact ⟨last, ran, kept.sound⟩

def zeroWindow : Fin 1 → Rateclass := fun _ =>
  { windowsize := 0, alert := 0, current := 0, max := 0, droppingSnacs := 0
    last := { tvSec := 0, tvUsec := 0 } }

theorem zeroWindow_not_sound :
    ¬∀ (classes : Nat) (rateclasses : Fin classes → Rateclass)
      (members : HashTable UInt32 (Fin classes)) (default : Option (Fin classes))
      (actions : List SnacAction),
      ∃ last, PartialRun.run trafficStep (Traffic.start rateclasses members default) actions =
        some last ∧ last.Sound := by
  intro sound
  obtain ⟨last, ran, _sound⟩ := sound 1 zeroWindow HashTable.empty (some 0)
    [.sendSnac 4 6 1 none true { tvSec := 1, tvUsec := 0 } zeroed]
  have crashed := @divides_by_zero 1 (Traffic.start zeroWindow HashTable.empty (some 0)).conn
    rfl 4 6 0 rfl rfl (snacFrame zeroed 4 6 1 none) true { tvSec := 1, tvUsec := 0 }
  rw [PartialRun.run_cons, trafficStep, crashed] at ran
  cases ran

end Purple.Oscar
