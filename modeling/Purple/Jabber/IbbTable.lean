/-
The table of in-band bytestreams over whole runs.

The table is sound while no two live sessions share a `sid`.  Only the creation
of a session can end that, so this is what a run is asked for; the calls a
callback makes are asked the same, in the state they are made in.
-/

import Purple.Jabber.Ibb

namespace Purple.Jabber.Ibb

open List Option PartialRun

section Table

variable {strings : Nat → Option Bytes} {table : List Entry} {sid : Bytes} {entry : Entry}

/-- Every key of the table is allocated, and only `entry`'s is `sid`. -/
def OnlyAt (strings : Nat → Option Bytes) (sid : Bytes) (entry : Entry) (table : List Entry) :
    Prop :=
  ∀ other ∈ table, ∃ text, strings other.key = some text ∧ (text = sid → other = entry)

def Absent (strings : Nat → Option Bytes) (sid : Bytes) (table : List Entry) : Prop :=
  ∀ other ∈ table, ∃ text, strings other.key = some text ∧ text ≠ sid

theorem hashLookup_absent (absent : Absent strings sid table) :
    hashLookup strings sid table = some none := by
  induction table with
  | nil => rfl
  | cons head rest ih =>
    obtain ⟨text, allocated, different⟩ := absent head mem_cons_self
    rw [hashLookup, allocated, bind_some, if_neg different]
    exact ih fun other member => absent other (mem_cons_of_mem head member)

theorem hashLookup_listed (only : OnlyAt strings sid entry table)
    (holds : strings entry.key = some sid) (listed : entry ∈ table) :
    hashLookup strings sid table = some (some entry) := by
  induction table with
  | nil => cases listed
  | cons head rest ih =>
    obtain ⟨text, allocated, same⟩ := only head mem_cons_self
    rw [hashLookup, allocated, bind_some]
    by_cases equal : text = sid
    · rw [if_pos equal, same equal]
    · rw [if_neg equal]
      obtain rfl | later := mem_cons.mp listed
      · rw [holds] at allocated
        exact absurd (Option.some.inj allocated).symm equal
      · exact ih (fun other member => only other (mem_cons_of_mem head member)) later

theorem hashInsert_absent (absent : Absent strings sid table) (sess : Nat) :
    hashInsert strings sid sess table = some (table ++ [⟨sess, sess⟩]) := by
  induction table with
  | nil => rfl
  | cons head rest ih =>
    obtain ⟨text, allocated, different⟩ := absent head mem_cons_self
    rw [hashInsert, allocated, bind_some, if_neg different,
      ih fun other member => absent other (mem_cons_of_mem head member)]
    rfl

theorem hashRemove_listed (only : OnlyAt strings sid entry table)
    (holds : strings entry.key = some sid) (listed : entry ∈ table) :
    hashRemove strings sid table = some (table.erase entry) := by
  induction table with
  | nil => cases listed
  | cons head rest ih =>
    obtain ⟨text, allocated, same⟩ := only head mem_cons_self
    rw [hashRemove, allocated, bind_some]
    by_cases equal : text = sid
    · rw [if_pos equal, same equal, erase_cons_head]
    · have different : head ≠ entry := by
        rintro rfl
        rw [holds] at allocated
        exact equal (Option.some.inj allocated).symm
      rw [if_neg equal, erase_cons_tail (by simpa using different),
        ih (fun other member => only other (mem_cons_of_mem head member))
          ((mem_cons.mp listed).resolve_left different.symm)]
      rfl

end Table

/-- No two live sessions share a `sid`, and the table lists exactly the live sessions. -/
structure Sound (world : World) : Prop where
  bounded : ∀ sess sid, world.sids sess = some sid → sess < world.fresh
  keyed : ∀ entry ∈ world.table,
    entry.key = entry.value ∧ ∃ sid, world.sids entry.value = some sid
  listed : ∀ sess sid, world.sids sess = some sid → ⟨sess, sess⟩ ∈ world.table
  distinct : ∀ sess other sid, world.sids sess = some sid → world.sids other = some sid →
    sess = other
  nodup : world.table.Nodup

structure Alike (world other : World) : Prop where
  sids : other.sids = world.sids
  fresh : other.fresh = world.fresh
  table : other.table = world.table

variable {world after : World} {sess : Nat} {session : JabberIBBSession} {sid : Bytes}

theorem Alike.refl (world : World) : Alike world world := ⟨rfl, rfl, rfl⟩

theorem send_alike (world : World) (iq : Iq) : Alike world (world.send iq) := ⟨rfl, rfl, rfl⟩

theorem Alike.sound (alike : Alike world after) (sound : Sound world) : Sound after where
  bounded := by
    rw [alike.sids, alike.fresh]
    exact sound.bounded
  keyed := by
    rw [alike.sids, alike.table]
    exact sound.keyed
  listed := by
    rw [alike.sids, alike.table]
    exact sound.listed
  distinct := by
    rw [alike.sids]
    exact sound.distinct
  nodup := by
    rw [alike.table]
    exact sound.nodup

theorem write_alike (live : world.sessions sess = some session) {written : JabberIBBSession}
    (same : written.sid = session.sid) : Alike world (world.write sess (some written)) := by
  refine ⟨?_, rfl, rfl⟩
  funext other
  change (if other = sess then some written else world.sessions other).map (·.sid) =
    (world.sessions other).map (·.sid)
  by_cases here : other = sess
  · rw [if_pos here, here, live, map_some, map_some, same]
  · rw [if_neg here]

theorem Sound.onlyAt (sound : Sound world) (holds : world.sids sess = some sid) :
    OnlyAt world.sids sid ⟨sess, sess⟩ world.table := by
  intro other member
  obtain ⟨same, text, allocated⟩ := sound.keyed other member
  refine ⟨text, by rw [same]; exact allocated, ?_⟩
  rintro rfl
  have value := sound.distinct other.value sess text allocated holds
  obtain ⟨key, otherValue⟩ := other
  simp only at same value
  rw [same, value]

theorem Sound.absent (sound : Sound world) (unused : ∀ sess, world.sids sess ≠ some sid) :
    Absent world.sids sid world.table := by
  intro other member
  obtain ⟨same, text, allocated⟩ := sound.keyed other member
  refine ⟨text, by rw [same]; exact allocated, ?_⟩
  rintro rfl
  exact unused other.value allocated

/-- The `sid` a call gives to a new session. -/
def Call.creates : Call → Option Bytes
  | .create sid nextId _ => some (sid.getD nextId)
  | .createFromXmlnode _ _ sid blockSize => blockSize.bind fun _ => sid
  | _ => none

/-- A new session gets the `sid` of no live session. -/
def FreshSid (world : World) (call : Call) : Prop :=
  ∀ sid, call.creates = some sid → ∀ sess, world.sids sess ≠ some sid

theorem create_spec (sound : Sound world) {sid : Option Bytes} {nextId who : Bytes}
    (unused : ∀ sess, world.sids sess ≠ some (sid.getD nextId))
    (created : jabberIbbSessionCreate world sid nextId who = some (after, sess)) :
    sess = world.fresh ∧ after.table = world.table ++ [⟨sess, sess⟩] ∧
      after.fresh = world.fresh + 1 ∧
      (∀ other, after.sids other = if other = sess then some (sid.getD nextId)
        else world.sids other) ∧ ∃ session, after.sessions sess = some session := by
  obtain ⟨table, inserted, same⟩ := map_eq_some_iff.mp created
  obtain ⟨rfl, rfl⟩ := Prod.mk.inj same
  have strings (other : Nat) : (world.allocate (newSession (sid.getD nextId) who)).sids other =
      if other = world.fresh then some (sid.getD nextId) else world.sids other := by
    change (if other = world.fresh then some _ else world.sessions other).map _ = _
    split <;> rfl
  have absent : Absent (world.allocate (newSession (sid.getD nextId) who)).sids
      (sid.getD nextId) world.table := by
    intro other member
    obtain ⟨text, allocated, different⟩ := sound.absent unused other member
    obtain ⟨same, _⟩ := sound.keyed other member
    refine ⟨text, ?_, different⟩
    rw [strings, if_neg]
    · exact allocated
    · exact Nat.ne_of_lt (sound.bounded _ _ allocated)
  have tables := (hashInsert_absent absent world.fresh).symm.trans inserted
  exact ⟨rfl, (Option.some.inj tables).symm, rfl, strings, _, if_pos rfl⟩

theorem create_sound (sound : Sound world) {sid : Option Bytes} {nextId who : Bytes}
    (unused : ∀ sess, world.sids sess ≠ some (sid.getD nextId))
    (created : jabberIbbSessionCreate world sid nextId who = some (after, sess)) :
    Sound after := by
  obtain ⟨rfl, table, fresh, strings, _⟩ := create_spec sound unused created
  have split (other : Nat) (text : Bytes) (holds : after.sids other = some text) :
      other = world.fresh ∧ text = sid.getD nextId ∨ world.sids other = some text := by
    rw [strings] at holds
    split at holds
    · rename_i here
      exact Or.inl ⟨here, (Option.some.inj holds).symm⟩
    · exact Or.inr holds
  have older (other : Nat) (text : Bytes) (holds : world.sids other = some text) :
      after.sids other = some text := by
    rw [strings, if_neg (Nat.ne_of_lt (sound.bounded other text holds))]
    exact holds
  refine ⟨?_, ?_, ?_, ?_, ?_⟩
  · intro other text holds
    rw [fresh]
    obtain ⟨rfl, _⟩ | old := split other text holds
    · exact Nat.lt_succ_self _
    · exact Nat.lt_succ_of_lt (sound.bounded other text old)
  · intro entry member
    rw [table] at member
    obtain old | new := mem_append.mp member
    · obtain ⟨same, text, allocated⟩ := sound.keyed entry old
      exact ⟨same, text, older _ _ allocated⟩
    · rw [mem_singleton.mp new]
      exact ⟨rfl, _, (strings _).trans (if_pos rfl)⟩
  · intro other text holds
    rw [table]
    obtain ⟨rfl, _⟩ | old := split other text holds
    · exact mem_append_right _ mem_cons_self
    · exact mem_append_left _ (sound.listed other text old)
  · intro first second text atFirst atSecond
    obtain ⟨rfl, rfl⟩ | oldFirst := split first text atFirst
    · obtain ⟨rfl, _⟩ | oldSecond := split second _ atSecond
      · rfl
      · exact absurd oldSecond (unused second)
    · obtain ⟨rfl, rfl⟩ | oldSecond := split second text atSecond
      · exact absurd oldFirst (unused first)
      · exact sound.distinct first second text oldFirst oldSecond
  · rw [table]
    refine nodup_append.mpr ⟨sound.nodup, pairwise_singleton _ _, ?_⟩
    intro entry member other new
    rw [mem_singleton.mp new]
    rintro rfl
    obtain ⟨_, text, allocated⟩ := sound.keyed _ member
    exact Nat.lt_irrefl _ (sound.bounded _ _ allocated)

theorem close_alike (closed : jabberIbbSessionClose world sess = some after) :
    Alike world after := by
  obtain ⟨session, live, rfl⟩ := map_eq_some_iff.mp closed
  split
  · have strings := (write_alike live (show ({ session with state := .closed }
      : JabberIBBSession).sid = session.sid from rfl)).sids
    exact ⟨strings, rfl, rfl⟩
  · exact Alike.refl world

theorem destroy_spec (sound : Sound world)
    (destroyed : jabberIbbSessionDestroy world sess = some after) :
    after.table = world.table.erase ⟨sess, sess⟩ ∧ after.fresh = world.fresh ∧
      (∀ other, after.sids other = if other = sess then none else world.sids other) ∧
      ∃ sid, world.sids sess = some sid := by
  obtain ⟨session, live, destroyed⟩ := bind_eq_some_iff.mp destroyed
  obtain ⟨middle, closed, destroyed⟩ := bind_eq_some_iff.mp destroyed
  obtain ⟨table, removed, rfl⟩ := map_eq_some_iff.mp destroyed
  have alike : Alike world middle := by
    split at closed
    · exact close_alike closed
    · cases closed
      exact Alike.refl world
  have holds : world.sids sess = some session.sid := by
    rw [World.sids, live]
    rfl
  rw [alike.sids, alike.table,
    hashRemove_listed (sound.onlyAt holds) holds (sound.listed sess session.sid holds)] at removed
  refine ⟨(Option.some.inj removed).symm, alike.fresh, ?_, session.sid, holds⟩
  intro other
  rw [← alike.sids]
  change (if other = sess then none else middle.sessions other).map _ = _
  split <;> rfl

theorem destroy_sound (sound : Sound world)
    (destroyed : jabberIbbSessionDestroy world sess = some after) : Sound after := by
  obtain ⟨table, fresh, strings, sid, holds⟩ := destroy_spec sound destroyed
  have old (other : Nat) (text : Bytes) (allocated : after.sids other = some text) :
      other ≠ sess ∧ world.sids other = some text := by
    rw [strings] at allocated
    split at allocated
    · cases allocated
    · rename_i different
      exact ⟨different, allocated⟩
  refine ⟨?_, ?_, ?_, ?_, ?_⟩
  · intro other text allocated
    rw [fresh]
    exact sound.bounded other text (old other text allocated).2
  · intro entry member
    rw [table] at member
    obtain ⟨different, listed⟩ := sound.nodup.mem_erase_iff.mp member
    obtain ⟨same, text, allocated⟩ := sound.keyed entry listed
    refine ⟨same, text, ?_⟩
    rw [strings, if_neg]
    · exact allocated
    · intro here
      apply different
      obtain ⟨key, value⟩ := entry
      simp only at same here
      rw [same, here]
  · intro other text allocated
    obtain ⟨different, before⟩ := old other text allocated
    rw [table]
    refine sound.nodup.mem_erase_iff.mpr ⟨?_, sound.listed other text before⟩
    intro same
    exact different (congrArg Entry.key same)
  · intro first second text atFirst atSecond
    exact sound.distinct first second text (old first text atFirst).2 (old second text atSecond).2
  · rw [table]
    exact sound.nodup.erase _

theorem perform_sound (sound : Sound world) {call : Call} (unused : FreshSid world call)
    (performed : perform world call = some after) : Sound after := by
  cases call with
  | create sid nextId who =>
    obtain ⟨⟨created, sess⟩, creates, rfl⟩ := map_eq_some_iff.mp performed
    exact create_sound sound (unused _ rfl) creates
  | createFromXmlnode sender id sid blockSize =>
    change jabberIbbSessionCreateFromXmlnode world sender id sid blockSize = some after at performed
    unfold jabberIbbSessionCreateFromXmlnode at performed
    split at performed
    · rename_i given size
      obtain ⟨⟨created, sess⟩, creates, performed⟩ := bind_eq_some_iff.mp performed
      obtain ⟨session, live, rfl⟩ := map_eq_some_iff.mp performed
      exact (write_alike live (by rfl)).sound (create_sound sound (unused _ rfl) creates)
    · cases performed
      exact sound
  | setCallbacks sess dataReceived error closed =>
    obtain ⟨session, live, rfl⟩ := map_eq_some_iff.mp performed
    exact (write_alike live (by rfl)).sound sound
  | close sess => exact (close_alike performed).sound sound
  | destroy sess => exact destroy_sound sound performed

/-- Every session the calls create has an unused `sid`, in whatever state of the same
sessions a callback makes them. -/
def FreshCalls (world : World) (calls : List Call) : Prop :=
  ∀ other, Alike world other → Admitted perform FreshSid other calls

def FreshSids (world : World) : Event → Prop
  | .call call => FreshSid world call
  | .stanza _ _ _ during _ => FreshCalls world during

theorem calls_sound (sound : Sound world) {calls : List Call} (unused : FreshCalls world calls)
    {other : World} (alike : Alike world other) (performed : run perform other calls = some after) :
    Sound after :=
  reached_of_run Sound (fun _ _ _ sound unused performed => perform_sound sound unused performed)
    (alike.sound sound) (unused other alike) performed

theorem runCallback_sound (sound : Sound world) {during : List Call}
    (unused : FreshCalls world during) {other : World} (alike : Alike world other) {isSet : Bool}
    (performed : runCallback isSet during other = some after) : Sound after := by
  rw [runCallback] at performed
  split at performed
  · exact calls_sound sound unused alike performed
  · cases performed
    exact alike.sound sound

theorem acknowledge_alike {who id : Bytes} (acknowledged : acknowledge sess who id world = some after) :
    Alike world after := by
  obtain ⟨session, live, rfl⟩ := map_eq_some_iff.mp acknowledged
  have strings := (write_alike live (show ({ session with recvSeq := session.recvSeq + 1 }
    : JabberIBBSession).sid = session.sid from rfl)).sids
  exact ⟨strings, rfl, rfl⟩

theorem parseExpected_sound (sound : Sound world) {during : List Call}
    (unused : FreshCalls world during) {who id : Bytes} {rawdata : Option Bytes}
    (parsed : parseExpected world during sess session who id rawdata = some after) :
    Sound after := by
  unfold parseExpected at parsed
  split at parsed
  · split at parsed
    · exact runCallback_sound sound unused (Alike.refl world) parsed
    · split at parsed
      · exact runCallback_sound sound unused (Alike.refl world) parsed
      · obtain ⟨middle, performed, acknowledged⟩ := bind_eq_some_iff.mp parsed
        exact (acknowledge_alike acknowledged).sound
          (calls_sound sound unused (by exact ⟨rfl, rfl, rfl⟩) performed)
  · exact (acknowledge_alike parsed).sound sound

theorem jabberIbbParse_sound (sound : Sound world) {during : List Call}
    (unused : FreshCalls world during) {who : Option Bytes} {id : Bytes} {stanza : Stanza}
    {taken : Bool} (parsed : jabberIbbParse world during who id stanza taken = some after) :
    Sound after := by
  unfold jabberIbbParse at parsed
  obtain ⟨found, _, parsed⟩ := bind_eq_some_iff.mp parsed
  cases found with
  | some entry =>
    obtain ⟨session, live, parsed⟩ := bind_eq_some_iff.mp parsed
    obtain ⟨sender, _, parsed⟩ := bind_eq_some_iff.mp parsed
    split at parsed
    · cases parsed
      exact sound
    · cases stanza with
      | data sid seqAttr rawdata =>
        change parseData world during entry.value session sender id seqAttr rawdata = _ at parsed
        rw [parseData] at parsed
        split at parsed
        · exact parseExpected_sound sound unused parsed
        · exact runCallback_sound sound unused (write_alike live (by rfl)) parsed
      | close sid =>
        exact runCallback_sound sound unused (write_alike live (by rfl)) parsed
      | «open» sid blockSize =>
        cases parsed
        exact sound
  | none =>
    cases stanza with
    | data sid seqAttr rawdata =>
      cases parsed
      exact (send_alike world _).sound sound
    | close sid =>
      cases parsed
      exact (send_alike world _).sound sound
    | «open» sid blockSize =>
      obtain ⟨middle, performed, sent⟩ := bind_eq_some_iff.mp parsed
      cases sent
      exact (send_alike middle _).sound (calls_sound sound unused (Alike.refl world) performed)

theorem step_sound (sound : Sound world) {event : Event} (unused : FreshSids world event)
    (stepped : step world event = some after) : Sound after := by
  cases event with
  | call call => exact perform_sound sound unused stepped
  | stanza who id stanza during taken => exact jabberIbbParse_sound sound unused stepped

theorem empty_sound : Sound World.empty where
  bounded := by
    intro sess sid impossible
    cases impossible
  keyed := by
    intro entry impossible
    cases impossible
  listed := by
    intro sess sid impossible
    cases impossible
  distinct := by
    intro sess other sid impossible
    cases impossible
  nodup := nodup_nil

/-- What the table is for: a key is the live `sid` of the session stored under it, a live
session is found under its `sid`, and destroying a session leaves the others' entries. -/
structure Tabled (world : World) : Prop where
  keyed : ∀ entry ∈ world.table,
    entry.key = entry.value ∧ ∃ sid, world.sids entry.value = some sid
  found : ∀ sess sid, world.sids sess = some sid →
    hashLookup world.sids sid world.table = some (some ⟨sess, sess⟩)
  kept : ∀ sess after, jabberIbbSessionDestroy world sess = some after →
    ∀ entry ∈ world.table, entry.value ≠ sess → entry ∈ after.table

theorem Sound.tabled (sound : Sound world) : Tabled world where
  keyed := sound.keyed
  found := by
    intro sess sid holds
    exact hashLookup_listed (sound.onlyAt holds) holds (sound.listed sess sid holds)
  kept := by
    intro sess after destroyed entry member different
    rw [(destroy_spec sound destroyed).1]
    refine sound.nodup.mem_erase_iff.mpr ⟨?_, member⟩
    rintro rfl
    exact different rfl

/-- After every run that creates no session under the `sid` of a live one. -/
theorem sessions_tabled {events : List Event}
    (unused : Admitted step FreshSids World.empty events) {world : World}
    (ran : run step World.empty events = some world) : Tabled world :=
  (reached_of_run Sound (fun _ _ _ sound unused stepped => step_sound sound unused stepped)
    empty_sound unused ran).tabled

/-- A session, data for it, another session from an open handler, and the end of the first. -/
def openedEvents : List Event :=
  [.call (.create (some [120]) [] [97]),
    .stanza (some [97]) [49] (.data (some [120]) (some [48]) (some [1])) [] false,
    .stanza (some [98]) [50] (.open (some [121]) (some [56]))
      [.createFromXmlnode [98] [50] (some [121]) (some [56])] true,
    .call (.destroy 0)]

theorem sessions_tabled_opened :
    ∃ world, run step World.empty openedEvents = some world ∧ Tabled world := by
  obtain ⟨world, ran⟩ : ∃ world, run step World.empty openedEvents = some world := ⟨_, rfl⟩
  refine ⟨world, ran, sessions_tabled ?_ ran⟩
  have named (world other : World) (alike : Alike world other) (text : Bytes)
      (vacant : ∀ sess, world.sids sess ≠ some text) (sess : Nat) : other.sids sess ≠ some text := by
    rw [alike.sids]
    exact vacant sess
  refine ⟨?_, fun first created => ⟨?_, fun second received => ⟨?_, fun third opened =>
    ⟨?_, fun _ _ => trivial⟩⟩⟩⟩
  · rintro _ _ sess holds
    cases holds
  · exact fun _ _ => trivial
  · cases created
    cases received
    refine fun other alike => ⟨?_, fun _ _ => trivial⟩
    rintro _ same sess
    cases same
    refine named _ other alike [121] ?_ sess
    intro sess holds
    match sess with
    | 0 => cases holds
    | _ + 1 => cases holds
  · rintro _ impossible
    cases impossible

/-- A second session named `x` is stored under the key of the first one. -/
theorem shared_sid_not_tabled :
    ∃ world, run step World.empty
        [.call (.create (some [120]) [] [97]), .call (.create (some [120]) [] [98])] = some world ∧
      ¬ Tabled world := by
  refine ⟨_, rfl, ?_⟩
  intro tabled
  have found := tabled.found 0 [120] rfl
  cases found

end Purple.Jabber.Ibb
