/-
What the socket is given of each request, over all attempts.

`s5_canwrite` does not reset the progress counter, so what an earlier attempt has written
counts for the greeting of the next one.
-/

import Purple.Proxy.Connect

namespace Purple.Proxy

open List PartialRun

/-- Every request is handed to the socket from its first byte on, in order and once, and
the reply is read only behind its last byte. -/
structure Exact (data : ConnectData) : Prop where
  bounded : data.writtenLen ≤ data.writeBufLen
  begun : ∀ handed ∈ data.log, handed.accepted <+: handed.request
  writing : data.doing = .proxyDoWrite → ∃ request older,
    data.log = ⟨request, request.take data.writtenLen⟩ :: older ∧
      data.writeBuffer = some request ∧ data.writeBufLen = request.length
  writable : data.doing = .proxyDoWrite → ∀ wrote, (proxyDoWrite data wrote).isSome
  replying : data.doing = .readCb → ∃ request older, data.log = ⟨request, request⟩ :: older

def Fresh (info : ProxyInfo) (data : ConnectData) (event : Event) : Prop :=
  info.type = .socks5 → data.doing = .canwrite → event = .canwrite false → data.writtenLen = 0

structure Idle (data : ConnectData) : Prop where
  bounded : data.writtenLen ≤ data.writeBufLen
  begun : ∀ handed ∈ data.log, handed.accepted <+: handed.request

variable {data : ConnectData} {info : ProxyInfo}

theorem Exact.idle (exact : Exact data) : Idle data :=
  ⟨exact.bounded, exact.begun⟩

theorem exact_of_idle (idle : Idle data) (writing : data.doing ≠ .proxyDoWrite)
    (replying : data.doing ≠ .readCb) : Exact data :=
  ⟨idle.bounded, idle.begun, fun now => absurd now writing, fun now => absurd now writing,
    fun now => absurd now replying⟩

theorem exact_disconnect (idle : Idle data) : Exact (disconnectData data) := by
  refine exact_of_idle ⟨idle.bounded, idle.begun⟩ ?_ ?_
  · rw [disconnectData]
    split <;> simp
  · rw [disconnectData]
    split <;> simp

theorem exact_destroy (idle : Idle data) (connected : Bool) : Exact (destroyData data connected) :=
  exact_of_idle ⟨idle.bounded, idle.begun⟩ (by simp [destroyData]) (by simp [destroyData])

theorem proxyDoWrite_isSome {request : Bytes} (buffer : data.writeBuffer = some request)
    (bounded : data.writtenLen ≤ data.writeBufLen) (wrote : Wrote) :
    (proxyDoWrite data wrote).isSome := by
  rw [proxyDoWrite, buffer, Option.bind_some, if_neg (Nat.not_lt_of_le bounded)]
  dsimp only
  split
  · split <;> rfl
  · split <;> rfl

theorem exact_install {data : ConnectData} (idle : Idle data) (zero : data.writtenLen = 0)
    (request : Bytes) (readCb : ReplyCb) : Exact (install data request readCb) := by
  have bounded : (install data request readCb).writtenLen ≤
      (install data request readCb).writeBufLen := by
    change data.writtenLen ≤ request.length
    rw [zero]
    exact Nat.zero_le _
  refine ⟨bounded, ?_, fun _ => ⟨request, data.log, ?_, rfl, rfl⟩,
    fun _ => proxyDoWrite_isSome rfl bounded, (nomatch ·)⟩
  · intro handed member
    rcases mem_cons.mp member with rfl | older
    · exact nil_prefix
    · exact idle.begun handed older
  · change ⟨request, []⟩ :: data.log = ⟨request, request.take data.writtenLen⟩ :: data.log
    rw [zero, take_zero]

theorem exact_sendRequest (idle : Idle data) (request : Bytes) (readCb : ReplyCb) :
    Exact (sendRequest data request readCb) :=
  @exact_install { data with writtenLen := 0, reader := .empty } ⟨Nat.zero_le _, idle.begun⟩ rfl
    request readCb

theorem exact_tryConnect (idle : Idle data) (connects : Connects) :
    Exact (tryConnect data connects) := by
  cases connects with
  | noSocket => exact exact_disconnect ⟨idle.bounded, idle.begun⟩
  | refused => exact exact_disconnect ⟨idle.bounded, idle.begun⟩
  | inProgress => exact exact_of_idle ⟨idle.bounded, idle.begun⟩ (by simp [tryConnect]) (by simp [tryConnect])
  | immediately => exact exact_of_idle ⟨idle.bounded, idle.begun⟩ (by simp [tryConnect]) (by simp [tryConnect])

theorem exact_canwrite (idle : Idle data) {error : Bool}
    (fresh : info.type = .socks5 → error = false → data.writtenLen = 0) :
    Exact (canwrite info data error) := by
  rw [canwrite]
  by_cases failed : error
  · rw [if_pos failed]
    exact exact_disconnect idle
  · rw [if_neg failed]
    cases type : info.type with
    | http =>
      dsimp only
      rw [httpCanwrite]
      split
      · exact exact_destroy idle true
      · exact exact_sendRequest idle _ _
    | socks4 =>
      dsimp only
      rw [s4Canwrite]
      split
      · exact exact_sendRequest idle _ _
      · exact exact_of_idle ⟨idle.bounded, idle.begun⟩ (by simp) (by simp)
    | socks5 => exact exact_install idle (fresh type (Bool.eq_false_iff.mpr failed)) _ _

theorem exact_hostResolved (idle : Idle data) (address : Option Bytes) :
    Exact (s4HostResolved info data address) := by
  cases address with
  | none => exact exact_disconnect idle
  | some address => exact exact_sendRequest idle _ _

theorem accepted_more (request : Bytes) (written count : Nat) :
    request.take written ++ (request.drop written).take count = request.take (written + count) := by
  rw [take_add]

theorem exact_proxyDoWrite {next : ConnectData} (exact : Exact data)
    (doing : data.doing = .proxyDoWrite) {wrote : Wrote}
    (done : proxyDoWrite data wrote = some next) : Exact next := by
  obtain ⟨request, older, log, buffer, length⟩ := exact.writing doing
  have bounded := exact.bounded
  have begunOlder : ∀ handed ∈ older, handed.accepted <+: handed.request := fun handed member =>
    exact.begun handed (log ▸ mem_cons_of_mem _ member)
  simp only [proxyDoWrite, buffer, Option.bind_some, if_neg (Nat.not_lt_of_le bounded)] at done
  generalize result : wrote.ret (request.drop data.writtenLen).length = ret at done
  have size : (request.drop data.writtenLen).length = request.length - data.writtenLen :=
    List.length_drop
  have small : ret ≤ (request.drop data.writtenLen).length := by
    rw [← result]
    cases wrote with
    | took count errno =>
      simp only [Wrote.ret]
      exact Int.ofNat_le.mpr (Nat.min_le_right _ _)
    | refused errno =>
      change (-1 : Int) ≤ _
      omega
  by_cases failed : ret ≤ 0
  · rw [if_pos failed] at done
    by_cases later : wrote.errno = .again
    · rw [if_pos later] at done
      cases done
      exact exact
    · rw [if_neg later] at done
      cases done
      exact exact_disconnect exact.idle
  · rw [if_neg failed] at done
    have accepted : accept data.log ((request.drop data.writtenLen).take ret.toNat) =
        ⟨request, request.take (data.writtenLen + ret.toNat)⟩ :: older := by
      rw [log, accept, accepted_more]
    have begun (handed : Handed)
        (member : handed ∈ accept data.log ((request.drop data.writtenLen).take ret.toNat)) :
        handed.accepted <+: handed.request := by
      rw [accepted] at member
      rcases mem_cons.mp member with rfl | old
      · exact take_prefix _ _
      · exact begunOlder handed old
    by_cases part : ret < (request.drop data.writtenLen).length
    · rw [if_pos part] at done
      cases done
      have still : data.writtenLen + ret.toNat ≤ data.writeBufLen := by omega
      refine ⟨still, begun, fun _ => ⟨request, older, accepted, rfl, length⟩,
        fun _ => proxyDoWrite_isSome rfl still, fun now => ?_⟩
      exact absurd (doing.symm.trans now) (by decide)
    · rw [if_neg part] at done
      cases done
      refine ⟨bounded, begun, (nomatch ·), (nomatch ·), fun _ => ⟨request, older, ?_⟩⟩
      change accept data.log _ = _
      rw [accepted, take_of_length_le (by omega)]

theorem exact_finishReply (exact : Exact data) (reply : Reply) :
    Exact (finishReply data reply) := by
  cases reply with
  | waits => exact exact
  | fails => exact exact_disconnect exact.idle
  | connected => exact exact_destroy exact.idle true
  | authenticates request =>
    rw [finishReply]
    split
    · exact exact_sendRequest exact.idle _ _
    · exact exact

theorem exact_finishOutcome (exact : Exact data) (doing : data.doing = .readCb)
    (outcome : Outcome) : Exact (finishOutcome data outcome) := by
  cases outcome with
  | waits reader =>
    refine ⟨exact.bounded, exact.begun, fun now => ?_, fun now => ?_, exact.replying⟩
    · exact absurd (doing.symm.trans now) (by decide)
    · exact absurd (doing.symm.trans now) (by decide)
  | ends action =>
    cases action with
    | sends request => exact exact_destroy exact.idle true
    | connected => exact exact_destroy exact.idle true
    | fails failure => exact exact_disconnect exact.idle
  | sends request readCb => exact exact_sendRequest exact.idle _ _

theorem exact_start (addresses : Nat) : Exact (.start addresses) :=
  exact_of_idle ⟨Nat.le_refl 0, forall_mem_nil _⟩ (by simp [ConnectData.start])
    (by simp [ConnectData.start])

theorem exact_step {next : ConnectData} {event : Event} (exact : Exact data)
    (fresh : Fresh info data event) (stepped : step info data event = some next) : Exact next := by
  unfold step at stepped
  split at stepped
  · cases stepped
    exact exact_tryConnect exact.idle _
  · rename_i error doing
    cases stepped
    exact exact_canwrite exact.idle fun type none' => fresh type doing (none' ▸ rfl)
  · cases stepped
    split
    · exact exact_of_idle ⟨exact.bounded, exact.begun⟩ (by simp) (by simp)
    · exact exact_destroy exact.idle false
  · cases stepped
    exact exact_hostResolved exact.idle _
  · rename_i wrote doing
    exact exact_proxyDoWrite exact doing stepped
  · split at stepped
    · cases stepped
      exact exact
    · cases stepped
      exact exact_finishReply exact _
  · rename_i received doing
    split at stepped
    · obtain ⟨outcome, _, rfl⟩ := Option.map_eq_some_iff.mp stepped
      exact exact_finishOutcome exact doing outcome
    · cases stepped
      exact exact
  · cases stepped
    exact exact
  · cases stepped
    exact exact_destroy exact.idle false
  · cases stepped
    exact exact

theorem proxy_requests_exact (info : ProxyInfo) (addresses : Nat) (events : List Event)
    (fresh : Admitted (step info) (Fresh info) (.start addresses) events) (done : List Event)
    (reached : done <+: events) (data : ConnectData)
    (ran : run (step info) (.start addresses) done = some data) : Exact data :=
  reached_of_run Exact (fun _ _ _ exact admitted stepped => exact_step exact admitted stepped)
    (exact_start addresses) ( admitted_of_prefix reached fresh) ran

def sampleInfo : ProxyInfo :=
  { type := .socks5
    settings :=
      { host := [104]
        port := 80
        username := none
        password := none
        md5 := fun _ => List.replicate 16 0 }
    remoteDns := false
    hostname := [108]
    base64Encode := id
    ntlmGenType1 := fun _ _ => [] }

theorem proxy_requests_exact_witness :
    Exact { ConnectData.start 1 with
      hosts := 1
      doing := .proxyDoWrite
      writeBuffer := some [5, 1, 0]
      writeBufLen := 3
      writtenLen := 2
      readCb := .s5 .s5Canread
      log := [⟨[5, 1, 0], [5, 1]⟩] } := by
  refine proxy_requests_exact sampleInfo 1
    [.connects .immediately, .canwrite false, .writes (.took 2 .other)] ?_ _
    (prefix_refl _) _ rfl
  refine ⟨fun _ doing _ => (nomatch doing), fun next stepped => ?_⟩
  cases stepped
  refine ⟨fun _ _ _ => rfl, fun next stepped => ?_⟩
  cases stepped
  exact ⟨fun _ doing _ => (nomatch doing), fun _ _ => trivial⟩

/-- The greeting is written in parts and fails; the next address gets its end only. -/
theorem stale_greeting :
    ∃ data, run (step sampleInfo) (.start 1)
      [.connects .immediately, .canwrite false, .writes (.took 1 .other), .writes (.refused .other),
        .connects .immediately, .canwrite false, .writes (.took 2 .other)] = some data ∧
      data.doing = .readCb ∧ ¬Exact data := by
  refine ⟨_, rfl, rfl, fun exact => ?_⟩
  obtain ⟨request, older, log⟩ := exact.replying rfl
  cases log

end Purple.Proxy
