import DCScan.RemoteProgress

/-!
What remote calls come to, over the bytes: the session behaves as if whole messages were handed over, a
call ends with the value that its function returned for its arguments, the requests of generated
functions do not harm the server, and calls that are made in turn are all answered.
-/

namespace DCScan.RemoteCalls

open Lib Message Generator Marshalling
open Framing (ibBuffSize)

variable {τ : Type} [DecidableEq τ] {lay : Layout τ} {headers : List Header} {run : Run headers}
variable {impl : Nat → Text → List (Any lay) → Any lay} {maxSub : UInt8} {s : State lay}

/-! ## A database read -/

/-- The header of `ReadValuef64`. -/
def readHeader : Header :=
  ⟨[⟨"DCS::Database::ReadValuef64".toList, "DCS::f64".toList, ["DCS::Utils::BasicString".toList]⟩], []⟩

def readValuef64 : Declaration :=
  ⟨"DCS::Database::ReadValuef64".toList, "DCS::f64".toList, ["DCS::Utils::BasicString".toList]⟩

theorem mem_readReturnSet (t : Text) : t ∈ ["DCS::f64".toList] ↔
    ∃ d ∈ [readHeader].flatMap Header.declarations, t = d.returnType := by
  simp [readHeader]

theorem mem_readArgSet (t : Text) : t ∈ ["DCS::Utils::BasicString".toList] ↔
    ∃ d ∈ [readHeader].flatMap Header.declarations, t ∈ d.argsName := by
  simp [readHeader]

/-- A run over it. -/
def readRun : Run [readHeader] where
  files := [readHeader]
  walk := .refl _
  returnSet := ["DCS::f64".toList]
  returnSet_nodup := List.nodup_singleton _
  mem_returnSet := mem_readReturnSet
  argSet := ["DCS::Utils::BasicString".toList]
  argSet_nodup := List.nodup_singleton _
  mem_argSet := mem_readArgSet

/-- A `BasicString` has 512 bytes, a number 8. -/
def readLayout : Layout Text where
  type := id
  sizeof t := if t = "DCS::Utils::BasicString".toList then 512 else 8
  sizeof_pos t := by split <;> decide
  init t := List.replicate (if t = "DCS::Utils::BasicString".toList then 512 else 8) 0
  init_length t := List.length_replicate

/-- A name, zero behind its end. -/
def readName : Any readLayout :=
  ⟨"DCS::Utils::BasicString".toList, readLayout.init _, readLayout.init_length _⟩

theorem one_length : [0, 0, 0, 0, 0, 0, 240, (63 : UInt8)].length = readLayout.sizeof "DCS::f64".toList := by
  decide

/-- The database holds 1.0. -/
def readImpl (_ : Nat) (_ : Text) (_ : List (Any readLayout)) : Any readLayout :=
  ⟨"DCS::f64".toList, [0, 0, 0, 0, 0, 0, 240, 63], one_length⟩

theorem readRun_works : Works readLayout readRun where
  macros := ⟨by decide, by decide⟩
  few := by decide
  plain := by decide
  numbered := by decide
  objects t := by
    simp only [readLayout]
    split <;> decide

theorem readImpl_typed : Typed readRun readImpl := by
  intro k d member args
  have only : d = readValuef64 := List.mem_singleton.mp member
  rw [only]
  rfl

def readRequest : Asked readLayout := ⟨0, [readName]⟩

theorem readRequest_asks : Asks readRun readRequest readValuef64 :=
  ⟨rfl, rfl, by decide⟩

theorem readRequest_callable : Callable readRun readRequest :=
  ⟨readValuef64, readRequest_asks, .inr (by decide)⟩

/-- A block for either queue. -/
def zeros : List UInt8 := List.replicate ibBuffSize 0

theorem zeros_length : zeros.length = ibBuffSize := List.length_replicate

def readStart : State readLayout := start readLayout 0 0 0 zeros zeros

def readSystem : System (State readLayout) (Action readLayout) := system readLayout readRun readImpl 0

theorem readStart_reached : readSystem.ReachableBy Regular readStart :=
  .init ⟨0, 0, zeros, zeros, zeros_length, zeros_length, rfl⟩

theorem readStart_rests : Rests 0 readStart := rests_start 0 0 zeros_length zeros_length

/-- Two reads, one after the other. -/
theorem read_twice : ∃ s, readSystem.ReachableBy Regular s ∧
    Replies readRun readImpl 0 [readRequest, readRequest] s.session.returned := by
  obtain ⟨t, rs, steps, _, returned, replies⟩ :=
    calls_complete (i := 0) readRun_works readImpl_typed [readRequest, readRequest]
      (by simp [readRequest_callable]) readStart_rests
  refine ⟨t, readStart_reached.steps steps, ?_⟩
  rw [returned]
  exact replies

/-- The first read has reached the server. -/
theorem read_arrived : ∃ s, readSystem.ReachableBy Regular s ∧ s.session.fault = none ∧
    s.session.toServer ≠ [] ∧ ∃ data, s.up.consumer = .decoding data := by
  obtain ⟨t, steps, session, _, in_hand⟩ :=
    request_arrives readImpl 0 readRun_works readStart_rests readRequest_asks
  refine ⟨t, readStart_reached.steps steps, ?_, ?_, _, in_hand⟩
  · rw [session]
    rfl
  · rw [session]
    exact List.cons_ne_nil _ _

/-! ## The results -/

/-- **The byte path is invisible to the session.** However the two streams are cut and the threads
interleave, the session is in a state that it reaches when whole messages are handed over, and
what is in the hands of a decode loop, in its queue and on the wire are the frames of the messages that
are then under way, in order. -/
theorem session_refined
    (reached : (system lay run impl maxSub).ReachableBy (fun _ a => EventsFit a) s) :
    (Session.system maxSub).Reachable s.session ∧
      s.up.inHand ++ s.up.queue.contents ++ s.up.wire =
        s.session.toServer.flatMap (fun m => frame m.msg) ∧
      s.down.inHand ++ s.down.queue.contents ++ s.down.wire =
        s.session.toClient.flatMap (fun m => frame m.msg) := by
  have linked := reachable_linked (fun _ _ => id) reached
  refine ⟨session_reached (fun _ _ => id) (fun _ _ _ _ _ => trivial) reached, ?_, ?_⟩
  · rw [linked.up.bytes, List.flatMap_map]
  · rw [linked.down.bytes, List.flatMap_map]

/-- A request in the hands of the server's decode loop. -/
theorem session_refined_read : ∃ s : State readLayout, s.session.toServer ≠ [] ∧
    (Session.system 0).Reachable s.session ∧
      s.up.inHand ++ s.up.queue.contents ++ s.up.wire =
        s.session.toServer.flatMap (fun m => frame m.msg) ∧
      s.down.inHand ++ s.down.queue.contents ++ s.down.wire =
        s.session.toClient.flatMap (fun m => frame m.msg) := by
  obtain ⟨s, reached, _, some', _⟩ := read_arrived
  exact ⟨s, some', session_refined (reached.mono fun _ _ _ => eventsFit_of_regular)⟩

/-- The value each call has ended with was produced for its own parameters. -/
theorem ownReplies_of_reached {s : Session.State}
    (reached : (Session.system maxSub).ReachableBy Session.Fresh s) :
    Session.OwnReplies s ∧ (s.executed.map Session.Execution.call).Nodup := by
  have sound (s : Session.State) (met : (Session.system maxSub).ReachableBy Session.Fresh s) :
      Session.Sound s := Session.reachable_sound (fun _ _ => id) met
  refine ⟨reached.invariant_from sound ?_ ?_, (sound _ reached).uniq.executions.once⟩
  · rintro _ ⟨nid, serverNid, rfl⟩
    simp [Session.OwnReplies, Session.start]
  · exact fun _ _ _ sound own _ ran => Session.own_replies_step sound own (Session.effect_of_step ran)

/-- **Remote calls return what the function returned.** As long as no call draws an id that an open
call holds, every call that has ended did so after one `Execute` of its own, which called the
function it named with the arguments it was given; and unless the function is `void`, the bytes that
its RPC function returns are the object that the function returned there. -/
theorem remote_calls (works : Works lay run) (typed : Typed run impl)
    (reached : (system lay run impl maxSub).ReachableBy Regular s) :
    (∀ n r, (n, r) ∈ s.session.returned ∨ (n, r) ∈ s.session.fulfilled →
      ∃ k q d, s.asked n = some q ∧ run.declarations[q.function]? = some d ∧
        (s.session.executed[k]?).map Session.Execution.call = some n ∧
        (d.returnType ≠ [] → rpcReturn lay d r = (impl k d.func q.args).bytes)) ∧
      (s.session.executed.map Session.Execution.call).Nodup := by
  obtain ⟨own, once⟩ := ownReplies_of_reached
    (session_reached (fun _ _ => eventsFit_of_regular) (fun _ _ _ => fresh_of_matches) reached)
  have kept := reachable_kept works (fun _ _ => eventsFit_of_regular) reached
  refine ⟨fun n r ended => ?_, once⟩
  obtain ⟨c, _, member⟩ := own n r ended
  obtain ⟨k, position⟩ := List.mem_iff_getElem?.mp member
  obtain ⟨q, d, stack, asked, asks, ran⟩ := kept.served k _ position
  refine ⟨k, q, d, asked, asks.declared, by rw [position]; rfl, fun valued => ?_⟩
  exact rpcReturn_of_returned ran (typed k d (List.mem_of_getElem? asks.declared) q.args) valued

/-- Both reads return 1.0. -/
theorem remote_calls_read : ∃ s : State readLayout, s.session.returned.length = 2 ∧
    (∀ n r, (n, r) ∈ s.session.returned ∨ (n, r) ∈ s.session.fulfilled →
      ∃ k q d, s.asked n = some q ∧ readRun.declarations[q.function]? = some d ∧
        (s.session.executed[k]?).map Session.Execution.call = some n ∧
        (d.returnType ≠ [] → rpcReturn readLayout d r = (readImpl k d.func q.args).bytes)) ∧
      (s.session.executed.map Session.Execution.call).Nodup := by
  obtain ⟨s, reached, replies⟩ := read_twice
  exact ⟨s, replies.length, remote_calls readRun_works readImpl_typed reached⟩

/-- **Generated requests do not harm the server.** When no return value is larger than `SVReturn::ptr`,
the server's decode loop gets through whatever frame it has in its buffer: nothing is read or written
outside a block, no `at` throws, and every request is answered. -/
theorem server_unharmed (works : Works lay run) (typed : Typed run impl)
    (returns : ∀ d ∈ run.declarations, d.returnType = [] ∨ lay.sizeof (lay.type d.returnType) ≤ 1024)
    (reached : (system lay run impl maxSub).ReachableBy (fun _ a => EventsFit a) s)
    (running : s.session.fault = none) {data : List UInt8} (in_hand : s.up.consumer = .decoding data)
    (heap stack : Uninit) : ∃ t, step lay run impl maxSub s (.serverDecode heap stack) = some t := by
  have kept := reachable_kept works (fun _ _ => id) reached
  obtain ⟨msg, later, up, split, _, decoded⟩ := kept.linked.up.decodes in_hand
  obtain ⟨m, rest, under, tagged, rfl, _⟩ := head_of_decodeNext kept.linked.up (decoded heap)
  have first : m ∈ s.session.toServer := by simp [under]
  have framed := framed_of_requested kept.linked.sized
    (kept.linked.shape.requests m (List.mem_append_left _ first))
  obtain ⟨r, value⟩ := result_of_underWay works typed returns kept.linked kept.wanted first
    s.session.executed.length stack
  have filled : m.msg.payload ≠ [] := List.ne_nil_of_length_pos framed.nonempty
  obtain ⟨session, switched⟩ : ∃ session, Session.serverSwitch maxSub
      { s.session with toServer := s.session.toServer.tail } ⟨tag s.session.toServer, m.msg⟩ r heap =
        some session := serverSwitch_some _ r heap filled
  exact ⟨_, step_serverDecode running (decoded heap) value switched⟩

/-- The request of the first read is executed. -/
theorem server_unharmed_read : ∃ s : State readLayout, s.session.toServer ≠ [] ∧ ∀ heap stack,
    ∃ t, step readLayout readRun readImpl 0 s (.serverDecode heap stack) = some t := by
  obtain ⟨s, reached, running, some', data, in_hand⟩ := read_arrived
  refine ⟨s, some', fun heap stack => ?_⟩
  exact server_unharmed readRun_works readImpl_typed (by decide)
    (reached.mono fun _ _ _ => eventsFit_of_regular) running in_hand heap stack

/-- **Calls in turn are all answered.** Whatever functions a thread calls one after the other, there is
a run over the bytes in which each of its calls ends with the value that the function returned for its
arguments. -/
theorem calls_in_turn (works : Works lay run) (typed : Typed run impl) (maxSub : UInt8)
    (qs : List (Asked lay)) (callable : ∀ q ∈ qs, Callable run q) :
    ∃ s, (system lay run impl maxSub).ReachableBy Regular s ∧ Replies run impl 0 qs s.session.returned := by
  have reached : (system lay run impl maxSub).ReachableBy Regular (start lay maxSub 0 0 zeros zeros) :=
    .init ⟨0, 0, _, _, zeros_length, zeros_length, rfl⟩
  obtain ⟨t, rs, steps, _, returned, replies⟩ :=
    calls_complete (i := 0) works typed qs callable (rests_start 0 0 zeros_length zeros_length)
  refine ⟨t, reached.steps steps, ?_⟩
  rw [returned]
  exact replies

/-- Two reads. -/
theorem calls_in_turn_read : ∃ s, readSystem.ReachableBy Regular s ∧
    Replies readRun readImpl 0 [readRequest, readRequest] s.session.returned :=
  calls_in_turn readRun_works readImpl_typed 0 [readRequest, readRequest]
    (by simp [readRequest_callable])

end DCScan.RemoteCalls
