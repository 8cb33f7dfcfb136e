import DCScan.Handshake
import DCScan.Delivery

/-!
The position in the stream: the client takes 48 bytes as the challenge and the rest as frames, and so
does the server, as long as it sends a challenge at all.

`view` is what the client's threads have before them, including what the server has still to send;
`view_of_effect` is all that a step does to it.
-/

namespace DCScan.Handshake

open Lib Message
open Framing (Framed DecodeInv)
open Disconnect (Sound Alert)

variable {accounts : Accounts} {challenge : Challenge} {username password : List UInt8}
variable {s t : State} {a : Action}

/-- What each action finds, and leaves. -/
inductive Effect (challenge : Challenge) (s : State) : Action → State → Prop
  | idle (stand : s.server = .testing) :
      Effect challenge s (.test none) { s with
        server := .authenticating, challenge := challenge.bytes, sending := [challenge.r, challenge.iv] }
  | busy {ip} (stand : s.server = .testing) :
      Effect challenge s (.test (some ip)) ({ s with server := .decided false }.announce (notUnique ip))
  | send {data rest} (stand : s.sending = data :: rest) :
      Effect challenge s .send { s with
        sending := rest, client := s.client.withStream (s.client.frames.toReceive ++ [data]) }
  | receiveCredentials {n} (stand : s.server = .authenticating) (some : 0 < n) (there : n ≤ s.up.length) :
      Effect challenge s (.receiveCredentials n) { s with
        credentials := s.credentials ++ s.up.take n, up := s.up.drop n }
  | refuse (stand : s.server = .authenticating) (quiet : s.sending = []) (given : s.credentials ≠ []) :
      Effect challenge s .decide ({ s with server := .decided false }.announce refusal)
  | accept (stand : s.server = .authenticating) (quiet : s.sending = []) (given : s.credentials ≠ []) :
      Effect challenge s .decide ({ s with server := .decided true }.announce [validityMessage 1])
  | serve {m} (stand : s.server = .decided true) (quiet : s.sending = []) (response : responds m = true) :
      Effect challenge s (.serve m) (s.announce [m])
  | greet {n} (stand : s.main = .challenged) (asked : n ≤ wanted s.greeting.length)
      (there : n ≤ s.down.length) :
      Effect challenge s (.greet n) { s with
        greeting := s.greeting ++ s.down.take n, client := s.client.withStream [s.down.drop n] }
  | answer {stack chunks} (stand : s.main = .challenged) (whole : s.greeting.length = 48) :
      Effect challenge s (.answer stack) { s with main := .answering chunks }
  | reply {data rest} (stand : s.main = .answering (data :: rest)) :
      Effect challenge s .reply { s with main := .answering rest, up := s.up ++ data }
  | startThread (stand : s.main = .answering []) :
      Effect challenge s .startThread { s with main := .polling }
  | poll (stand : s.main = .polling) (heard : s.connValid ≠ .C_WAIT) :
      Effect challenge s .poll { s with main := .comparing }
  | compare (stand : s.main = .comparing) :
      Effect challenge s .compare { s with
        main := if s.connValid = .C_INVALID then .closing else .returned true }
  | stop {client} (stand : s.main = .closing) (moved : Disconnect.step s.client .stop = some client) :
      Effect challenge s .stop { s with main := .joining, client := client }
  | joined (stand : s.main = .joining) (ended : s.client.receiver = .done) :
      Effect challenge s .joined { s with main := .returned false }
  | receive {n client} (launched : s.main.launched = true) (there : n ≤ s.down.length)
      (moved : Disconnect.step (s.client.withStream [s.down.take n, s.down.drop n]) .receive =
        some client) :
      Effect challenge s (.receive n) { s with client := client }
  | reset (launched : s.main.launched = true) (stand : s.client.receiver = .cleared) :
      Effect challenge s .reset { s with connValid := .C_WAIT, reset := true }
  | client {b client} (launched : s.main.launched = true) (permitted : permits s b = true)
      (moved : Disconnect.step s.client b = some client) :
      Effect challenge s (.client b) { s with
        client := client, connValid := stored s.connValid client b }

/-- The server does not decide before it has read anything. -/
theorem given_of_decided {v : Verdict} (verdict : accounts.Authenticate challenge s.credentials = v)
    (decided : ∀ n, v ≠ .wants n) : s.credentials ≠ [] := by
  rintro none
  rw [none] at verdict
  exact decided 32 verdict.symm

theorem effect_of_step (ran : step accounts challenge username password s a = some t) :
    Effect challenge s a t := by
  cases a with
  | test served =>
    simp only [step] at ran
    split at ran <;> cases ran
    · exact .idle ‹_›
    · exact .busy ‹_›
  | send =>
    simp only [step] at ran
    split at ran <;> cases ran
    exact .send ‹_›
  | receiveCredentials n =>
    simp only [step] at ran
    split at ran
    · rw [Option.ite_none_right_eq_some] at ran
      obtain ⟨⟨some, _, there⟩, ran⟩ := ran
      cases ran
      exact .receiveCredentials ‹_› some there
    · cases ran
  | decide =>
    simp only [step] at ran
    split at ran
    · rename_i stand quiet verdict
      cases ran
      exact .refuse stand quiet (given_of_decided verdict (by simp))
    · rename_i stand quiet verdict
      cases ran
      exact .accept stand quiet (given_of_decided verdict (by simp))
    · cases ran
  | serve m =>
    simp only [step, Option.ite_none_right_eq_some] at ran
    obtain ⟨⟨stand, quiet, response, _⟩, ran⟩ := ran
    cases ran
    exact .serve stand quiet response
  | greet n =>
    simp only [step, Option.ite_none_right_eq_some] at ran
    obtain ⟨⟨stand, _, asked, there⟩, ran⟩ := ran
    cases ran
    exact .greet stand asked there
  | answer stack =>
    simp only [step, Option.ite_none_right_eq_some] at ran
    obtain ⟨⟨stand, whole⟩, ran⟩ := ran
    cases ran
    exact .answer stand whole
  | reply =>
    simp only [step] at ran
    split at ran <;> cases ran
    exact .reply ‹_›
  | startThread =>
    simp only [step] at ran
    split at ran <;> cases ran
    exact .startThread ‹_›
  | poll =>
    simp only [step, Option.ite_none_right_eq_some] at ran
    obtain ⟨⟨stand, heard⟩, ran⟩ := ran
    cases ran
    exact .poll stand heard
  | compare =>
    simp only [step] at ran
    split at ran <;> cases ran
    exact .compare ‹_›
  | stop =>
    simp only [step] at ran
    split at ran
    · obtain ⟨client, moved, rfl⟩ := Option.map_eq_some_iff.mp ran
      exact .stop ‹_› moved
    · cases ran
  | joined =>
    simp only [step, Option.ite_none_right_eq_some] at ran
    obtain ⟨⟨stand, ended⟩, ran⟩ := ran
    cases ran
    exact .joined stand ended
  | receive n =>
    simp only [step, Option.ite_none_right_eq_some] at ran
    obtain ⟨⟨launched, _, _, there⟩, ran⟩ := ran
    obtain ⟨client, moved, rfl⟩ := Option.map_eq_some_iff.mp ran
    exact .receive launched there moved
  | reset =>
    simp only [step, Option.ite_none_right_eq_some] at ran
    obtain ⟨⟨launched, stand, _⟩, ran⟩ := ran
    cases ran
    exact .reset launched stand
  | client b =>
    simp only [step, Option.ite_none_right_eq_some] at ran
    obtain ⟨⟨launched, permitted⟩, ran⟩ := ran
    obtain ⟨client, moved, rfl⟩ := Option.map_eq_some_iff.mp ran
    exact .client launched permitted moved

/-! ## What the client's threads have before them -/

@[simp] theorem sends_flatten (m : DefaultMessage) : (sends m).flatten = frame m := by
  simp [sends, frame, body]

theorem flatten_flatMap_sends (msgs : List DefaultMessage) :
    (msgs.flatMap sends).flatten = msgs.flatMap frame := by
  induction msgs with
  | nil => rfl
  | cons m rest ih => rw [List.flatMap_cons, List.flatten_append, ih, sends_flatten, List.flatMap_cons]

/-- The client's threads, over all that the server has to send. -/
def State.view (s : State) : Disconnect.State := s.client.widen s.sending

/-- The step of the threads that an action is. -/
def Action.ofThreads : Action → Option Disconnect.Action
  | .receive _ => some .receive
  | .stop => some .stop
  | .client b => some b
  | _ => none

/-- What a step does to the client's threads and to what they are sent. -/
inductive Moves (s t : State) (a : Action) : Prop
  | rests (quiet : a.ofThreads = none) (same : t.view = s.view) (sent : t.sent = s.sent)
  | grows {new} (quiet : a.ofThreads = none) (client : t.client = s.client)
      (more : t.view = s.view.widen (new.flatMap sends)) (sent : t.sent = s.sent ++ new)
  | moves {b chunks} (own : a.ofThreads = some b)
      (cut : chunks.flatten = s.view.frames.toReceive.flatten)
      (moved : Disconnect.step (s.view.withStream chunks) b = some t.view) (sent : t.sent = s.sent)

theorem view_of_quiet (quiet : s.sending = []) : s.view = s.client := by
  rw [State.view, quiet, Disconnect.State.widen, Disconnect.extend, List.append_nil]

/-- What has been sent is what was to be sent. -/
theorem view_of_send {data : List UInt8} {rest : List (List UInt8)} (stand : s.sending = data :: rest) :
    (s.client.withStream (s.client.frames.toReceive ++ [data])).widen rest = s.view := by
  simp [State.view, Disconnect.State.widen, Disconnect.extend, Disconnect.State.withStream, stand]

theorem moves_of_announce {session : Server} {msgs : List DefaultMessage} (quiet : s.sending = [])
    (other : a.ofThreads = none) : Moves s ({ s with server := session }.announce msgs) a := by
  refine .grows other rfl ?_ rfl
  rw [view_of_quiet quiet]
  rfl

/-- A `ReceiveData` cuts the stream. -/
theorem cut_flatten (n : Nat) (s : State) :
    ([s.down.take n, s.down.drop n] ++ s.sending).flatten = s.view.frames.toReceive.flatten := by
  rw [List.flatten_append, List.flatten_cons, List.flatten_singleton, List.take_append_drop]
  exact List.flatten_append.symm

/-- And so does one of `Authenticate`, which takes the front away. -/
theorem stream_of_greet (n : Nat) (s : State) :
    s.greeting ++ s.down.take n ++ ([s.down.drop n] ++ s.sending).flatten =
      s.greeting ++ s.view.frames.toReceive.flatten := by
  rw [← cut_flatten n s, List.append_assoc]
  rfl

/-- `Authenticate` does not ask for more than the challenge. -/
theorem within_of_greet {n : Nat} (within : s.greeting.length ≤ 48)
    (asked : n ≤ wanted s.greeting.length) (there : n ≤ s.down.length) :
    (s.greeting ++ s.down.take n).length ≤ 48 := by
  rw [List.length_append, List.length_take, min_eq_left there]
  simp only [wanted] at asked
  split at asked <;> omega

/-- Besides the first step of the server, only `Authenticate`'s `ReceiveData` is none of these. -/
theorem moves_of_effect (eff : Effect challenge s a t) (tested : ∀ served, a ≠ .test served)
    (other : ∀ n, a ≠ .greet n) : Moves s t a := by
  cases eff with
  | idle | busy => exact absurd rfl (tested _)
  | greet => exact absurd rfl (other _)
  | refuse _ quiet | accept _ quiet | serve _ quiet => exact moves_of_announce quiet rfl
  | send stand => exact .rests rfl (view_of_send stand) rfl
  | receiveCredentials | answer | reply | startThread | poll | compare | joined | reset =>
    exact .rests rfl rfl rfl
  | stop _ moved | client _ _ moved => exact .moves rfl rfl (Disconnect.widen_of_step moved) rfl
  | @receive n client _ _ moved =>
    exact .moves rfl (cut_flatten n s) (Disconnect.widen_of_step moved) rfl

/-! ## The invariant -/

/-- The server is idle when it looks, what it serves can be framed, the client's flag is at `C_WAIT`
when it logs in, the connection lasts until `StartThread` has read the verdict, and the notification
at the end of a refused login does not find the decode thread between its check and its sleep. -/
def Steady (s : State) : Action → Prop
  | .test served => served = none
  | .serve m => Framed m
  | .answer _ => s.connValid = .C_WAIT
  | .client .leave => s.main ≠ .polling ∧ (s.main = .comparing → s.server = .decided true)
  | .client .notifyAll => s.server = .decided false → s.client.decoder ≠ .waiting .blocking
  | _ => True

/-- What the server has sent once it has decided. -/
def Said : Bool → List DefaultMessage → Prop
  | false, msgs => msgs = refusal
  | true, msgs => ∃ later, msgs = validityMessage 1 :: later ∧ ∀ m ∈ later, responds m = true ∧ Framed m

/-- The client's threads have not been started. -/
def Fresh (c : Disconnect.State) : Prop :=
  ∃ block chunks, block.length = Framing.ibBuffSize ∧
    c = ⟨.client, ⟨.create block, chunks, [], .waitHeader, []⟩, true, .testing, .receiving⟩

/-- What either party has sent and taken. -/
structure Wire (challenge : Challenge) (s : State) : Prop where
  drawn : s.challenge = if s.server = .testing then [] else challenge.bytes
  silent : (∀ b, s.server ≠ .decided b) → s.sent = []
  said : ∀ b, s.server = .decided b → Said b s.sent
  mute : s.main = .challenged → s.up = [] ∧ s.credentials = [] ∧ ∀ b, s.server ≠ .decided b
  fresh : s.main.launched = false → Fresh s.view ∧
    s.greeting ++ s.view.frames.toReceive.flatten = s.challenge ++ s.sent.flatMap frame
  within : s.greeting.length ≤ 48
  whole : s.main ≠ .challenged → s.greeting.length = 48
  sound : s.main.launched = true → s.greeting = s.challenge ∧ Sound s.sent s.view
  front : s.client.frames.decoded <+: s.sent

theorem challenge_length : challenge.bytes.length = 48 := by
  rw [Challenge.bytes, List.length_append, challenge.r_length, challenge.iv_length]

theorem framed_refusal : ∀ m ∈ refusal, Framed m := by
  simp only [refusal, List.mem_cons, List.not_mem_nil, or_false, forall_eq_or_imp, forall_eq]
  exact ⟨⟨rfl, by decide, by decide⟩, ⟨rfl, by decide, by decide⟩⟩

theorem framed_of_said {b : Bool} {msgs : List DefaultMessage} (said : Said b msgs) :
    ∀ m ∈ msgs, Framed m := by
  cases b with
  | false =>
    rw [show msgs = refusal from said]
    exact framed_refusal
  | true =>
    obtain ⟨later, rfl, responses⟩ := said
    intro m member
    rcases List.mem_cons.mp member with rfl | member
    · exact ⟨rfl, by decide, by decide⟩
    · exact (responses m member).2

/-- All that is sent can be framed. -/
theorem framed_of_sent (silent : (∀ b, s.server ≠ .decided b) → s.sent = [])
    (said : ∀ b, s.server = .decided b → Said b s.sent) : ∀ m ∈ s.sent, Framed m := by
  by_cases decided : ∃ b, s.server = .decided b
  · obtain ⟨b, stand⟩ := decided
    exact framed_of_said (said b stand)
  · rw [silent (not_exists.mp decided)]
    exact nofun

theorem Wire.framed (wire : Wire challenge s) : ∀ m ∈ s.sent, Framed m :=
  framed_of_sent wire.silent wire.said

/-- Before the server has looked, nothing is under way. -/
theorem Wire.untouched (wire : Wire challenge s) (stand : s.server = .testing) :
    s.greeting = [] ∧ s.view.frames.toReceive.flatten = [] ∧ s.main = .challenged := by
  have none : s.challenge = [] := by rw [wire.drawn, if_pos stand]
  have nothing : s.sent = [] := wire.silent (by simp [stand])
  cases launched : s.main.launched with
  | true =>
    have empty := (wire.sound launched).1
    have full := wire.whole (fun challenged => by rw [challenged] at launched; cases launched)
    rw [empty, none] at full
    cases full
  | false =>
    have stream := (wire.fresh launched).2
    rw [none, nothing] at stream
    obtain ⟨empty, rest⟩ := List.append_eq_nil_iff.mp stream
    refine ⟨empty, rest, by_contra fun later => ?_⟩
    have full := wire.whole later
    rw [empty] at full
    cases full

theorem sound_of_moves (framed : ∀ m ∈ t.sent, Framed m) (sound : Sound s.sent s.view)
    (moves : Moves s t a) : Sound t.sent t.view := by
  cases moves with
  | rests _ same sent => rwa [same, sent]
  | grows _ _ more sent =>
    rw [more, sent]
    exact Disconnect.sound_widen sound (flatten_flatMap_sends _)
  | moves _ cut moved sent =>
    rw [sent] at framed ⊢
    exact Disconnect.sound_step framed (Disconnect.sound_withStream sound cut)
      (Disconnect.effect_of_step moved)

theorem front_of_moves (framed : ∀ m ∈ t.sent, Framed m) (sound : Sound s.sent s.view)
    (front : s.view.frames.decoded <+: s.sent) (moves : Moves s t a) :
    t.view.frames.decoded <+: t.sent := by
  cases moves with
  | rests _ same sent => rwa [same, sent]
  | grows _ _ more sent =>
    rw [more, sent]
    exact front.trans (List.prefix_append _ _)
  | moves _ cut moved sent =>
    rw [sent] at framed ⊢
    exact Disconnect.front_step framed (Disconnect.sound_withStream sound cut) front
      (Disconnect.effect_of_step moved)

theorem fresh_widen {c : Disconnect.State} (more : List (List UInt8)) (fresh : Fresh c) :
    Fresh (c.widen more) := by
  obtain ⟨block, chunks, size, rfl⟩ := fresh
  exact ⟨block, chunks ++ more, size, rfl⟩

theorem fresh_withStream {c : Disconnect.State} (chunks : List (List UInt8)) (fresh : Fresh c) :
    Fresh (c.withStream chunks) := by
  obtain ⟨block, _, size, rfl⟩ := fresh
  exact ⟨block, chunks, size, rfl⟩

theorem fresh_of_moves (quiet : a.ofThreads = none) (fresh : Fresh s.view)
    (stream : s.greeting ++ s.view.frames.toReceive.flatten = s.challenge ++ s.sent.flatMap frame)
    (moves : Moves s t a) : Fresh t.view ∧
      s.greeting ++ t.view.frames.toReceive.flatten = s.challenge ++ t.sent.flatMap frame := by
  cases moves with
  | rests _ same sent =>
    rw [same, sent]
    exact ⟨fresh, stream⟩
  | grows _ _ more sent =>
    rw [more, sent, List.flatMap_append, ← List.append_assoc, ← stream, List.append_assoc,
      ← flatten_flatMap_sends, ← List.flatten_append]
    exact ⟨fresh_widen _ fresh, rfl⟩
  | moves own =>
    rw [quiet] at own
    cases own

/-- The client takes up the stream at the first frame. -/
theorem sound_of_fresh {c : Disconnect.State} {msgs : List DefaultMessage} (fresh : Fresh c)
    (stream : c.frames.toReceive.flatten = msgs.flatMap frame) : Sound msgs c := by
  obtain ⟨block, chunks, size, rfl⟩ := fresh
  have inv : DecodeInv msgs ⟨.create block, chunks, [], .waitHeader, []⟩ :=
    Framing.init_inv stream ⟨block, size, rfl⟩
  exact ⟨trivial, fun _ => inv, by simp [Disconnect.Receiver.stage],
    by simp [Disconnect.Receiver.stage]⟩

/-- A step that leaves the challenge and what was read of it. -/
theorem Wire.moved (wire : Wire challenge s) (moves : Moves s t a)
    (started : t.main.launched = s.main.launched) (own : a.ofThreads ≠ none → s.main.launched = true)
    (greeting : t.greeting = s.greeting) (drawn : t.challenge = s.challenge)
    (asked : t.server = .testing ↔ s.server = .testing)
    (silent : (∀ b, t.server ≠ .decided b) → t.sent = [])
    (said : ∀ b, t.server = .decided b → Said b t.sent)
    (mute : t.main = .challenged → t.up = [] ∧ t.credentials = [] ∧ ∀ b, t.server ≠ .decided b)
    (whole : t.main ≠ .challenged → s.greeting.length = 48) : Wire challenge t where
  drawn := by rw [drawn, wire.drawn]; simp only [asked]
  silent := silent
  said := said
  mute := mute
  fresh unlaunched := by
    rw [started] at unlaunched
    have quiet : a.ofThreads = none := by_contra fun mine => by
      rw [own mine] at unlaunched
      cases unlaunched
    rw [greeting, drawn]
    exact fresh_of_moves quiet (wire.fresh unlaunched).1 (wire.fresh unlaunched).2 moves
  within := by rw [greeting]; exact wire.within
  whole := by rw [greeting]; exact whole
  sound launched := by
    rw [started] at launched
    rw [greeting, drawn]
    exact ⟨(wire.sound launched).1,
      sound_of_moves (framed_of_sent silent said) (wire.sound launched).2 moves⟩
  front := by
    cases launched : s.main.launched with
    | true =>
      exact front_of_moves (framed_of_sent silent said) (wire.sound launched).2 wire.front moves
    | false =>
      have quiet : a.ofThreads = none := by_contra fun mine => by
        rw [own mine] at launched
        cases launched
      obtain ⟨block, chunks, _, same⟩ := (fresh_of_moves quiet (wire.fresh launched).1
        (wire.fresh launched).2 moves).1
      have none : t.client.frames.decoded = [] := congrArg (fun c => c.frames.decoded) same
      rw [none]
      exact List.nil_prefix

/-- The server has looked once the client is past the challenge. -/
theorem Wire.asked (wire : Wire challenge s) (later : s.main ≠ .challenged) : s.server ≠ .testing :=
  fun testing => later (wire.untouched testing).2.2

/-- The server decides only on what the client has sent. -/
theorem Wire.answered (wire : Wire challenge s) (given : s.credentials ≠ []) : s.main ≠ .challenged :=
  fun challenged => given (wire.mute challenged).2.1

/-- Until the client is past the challenge, the server has sent nothing else. -/
theorem Wire.greeted (wire : Wire challenge s) : s.greeting <+: s.challenge := by
  cases launched : s.main.launched with
  | true =>
    have whole : s.greeting = s.challenge := (wire.sound launched).1
    exact whole ▸ List.prefix_rfl
  | false =>
    by_cases testing : s.server = .testing
    · rw [(wire.untouched testing).1]
      exact List.nil_prefix
    · have drawn := wire.drawn
      rw [if_neg testing] at drawn
      refine List.prefix_of_prefix_length_le ⟨_, (wire.fresh launched).2⟩ (List.prefix_append _ _) ?_
      rw [drawn, challenge_length]
      exact wire.within

theorem wire_step (wire : Wire challenge s) (met : Steady s a) (eff : Effect challenge s a t) :
    Wire challenge t := by
  have moves := moves_of_effect eff
  cases eff with
  | idle stand =>
    obtain ⟨empty, none, challenged⟩ := wire.untouched stand
    have launched : s.main.launched = false := by rw [challenged]; rfl
    have nothing : s.sent = [] := wire.silent (by simp [stand])
    have before : s.client.frames.toReceive.flatten = [] :=
      (List.append_eq_nil_iff.mp (List.flatten_append.symm.trans none)).1
    refine { wire with
      drawn := rfl, silent := fun _ => nothing, said := nofun, fresh := fun _ => ⟨?_, ?_⟩
      mute := fun _ => ⟨(wire.mute challenged).1, (wire.mute challenged).2.1, nofun⟩
      sound := fun after => by rw [show s.main.launched = true from after] at launched; cases launched }
    · change Fresh (s.view.withStream (s.client.frames.toReceive ++ [challenge.r, challenge.iv]))
      exact fresh_withStream _ (wire.fresh launched).1
    · change s.greeting ++ (s.client.frames.toReceive ++ [challenge.r, challenge.iv]).flatten =
        challenge.bytes ++ s.sent.flatMap frame
      rw [empty, nothing, List.flatten_append, before]
      simp [Challenge.bytes]
  | busy => exact absurd met (by simp [Steady])
  | send =>
    exact wire.moved (moves nofun nofun) rfl (absurd rfl) rfl rfl Iff.rfl wire.silent wire.said
      wire.mute wire.whole
  | receiveCredentials stand some there =>
    have speaks : s.main ≠ .challenged := fun challenged => by
      rw [(wire.mute challenged).1, List.length_nil] at there
      omega
    exact wire.moved (moves nofun nofun) rfl (absurd rfl) rfl rfl Iff.rfl wire.silent
      wire.said (fun challenged => absurd challenged speaks) wire.whole
  | refuse stand _ given =>
    have later := wire.answered given
    have silent := wire.silent (by simp [stand])
    refine wire.moved (moves nofun nofun) rfl (absurd rfl) rfl rfl ?_ ?_ ?_
      (fun challenged => absurd challenged later) (fun _ => wire.whole later)
    · simp [State.announce, stand]
    · exact fun undecided => absurd rfl (undecided false)
    · intro b decided
      cases decided
      exact congrArg (· ++ refusal) silent
  | accept stand _ given =>
    have later := wire.answered given
    have silent := wire.silent (by simp [stand])
    refine wire.moved (moves nofun nofun) rfl (absurd rfl) rfl rfl ?_ ?_ ?_
      (fun challenged => absurd challenged later) (fun _ => wire.whole later)
    · simp [State.announce, stand]
    · exact fun undecided => absurd rfl (undecided true)
    · intro b decided
      cases decided
      exact ⟨[], congrArg (· ++ [validityMessage 1]) silent, nofun⟩
  | @serve m stand _ response =>
    refine wire.moved (moves nofun nofun) rfl (absurd rfl) rfl rfl Iff.rfl
      (fun undecided => absurd stand (undecided true)) ?_ wire.mute wire.whole
    intro b decided
    have said := wire.said b decided
    obtain rfl : b = true := by simpa using (decided.symm.trans stand)
    obtain ⟨later, sent, responses⟩ := said
    refine ⟨later ++ [m], by simp [State.announce, sent], ?_⟩
    simp only [List.mem_append, List.mem_singleton]
    rintro n (before | rfl)
    · exact responses n before
    · exact ⟨response, met⟩
  | @greet n stand asked there =>
    have launched : s.main.launched = false := by rw [stand]; rfl
    obtain ⟨fresh, stream⟩ := wire.fresh launched
    have kept : Fresh (s.view.withStream ([s.down.drop n] ++ s.sending)) := fresh_withStream _ fresh
    refine { wire with
      fresh := fun _ => ⟨kept, ?_⟩
      within := ?_
      whole := fun later => absurd stand later
      sound := fun after => by rw [show s.main.launched = true from after] at launched; cases launched }
    · exact (stream_of_greet n s).trans stream
    · exact within_of_greet wire.within asked there
  | answer stand whole =>
    exact wire.moved (moves nofun nofun) (by rw [stand]; rfl) (absurd rfl) rfl rfl Iff.rfl wire.silent
      wire.said nofun fun _ => whole
  | reply stand =>
    have later : s.main ≠ .challenged := by simp [stand]
    exact wire.moved (moves nofun nofun) (by rw [stand]; rfl) (absurd rfl) rfl rfl Iff.rfl
      wire.silent wire.said nofun fun _ => wire.whole later
  | startThread stand =>
    have later : s.main ≠ .challenged := by simp [stand]
    have whole := wire.whole later
    obtain ⟨fresh, stream⟩ := wire.fresh (by rw [stand]; rfl)
    have drawn : s.challenge.length = 48 := by
      rw [wire.drawn, if_neg (wire.asked later), challenge_length]
    obtain ⟨same, frames⟩ := List.append_inj stream (whole.trans drawn.symm)
    exact { wire with
      mute := nofun, fresh := nofun, whole := fun _ => whole
      sound := fun _ => ⟨same, sound_of_fresh fresh frames⟩ }
  | poll stand | joined stand =>
    have later : s.main ≠ .challenged := by simp [stand]
    exact wire.moved (moves nofun nofun) (by rw [stand]; rfl) (absurd rfl) rfl rfl Iff.rfl
      wire.silent wire.said nofun fun _ => wire.whole later
  | compare stand =>
    have later : s.main ≠ .challenged := by simp [stand]
    refine wire.moved (moves nofun nofun) ?_ (absurd rfl) rfl rfl Iff.rfl wire.silent wire.said ?_
      fun _ => wire.whole later
    · rw [stand]
      dsimp only
      split <;> rfl
    · dsimp only
      split <;> simp
  | stop stand =>
    have later : s.main ≠ .challenged := by simp [stand]
    exact wire.moved (moves nofun nofun) (by rw [stand]; rfl) (fun _ => by rw [stand]; rfl)
      rfl rfl Iff.rfl wire.silent wire.said nofun fun _ => wire.whole later
  | receive launched | reset launched | client launched =>
    exact wire.moved (moves nofun nofun) rfl (fun _ => launched) rfl rfl Iff.rfl
      wire.silent wire.said wire.mute wire.whole

end DCScan.Handshake
