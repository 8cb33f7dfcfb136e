import DCScan.Accept

/-!
Whether each accepted socket belongs to its own worker.

`Apart` is the condition on the steps: the loop's variable still holds the socket of the worker that
reads it, and `StartThread` and `StopThread` find the threads they expect. `Fits` is what any run
keeps of a worker's record, `Owns` what the runs that meet the condition keep.
-/

namespace DCScan.Accept

open Lib
open Server (WorkerPhase)

variable {maxSub : UInt8} {s t : State} {a : Action} {k n : Nat} {c o : Socket} {r u : Record}

/-- Worker `k` has closed its socket, or has returned without doing so. -/
def Past (s : State) (k : Nat) : Prop :=
  concluded (s.server.workers k) = true ∨ s.server.workers k = .abandoned ∨
    (s.server.workers k = .refused ∧ s.rejected k = false)

/-- The calls of `closesocket` on the socket of the `n`-th `accept`. -/
def closedTimes (s : State) (n : Nat) : Nat := (s.closes.map Close.socket).count (.accepted n)

/-- Each worker passes the socket of its own `accept`; each socket is closed by its own worker alone,
never twice, once when the worker is past it, and every worker can come to be. -/
structure Belongs (sys : System State Action) (s : State) : Prop where
  starts : ∀ {k c}, s.starts k = some c → c = own s k
  stops : ∀ {k c}, s.stops k = some c → c = own s k
  closes : ∀ {e}, e ∈ s.closes → e.socket = own s e.worker
  once : ∀ n, closedTimes s n ≤ 1
  closed : ∀ {n}, own s n = .accepted n → Past s n → closedTimes s n = 1
  finishes : ∀ {n}, own s n = .accepted n → ∃ as t, sys.run s as = some t ∧ Past t n

/-- No `accept` has returned between the one that spawned a worker and the worker's read, no call on
a socket fails and no connection ends in `Authenticate`; `StartThread` finds no send thread, and
`StopThread` finds a receive thread. -/
def Apart (s : State) : Action → Prop
  | .read k => s.client = own s k
  | .cut .. | .receiveFails _ | .replyFails _ | .sendFails .. => False
  | .server (.startSend _) => s.server.sendThread = none
  | .server (.stop _) => s.server.receiveThread ≠ none
  | _ => True

instance (s : State) (a : Action) : Decidable (Apart s a) :=
  match a with
  | .read k => inferInstanceAs (Decidable (s.client = own s k))
  | .cut .. | .receiveFails _ | .replyFails _ | .sendFails .. => inferInstanceAs (Decidable False)
  | .server b =>
    match b with
    | .startSend _ => inferInstanceAs (Decidable (s.server.sendThread = none))
    | .stop _ => inferInstanceAs (Decidable (s.server.receiveThread ≠ none))
    | .accept _ | .test .. | .authenticate .. | .activate _ | .startDecode _ | .startReceive _
    | .assignReceive _ | .stopWaited _ | .joinReceive _ | .stopSend _ | .joinSend _ | .clientSend ..
    | .receiverTest _ | .receive _ | .disconnect _ | .receiverClear _ | .receiverNotify _
    | .receiverJoin _ | .decoderTest _ | .fetch _ | .act .. | .restart _ | .emitTest .. | .emitPush ..
    | .senderTest _ | .pop _ | .wake _ | .transmit _ => inferInstanceAs (Decidable True)
  | .loopTest | .accept _ | .spawn | .stopListening | .close _ => inferInstanceAs (Decidable True)

/-! ## What a worker keeps -/

/-- What every run keeps of a worker's record. -/
def Fits (r : Record) : Prop :=
  match r.phase with
  | .absent => r = ⟨.absent, none, none, false, false, []⟩
  | .accepted => r.stop = none ∧ r.rejected = false
  | .refused => ∃ c, r.start = some c ∧ (r.rejected = true → c.valid = true)
  | .waiting => (∃ c, r.start = some c ∧ c.valid = true) ∧ r.stop.isSome ∧ r.rejected = false
  | .authenticating | .authenticated | .activated | .decoding | .launching | .receiving
  | .stopping => (∃ c, r.start = some c ∧ c.valid = true) ∧ r.rejected = false
  | _ => r.rejected = false

theorem Fits.passed (fits : Fits r) (held : holds r.phase = true) :
    (∃ c, r.start = some c ∧ c.valid = true) ∧ r.rejected = false := by
  obtain ⟨phase, start, stop, rejected, cut, closed⟩ := r
  cases phase with
  | waiting => exact ⟨fits.1, fits.2.2⟩
  | authenticating | authenticated | activated | decoding | launching | receiving | stopping =>
    exact fits
  | _ => cases held

theorem Fits.of_holds (held : holds r.phase = true) (early : r.phase ≠ .waiting)
    (passed : ∃ c, r.start = some c ∧ c.valid = true) (goes : r.rejected = false) : Fits r := by
  obtain ⟨phase, start, stop, rejected, cut, closed⟩ := r
  cases phase with
  | authenticating | authenticated | activated | decoding | launching | receiving | stopping =>
    exact ⟨passed, goes⟩
  | waiting => exact absurd rfl early
  | _ => cases held

theorem fits_concluded (ended : concluded r.phase = true) : Fits r ↔ r.rejected = false := by
  obtain ⟨phase, start, stop, rejected, cut, closed⟩ := r
  cases phase with
  | joining | stoppingSend | joiningSend | closed => exact Iff.rfl
  | _ => cases ended

/-- Only a refused worker has its socket still to be closed as such. -/
theorem Fits.refused (fits : Fits r) (rejected : r.rejected = true) : r.phase = .refused := by
  by_contra other
  have goes : r.rejected = false := by
    obtain ⟨phase, start, stop, rejected, cut, closed⟩ := r
    cases phase with
    | absent => exact congrArg Record.rejected fits
    | accepted => exact fits.2
    | waiting => exact fits.2.2
    | refused => exact absurd rfl other
    | authenticating | authenticated | activated | decoding | launching | receiving | stopping =>
      exact fits.2
    | _ => exact fits
  rw [rejected] at goes
  cases goes

theorem fits_turn (fits : Fits r) (turn : Turn s k r a u) : Fits u := by
  cases turn with
  | spawn fresh =>
    simp only [Fits, fresh] at fits
    simp [Fits, fits]
  | readStart stand =>
    simp only [Fits, stand] at fits ⊢
    exact fits
  | readStop stand =>
    simp only [Fits, stand] at fits ⊢
    exact fits
  | close rejected passed =>
    simp [Fits, fits.refused rejected, passed]
  | cut _ _ stand =>
    simp only [Fits, stand] at fits ⊢
    exact fits
  | fails _ _ passed =>
    obtain ⟨phase, start, stop, rejected, cut, closed⟩ := r
    cases phase with
    | absent =>
      rw [congrArg Record.start (show _ = (_ : Record) from fits)] at passed
      cases passed
    | _ => exact fits
  | authenticates passed stand valid => exact ⟨⟨_, passed, valid⟩, rfl⟩
  | refuses passed => exact ⟨_, passed, id⟩
  | authenticated _ stand => exact ⟨(fits.passed (by rw [stand]; rfl)).1, rfl⟩
  | fails_login _ stand =>
    obtain ⟨c, passed, valid⟩ := (fits.passed (by rw [stand]; rfl)).1
    exact ⟨c, passed, fun _ => valid⟩
  | abandon stand => exact (fits.passed (by rw [stand]; rfl)).2
  | skip stand => exact (fits.passed (by rw [stand]; rfl)).2
  | wait passed stand =>
    obtain ⟨started, goes⟩ := fits.passed (by rw [stand]; rfl)
    exact ⟨started, Option.isSome_iff_exists.mpr ⟨_, passed⟩, goes⟩
  | shut _ stand => exact (fits.passed (by rw [stand]; rfl)).2
  | moves within =>
    rcases within with ⟨was, _, holds, early⟩ | ⟨was, concluded⟩
    · exact .of_holds holds early (fits.passed was).1 (fits.passed was).2
    · exact (fits_concluded concluded).mpr ((fits_concluded was).mp fits)

/-- What the runs that meet the condition keep of the record of a worker whose `accept` has returned
`o`. -/
structure Owns (o : Socket) (r : Record) : Prop where
  start : ∀ {c}, r.start = some c → c = o
  stop : ∀ {c}, r.stop = some c → c = o
  whole : r.cut = false
  kept : r.phase ≠ .abandoned
  closed : r.closed =
    if concluded r.phase = true ∨ (r.phase = .refused ∧ r.rejected = false ∧ o.valid = true) then [o]
    else []

theorem of_holds {p : WorkerPhase} (held : holds p = true) :
    concluded p = false ∧ p ≠ .refused ∧ p ≠ .abandoned ∧ p ≠ .absent := by
  cases p <;> simp_all [holds, concluded]

theorem of_concluded {p : WorkerPhase} (ended : concluded p = true) :
    p ≠ .abandoned ∧ p ≠ .absent := by
  cases p <;> simp_all [concluded]

theorem owns_turn (fits : Fits r) (owns : Owns o r) (turn : Turn s k r a u) (met : Apart s a)
    (reads : a = .read k → s.client = o) : Owns o u := by
  obtain ⟨start, stop, whole, kept, closed⟩ := owns
  cases turn with
  | spawn fresh =>
    refine ⟨start, stop, whole, nofun, ?_⟩
    simpa [concluded, fresh] using closed
  | readStart =>
    refine ⟨fun passed => ?_, stop, whole, kept, closed⟩
    cases passed
    exact reads rfl
  | readStop =>
    refine ⟨start, fun passed => ?_, whole, kept, closed⟩
    cases passed
    exact reads rfl
  | close rejected passed =>
    have stand := fits.refused rejected
    obtain rfl := start passed
    simp only [Fits, stand] at fits
    obtain ⟨_, same, valid⟩ := fits
    obtain rfl := Option.some.inj (passed.symm.trans same)
    refine ⟨start, stop, whole, kept, ?_⟩
    rw [closed]
    simp [stand, concluded, rejected, valid rejected]
  | cut => cases met
  | fails _ failing =>
    rcases failing with rfl | rfl | ⟨_, rfl⟩ <;> cases met
  | authenticates _ stand =>
    refine ⟨start, stop, whole, nofun, ?_⟩
    simpa [concluded, stand] using closed
  | refuses passed stand =>
    obtain rfl := start passed
    refine ⟨start, stop, whole, nofun, ?_⟩
    rw [closed]
    simp [concluded, stand]
  | authenticated _ stand =>
    refine ⟨start, stop, whole, nofun, ?_⟩
    simpa [concluded, stand] using closed
  | fails_login _ stand =>
    refine ⟨start, stop, whole, nofun, ?_⟩
    simpa [concluded, stand] using closed
  | abandon _ occupied => exact absurd met occupied
  | skip _ null => exact absurd null met
  | wait _ stand =>
    refine ⟨start, stop, whole, nofun, ?_⟩
    simpa [concluded, stand] using closed
  | shut passed stand =>
    obtain rfl := stop passed
    refine ⟨start, stop, whole, nofun, ?_⟩
    rw [closed]
    simp [concluded, stand]
  | moves within =>
    rcases within with ⟨was, _, held, _⟩ | ⟨was, ended⟩
    · obtain ⟨open_before, not_refused, _⟩ := of_holds was
      obtain ⟨open_after, refuses, stays, _⟩ := of_holds held
      refine ⟨start, stop, whole, stays, ?_⟩
      simpa [open_before, not_refused, open_after, refuses] using closed
    · refine ⟨start, stop, whole, (of_concluded ended).1, ?_⟩
      simpa [was, ended] using closed

/-! ## What the accept loop keeps -/

/-- How the workers that are there stand with what `accept` has returned. -/
structure Rounds (s : State) : Prop where
  later : ∀ {j}, s.returned.length ≤ j → s.server.workers j = .absent
  named : ∀ {j i}, s.returned[j]? = some (Socket.accepted i) → i = j
  spawning : s.loop = .spawning →
    0 < s.returned.length ∧ s.server.workers (s.returned.length - 1) = .absent
  spawned : ∀ {j}, j < s.returned.length → s.server.workers j = .absent →
    s.loop = .spawning ∧ j = s.returned.length - 1

theorem start_rounds (maxSub : UInt8) : Rounds (start maxSub) := by
  constructor <;> simp [start, Server.start]

/-- Only the accept loop brings a worker into being. -/
theorem absent_of_turn (turn : Turn s k r a u) (other : a ≠ .spawn) :
    u.phase = .absent ↔ r.phase = .absent := by
  cases turn with
  | spawn => exact absurd rfl other
  | readStart | readStop | close | cut | fails => exact Iff.rfl
  | moves within =>
    rcases within with ⟨was, _, held, _⟩ | ⟨was, ended⟩
    · exact iff_of_false (of_holds held).2.2.2 (of_holds was).2.2.2
    · exact iff_of_false (of_concluded ended).2 (of_concluded was).2
  | authenticates _ stand | refuses _ stand | authenticated _ stand | fails_login _ stand
  | abandon stand | skip stand | wait _ stand | shut _ stand =>
    simp [stand]

theorem absent_of_effect (eff : Effect s a t) (other : a ≠ .spawn) (j : Nat) :
    t.server.workers j = .absent ↔ s.server.workers j = .absent := by
  rcases turn_of_effect eff with same | ⟨k, turn, others⟩
  · rw [show t.server.workers j = _ from congrArg Record.phase (same j)]
    rfl
  · by_cases here : j = k
    · subst here
      exact absent_of_turn turn other
    · rw [show t.server.workers j = _ from congrArg Record.phase (others j here)]
      rfl

/-- The steps of the workers and their sessions leave the accept loop where it is. -/
theorem loop_of_effect (eff : Effect s a t) (other : a ≠ .loopTest ∧ (∀ ok, a ≠ .accept ok) ∧ a ≠ .spawn) :
    t.loop = s.loop ∧ t.returned = s.returned := by
  cases eff with
  | loopTest => exact absurd rfl other.1
  | accept ok => exact absurd rfl (other.2.1 ok)
  | spawn => exact absurd rfl other.2.2
  | _ => exact ⟨rfl, rfl⟩

theorem rounds_step (rounds : Rounds s) (eff : Effect s a t) : Rounds t := by
  by_cases own : a ≠ .loopTest ∧ (∀ ok, a ≠ .accept ok) ∧ a ≠ .spawn
  · obtain ⟨loop, returned⟩ := loop_of_effect eff own
    have absent := absent_of_effect eff own.2.2
    constructor <;> simp only [loop, returned, absent]
    · exact rounds.later
    · exact rounds.named
    · exact rounds.spawning
    · exact rounds.spawned
  · cases eff with
    | loopTest at_test quiet =>
      refine ⟨rounds.later, rounds.named, fun at_spawn => absurd at_spawn quiet, fun inside gone => ?_⟩
      rw [(rounds.spawned inside gone).1] at at_test
      cases at_test
    | @accept socket ok at_accept made =>
      have all {j : Nat} (inside : j < s.returned.length) : s.server.workers j ≠ .absent := by
        intro gone
        rw [(rounds.spawned inside gone).1] at at_accept
        cases at_accept
      refine ⟨fun outside => ?_, fun {j i} found => ?_, fun _ => ?_, fun inside gone => ⟨rfl, ?_⟩⟩
      · rw [List.length_append, List.length_singleton] at outside
        exact rounds.later (by omega)
      · rcases concat_cases found with ⟨rfl, same⟩ | before
        · rw [made] at same
          split at same <;> cases same
          rfl
        · exact rounds.named before
      · rw [List.length_append, List.length_singleton]
        exact ⟨by omega, rounds.later (by omega)⟩
      · rw [List.length_append, List.length_singleton] at inside ⊢
        by_contra early
        exact all (by omega) gone
    | spawn at_spawn fresh =>
      obtain ⟨some_returned, _⟩ := rounds.spawning at_spawn
      refine ⟨fun {j} outside => ?_, rounds.named, nofun, fun {j} inside gone => ?_⟩
      · dsimp only at outside ⊢
        rw [Function.update_of_ne (by omega), rounds.later outside]
      · rcases update_cases gone with ⟨_, here⟩ | ⟨elsewhere, before⟩
        · cases here
        · exact absurd (rounds.spawned inside before).2 elsewhere
    | fails _ failing => rcases failing with rfl | rfl | ⟨_, rfl⟩ <;> simp at own
    | _ => simp at own

/-- What every run keeps. -/
structure Sound (s : State) : Prop where
  fits : ∀ k, Fits (record s k)
  rounds : Rounds s

theorem sound_step (sound : Sound s) (eff : Effect s a t) : Sound t := by
  refine ⟨fun j => ?_, rounds_step sound.rounds eff⟩
  rcases turn_of_effect eff with same | ⟨k, turn, others⟩
  · rw [same j]
    exact sound.fits j
  · by_cases here : j = k
    · subst here
      exact fits_turn (sound.fits j) turn
    · rw [others j here]
      exact sound.fits j

theorem reachable_sound (reached : (system maxSub).Reachable s) : Sound s := by
  refine reached.invariant ?_ fun s a t sound ran => sound_step sound (effect_of_step ran)
  rintro _ rfl
  exact ⟨fun _ => rfl, start_rounds maxSub⟩

/-! ## In the runs that meet the condition -/

theorem returned_of_effect (eff : Effect s a t) (other : ∀ ok, a ≠ .accept ok) :
    t.returned = s.returned := by
  cases eff with
  | accept ok => exact absurd rfl (other ok)
  | _ => rfl

/-- The socket of a worker that is there does not change. -/
theorem own_append {socket : Socket} (rounds : Rounds s) (here : s.server.workers k ≠ .absent) :
    (s.returned ++ [socket]).getD k .invalid = own s k := by
  have inside : k < s.returned.length := by
    by_contra outside
    exact here (rounds.later (Nat.le_of_not_lt outside))
  simp only [own, List.getD_eq_getElem?_getD, List.getElem?_append_left inside]

theorem owns_absent (o : Socket) : Owns o ⟨.absent, none, none, false, false, []⟩ :=
  ⟨nofun, nofun, rfl, nofun, rfl⟩

theorem owns_step (sound : Sound s) (owns : ∀ j, Owns (own s j) (record s j)) (met : Apart s a)
    (eff : Effect s a t) (j : Nat) : Owns (own t j) (record t j) := by
  by_cases other : ∀ ok, a ≠ .accept ok
  · rw [own, returned_of_effect eff other, ← own]
    rcases turn_of_effect eff with same | ⟨k, turn, others⟩
    · rw [same j]
      exact owns j
    · by_cases here : j = k
      · subst here
        exact owns_turn (sound.fits j) (owns j) turn met fun reads => by rwa [reads] at met
      · rw [others j here]
        exact owns j
  · cases eff with
    | accept =>
      show Owns ((s.returned ++ _).getD j .invalid) (record s j)
      by_cases gone : s.server.workers j = .absent
      · have fits := sound.fits j
        simp only [Fits, show (record s j).phase = .absent from gone] at fits
        rw [fits]
        exact owns_absent _
      · rw [own_append sound.rounds gone]
        exact owns j
    | fails _ failing => rcases failing with rfl | rfl | ⟨_, rfl⟩ <;> cases met
    | _ => simp at other

theorem reachable_owns (reached : (system maxSub).ReachableBy Apart s) (j : Nat) :
    Owns (own s j) (record s j) := by
  refine reached.invariant_from (fun _ before => reachable_sound before.reachable)
    (?_ : ∀ s, (system maxSub).init s → ∀ j, Owns (own s j) (record s j))
    (fun s a t sound owns met ran => owns_step sound owns met (effect_of_step ran)) j
  rintro _ rfl _
  exact owns_absent _

/-! ## What the ledger says -/

theorem worker_of_own (rounds : Rounds s) {j : Nat} (named : own s j = .accepted n) : j = n := by
  rw [own, List.getD_eq_getElem?_getD] at named
  cases found : s.returned[j]? with
  | none => simp [found] at named
  | some socket =>
    simp only [found, Option.getD_some] at named
    subst named
    exact (rounds.named found).symm

/-- A call of `closesocket` is on the socket of the worker that made it. -/
theorem socket_of_close (owns : ∀ j, Owns (own s j) (record s j)) {e : Close} (made : e ∈ s.closes) :
    e.socket = own s e.worker := by
  have booked : e.socket ∈ (record s e.worker).closed :=
    List.mem_map_of_mem (List.mem_filter.mpr ⟨made, by simp⟩)
  rw [(owns e.worker).closed] at booked
  split at booked
  · exact List.mem_singleton.mp booked
  · cases booked

theorem count_closes {closes : List Close} (mine : ∀ e ∈ closes, e.socket = .accepted n ↔ e.worker = n) :
    (closes.map Close.socket).count (.accepted n) = (closedBy n closes).length := by
  rw [closedBy, List.length_map, List.count, List.countP_map, ← List.countP_eq_length_filter]
  refine List.countP_congr fun e member => ?_
  simp [mine e member]

theorem closedTimes_eq (rounds : Rounds s) (owns : ∀ j, Owns (own s j) (record s j))
    (mine : own s n = .accepted n) : closedTimes s n = (record s n).closed.length := by
  refine count_closes fun e made => ?_
  rw [socket_of_close owns made]
  refine ⟨worker_of_own rounds, ?_⟩
  rintro rfl
  exact mine

theorem closedTimes_le (rounds : Rounds s) (owns : ∀ j, Owns (own s j) (record s j)) (n : Nat) :
    closedTimes s n ≤ 1 := by
  by_cases mine : own s n = .accepted n
  · rw [closedTimes_eq rounds owns mine, (owns n).closed]
    split <;> simp
  · refine (Nat.le_of_eq (List.count_eq_zero.mpr fun closed => mine ?_)).trans zero_le_one
    obtain ⟨e, made, socket⟩ := List.mem_map.mp closed
    rw [socket_of_close owns made] at socket
    obtain rfl := worker_of_own rounds socket
    exact socket

theorem closed_of_past (rounds : Rounds s) (owns : ∀ j, Owns (own s j) (record s j))
    (mine : own s n = .accepted n) (past : Past s n) : closedTimes s n = 1 := by
  rw [closedTimes_eq rounds owns mine, (owns n).closed, if_pos, List.length_singleton]
  rcases past with ended | abandoned | ⟨refused, gone⟩
  · exact Or.inl ended
  · exact absurd abandoned (owns n).kept
  · exact Or.inr ⟨refused, gone, by rw [mine]; rfl⟩

/-! ## Every worker can come to be past its socket -/

/-- The session of connection `j` runs, and its receive thread will clear `server_running`. -/
def Drives (server : Server.State) (j : Nat) : Prop :=
  server.workers j = .activated ∨ server.workers j = .decoding ∨ server.receivers j = .testing ∨
    server.receivers j = .reading ∨ server.receivers j = .left

/-- `server_running` is set only while a session will clear it. -/
def Led (server : Server.State) : Prop := server.running = true → ∃ j, Drives server j

theorem Drives.keep {server server' : Server.State} {p : WorkerPhase} {j : Nat}
    (drives : Drives server j) (workers : server'.workers = Function.update server.workers k p)
    (elsewhere : server.workers k ≠ .activated ∧ server.workers k ≠ .decoding)
    (receivers : server'.receivers = server.receivers) : Drives server' j := by
  have apart (stand : server.workers j = .activated ∨ server.workers j = .decoding) :
      server'.workers j = server.workers j := by
    rw [workers, Function.update_of_ne]
    rintro rfl
    exact stand.elim elsewhere.1 elsewhere.2
  rcases drives with stand | stand | reads
  · exact Or.inl ((apart (Or.inl stand)).trans stand)
  · exact Or.inr (Or.inl ((apart (Or.inr stand)).trans stand))
  · exact Or.inr (Or.inr (by rwa [receivers]))

theorem led_of_workerStep {server server' : Server.State} {b : Server.Action} (led : Led server)
    (ran : Server.workerStep server b = some server') : Led server' := by
  have moved {k : Nat} {p : WorkerPhase} (running : server'.running = server.running)
      (workers : server'.workers = Function.update server.workers k p)
      (elsewhere : server.workers k ≠ .activated ∧ server.workers k ≠ .decoding)
      (receivers : server'.receivers = server.receivers) : Led server' := by
    intro runs
    rw [running] at runs
    obtain ⟨j, drives⟩ := led runs
    exact ⟨j, drives.keep workers elsewhere receivers⟩
  cases Server.worker_turn ran with
  | @activate k => exact fun _ => ⟨k, Or.inl (Function.update_self ..)⟩
  | @startDecode k => exact fun _ => ⟨k, Or.inr (Or.inl (Function.update_self ..))⟩
  | @startReceive k => exact fun _ => ⟨k, Or.inr (Or.inr (Or.inl (Function.update_self ..)))⟩
  | accept stand | test stand | authenticate stand | assignReceive stand | startSend stand
  | abandon stand | stop stand | stopWaited stand | joinReceive stand | stopSend stand
  | close stand | joinSend stand => exact moved rfl rfl (by simp [stand]) rfl

theorem led_of_receiverStep {server server' : Server.State} {b : Server.Action} (led : Led server)
    (ran : Server.receiverStep server b = some server') : Led server' := by
  -- behind `server_running.store(false)` the receive thread leads nobody out
  have behind {k : Nat} {p : Server.ReceiverPhase} {flag : Bool}
      (stand : server.receivers k ≠ .testing ∧ server.receivers k ≠ .reading ∧
        server.receivers k ≠ .left) :
      Led { server with receivers := Function.update server.receivers k p, ntfUnblock := flag } := by
    intro runs
    obtain ⟨j, drives⟩ := led runs
    refine ⟨j, drives.imp id (Or.imp id fun reads => ?_)⟩
    have other : j ≠ k := by
      rintro rfl
      exact reads.elim stand.1 (Or.elim · stand.2.1 stand.2.2)
    simpa [other] using reads
  cases Server.receiver_turn ran with
  | @receiverTest k =>
    exact fun runs =>
      ⟨k, Or.inr (Or.inr (Or.inr (Or.inl (by simp [show server.running = _ from runs]))))⟩
  | @receive k => exact fun _ => ⟨k, Or.inr (Or.inr (Or.inl (Function.update_self ..)))⟩
  | @disconnect k => exact fun _ => ⟨k, Or.inr (Or.inr (Or.inr (Or.inr (Function.update_self ..))))⟩
  | receiverClear => rintro ⟨⟩
  | receiverNotify stand | receiverJoin stand => exact behind (by simp [stand])

theorem led_step {server server' : Server.State} {b : Server.Action} (led : Led server)
    (ran : Server.step maxSub server b = some server') : Led server' := by
  rcases Server.thread_of_step ran with ran | ran | ran | ran | ran | ran
  · exact led_of_workerStep led ran
  · exact led_of_receiverStep led ran
  · rw [Server.decoderStep_frame ran]
    exact led
  · rw [Server.senderStep_frame ran]
    exact led
  · rw [Server.emitStep_frame ran]
    exact led
  · rw [Server.clientStep_frame ran]
    exact led

/-- A step leaves the server's threads alone, or is a step of theirs. -/
theorem server_of_step (ran : step maxSub s a = some t) :
    t.server = s.server ∨ ∃ b, Server.step maxSub s.server b = some t.server := by
  have under {b : Server.Action} {f : Server.State → State} (keeps : ∀ server, (f server).server = server)
      (made : (Server.step maxSub s.server b).map f = some t) :
      t.server = s.server ∨ ∃ b, Server.step maxSub s.server b = some t.server := by
    obtain ⟨server, moved, rfl⟩ := Option.map_eq_some_iff.mp made
    exact Or.inr ⟨b, by rw [moved, keeps]⟩
  cases a <;> simp only [step, Option.ite_none_right_eq_some, Option.some.injEq] at ran
  case loopTest | accept =>
    obtain ⟨_, rfl⟩ := ran
    exact Or.inl rfl
  case spawn => exact under (fun _ => rfl) ran.2
  case stopListening =>
    cases ran
    exact Or.inl rfl
  case read =>
    split at ran
    · cases ran
      exact Or.inl rfl
    · obtain ⟨_, made⟩ := Option.ite_none_right_eq_some.mp ran
      cases made
      exact Or.inl rfl
  case close =>
    split at ran
    · cases ran
      exact Or.inl rfl
    · cases ran
  case cut | replyFails =>
    split at ran
    · obtain ⟨_, made⟩ := Option.ite_none_right_eq_some.mp ran
      cases made
      exact Or.inl rfl
    · cases ran
  case receiveFails | sendFails =>
    split at ran
    · exact under (fun _ => rfl) ran
    · cases ran
  case server b =>
    unfold serverStep at ran
    split at ran
    · cases ran
    · split at ran
      · exact under (fun _ => rfl) (Option.ite_none_right_eq_some.mp ran).2
      · cases ran
    · exact under (fun _ => rfl) (Option.ite_none_left_eq_some.mp ran).2
    · exact under (fun _ => rfl) (Option.ite_none_right_eq_some.mp ran).2
    · split at ran
      · exact under (fun _ => rfl) ran
      · cases ran
    · exact under (fun _ => rfl) ran

theorem reachable_led (reached : (system maxSub).Reachable s) : Led s.server := by
  refine reached.invariant (?_ : ∀ s, (system maxSub).init s → Led s.server) fun s a t led ran => ?_
  · rintro _ rfl
    exact nofun
  · rcases server_of_step ran with same | ⟨b, moved⟩
    · rwa [same]
    · exact led_step led moved

/-- How far the session of connection `j` is from clearing `server_running`. -/
def clearsIn (j : Nat) (s : State) : Nat :=
  if s.server.workers j = .activated then 5
  else if s.server.workers j = .decoding then 4
  else match s.server.receivers j with
    | .testing => 3
    | .reading => 2
    | .left => 1
    | _ => 0

/-- While a worker waits for `server_running` to be cleared, it can be. -/
theorem stops_running (reached : (system maxSub).Reachable s) (waits : s.server.workers n = .waiting) :
    ∃ as t, (system maxSub).run s as = some t ∧ t.server.workers n = .waiting ∧
      t.server.running = false := by
  by_cases runs : s.server.running = true
  · obtain ⟨j, drives⟩ := reachable_led reached runs
    let kept (s : State) := s.server.workers n = .waiting ∧ (s.server.running = true → Drives s.server j)
    have held : kept s := ⟨waits, fun _ => drives⟩
    have ended : ∃ as t, (system maxSub).run s as = some t ∧ kept t ∧ t.server.running = false := by
      refine reached.attains (clearsIn j) held fun s _ held short => ?_
      obtain ⟨waits, drives⟩ := held
      have runs : s.server.running = true := by simpa using short
      have other {p : WorkerPhase} (stand : s.server.workers j = p) (early : p ≠ .waiting) : n ≠ j := by
        rintro rfl
        exact early (stand.symm.trans waits)
      by_cases activated : s.server.workers j = .activated
      · refine ⟨.server (.startDecode j), _, by
          simp only [system, step, serverStep, Server.step, Server.workerStep, activated, if_true,
            Option.map_some]; rfl, ⟨?_, fun _ => ?_⟩, ?_⟩
        · simp [other activated, waits]
        · simp [Drives]
        · simp [clearsIn, activated]
      by_cases decoding : s.server.workers j = .decoding
      · refine ⟨.server (.startReceive j), _, by
          simp only [system, step, serverStep, Server.step, Server.workerStep, decoding, if_true,
            Option.map_some]; rfl, ⟨?_, fun _ => ?_⟩, ?_⟩
        · simp [other decoding, waits]
        · simp [Drives]
        · simp [clearsIn, decoding]
      rcases (drives runs).resolve_left activated |>.resolve_left decoding with stand | stand | stand
      · refine ⟨.server (.receiverTest j), { s with server := { s.server with
            receivers := Function.update s.server.receivers j .reading } }, by
          simp [system, step, serverStep, Server.step, Server.receiverStep, stand, runs],
          ⟨waits, fun _ => by simp [Drives]⟩, ?_⟩
        simp [clearsIn, activated, decoding, stand]
      · refine ⟨.server (.disconnect j), _, by
          simp only [system, step, serverStep, Server.step, Server.receiverStep, stand, if_true,
            Option.map_some]; rfl, ⟨?_, fun _ => ?_⟩, ?_⟩
        · exact waits
        · simp [Drives]
        · simp [clearsIn, activated, decoding, stand]
      · refine ⟨.server (.receiverClear j), _, by
          simp only [system, step, serverStep, Server.step, Server.receiverStep, stand, if_true,
            Option.map_some]; rfl, ⟨?_, ?_⟩, ?_⟩
        · exact waits
        · rintro ⟨⟩
        · simp [clearsIn, activated, decoding, stand]
    obtain ⟨as, t, ran, still, cleared⟩ := ended
    exact ⟨as, t, ran, still.1, cleared⟩
  · exact ⟨[], s, rfl, waits, by simpa using runs⟩

/-- How far a worker is from being past its socket, or from waiting for `server_running`. -/
def farFromEnd (n : Nat) (s : State) : Nat :=
  match s.server.workers n with
  | .absent => 14
  | .accepted => if s.starts n = none then 13 else 12
  | .authenticating => 11
  | .authenticated => 10
  | .activated => 9
  | .decoding => 8
  | .launching => 7
  | .receiving => 6
  | .stopping => if s.stops n = none then 5 else 4
  | .refused => if s.rejected n then 3 else 0
  | _ => 0

/-- A worker whose connection has not ended in `Authenticate` has a step to take. -/
theorem worker_advances (sound : Sound s) (inside : n < s.returned.length) (whole : s.cut n = false)
    (short : ¬(Past s n ∨ s.server.workers n = .waiting)) :
    ∃ a t, (system maxSub).step s a = some t ∧ (n < t.returned.length ∧ t.cut n = false) ∧
      farFromEnd n t < farFromEnd n s := by
  have fits := sound.fits n
  cases stand : s.server.workers n with
  | absent =>
    obtain ⟨at_spawn, last⟩ := sound.rounds.spawned inside stand
    refine ⟨.spawn, _, by
      simp only [system, step, at_spawn, ← last, Server.step, Server.workerStep, stand, if_true,
        Option.map_some]; rfl, ?_, ?_⟩
    · exact ⟨inside, whole⟩
    simp only [farFromEnd, stand, Function.update_self]
    split <;> decide
  | accepted =>
    cases read : s.starts n with
    | none =>
      refine ⟨.read n, _, by simp only [system, step, stand, read, and_self, if_true]; rfl,
        ?_, ?_⟩
      · exact ⟨inside, whole⟩
      simp [farFromEnd, stand, read]
    | some c =>
      refine ⟨.server (.test n c.valid), _, by
        simp only [system, step, serverStep, read, Server.step, Server.workerStep, stand, if_true,
          Option.map_some]; rfl, ?_, ?_⟩
      · exact ⟨inside, whole⟩
      by_cases goes : c.valid = true ∧ s.server.receiveThread = none
      · simp [farFromEnd, stand, read, goes]
      · simp only [farFromEnd, stand, read, Function.update_self, if_neg goes, reduceCtorEq, if_false]
        split <;> decide
  | authenticating =>
    refine ⟨.server (.authenticate n false), _, by
      simp only [system, step, serverStep, whole, Server.step, Server.workerStep, stand, if_true,
        Option.map_some]; rfl, ?_, ?_⟩
    · exact ⟨inside, whole⟩
    simp [farFromEnd, stand]
  | authenticated =>
    refine ⟨.server (.activate n), _, by
      simp only [system, step, serverStep, Server.step, Server.workerStep, stand, if_true,
        Option.map_some]; rfl, ?_, ?_⟩
    · exact ⟨inside, whole⟩
    simp [farFromEnd, stand]
  | activated =>
    refine ⟨.server (.startDecode n), _, by
      simp only [system, step, serverStep, Server.step, Server.workerStep, stand, if_true,
        Option.map_some]; rfl, ?_, ?_⟩
    · exact ⟨inside, whole⟩
    simp [farFromEnd, stand]
  | decoding =>
    refine ⟨.server (.startReceive n), _, by
      simp only [system, step, serverStep, Server.step, Server.workerStep, stand, if_true,
        Option.map_some]; rfl, ?_, ?_⟩
    · exact ⟨inside, whole⟩
    simp [farFromEnd, stand]
  | launching =>
    refine ⟨.server (.assignReceive n), _, by
      simp only [system, step, serverStep, Server.step, Server.workerStep, stand, if_true,
        Option.map_some]; rfl, ?_, ?_⟩
    · exact ⟨inside, whole⟩
    simp [farFromEnd, stand]
  | receiving =>
    cases send : s.server.sendThread with
    | none =>
      refine ⟨.server (.startSend n), _, by
        simp only [system, step, serverStep, Server.step, Server.workerStep, stand, send, if_true,
          Option.map_some]; rfl, ?_, ?_⟩
      · exact ⟨inside, whole⟩
      simp only [farFromEnd, stand, Function.update_self]
      split <;> decide
    | some j =>
      refine ⟨.server (.startSend n), _, by
        simp only [system, step, serverStep, Server.step, Server.workerStep, stand, send, if_true,
          reduceCtorEq, if_false, Option.map_some]; rfl, ?_, ?_⟩
      · exact ⟨inside, whole⟩
      simp [farFromEnd, stand]
  | stopping =>
    cases read : s.stops n with
    | none =>
      refine ⟨.read n, _, by
        simp only [system, step, stand, read, reduceCtorEq, false_and, if_false, and_self, if_true]
        rfl, ?_, ?_⟩
      · exact ⟨inside, whole⟩
      simp [farFromEnd, stand, read]
    | some c =>
      refine ⟨.server (.stop n), _, by
        simp only [system, step, serverStep, read, Option.isSome_some, Server.step, Server.workerStep,
          stand, if_true, Option.map_some]; rfl, ?_, ?_⟩
      · exact ⟨inside, whole⟩
      by_cases runs : s.server.receiveThread.isSome = true <;> simp [farFromEnd, stand, read, runs]
  | refused =>
    have refused : s.rejected n = true := by
      by_contra gone
      exact short (Or.inl (Or.inr (Or.inr ⟨stand, by simpa using gone⟩)))
    simp only [Fits, show (record s n).phase = .refused from stand] at fits
    obtain ⟨c, passed, _⟩ := fits
    have started : s.starts n = some c := passed
    refine ⟨.close n, _, by simp only [system, step, refused, started]; rfl, ?_, ?_⟩
    · exact ⟨inside, whole⟩
    simp [farFromEnd, stand, refused]
  | waiting => exact absurd (Or.inr stand) short
  | _ => exact absurd (Or.inl (by simp [Past, stand, concluded])) short

theorem past_attained (reached : (system maxSub).Reachable s) (inside : n < s.returned.length)
    (whole : s.cut n = false) : ∃ as t, (system maxSub).run s as = some t ∧ Past t n := by
  let kept (s : State) := n < s.returned.length ∧ s.cut n = false
  have held : kept s := ⟨inside, whole⟩
  have near : ∃ as t, (system maxSub).run s as = some t ∧ kept t ∧
      (Past t n ∨ t.server.workers n = .waiting) :=
    reached.attains (farFromEnd n) held fun s reached held short =>
      worker_advances (reachable_sound reached) held.1 held.2 short
  obtain ⟨as, t, ran, _, past | waits⟩ := near
  · exact ⟨as, t, ran, past⟩
  · have there := reached.replay ran
    obtain ⟨bs, u, drained, waits, cleared⟩ := stops_running there waits
    have fits := (reachable_sound (there.replay drained)).fits n
    simp only [Fits, show (record u n).phase = .waiting from waits] at fits
    obtain ⟨c, passed⟩ := Option.isSome_iff_exists.mp fits.2.1
    have read : u.stops n = some c := passed
    obtain ⟨v, shut, past⟩ : ∃ v, (system maxSub).step u (.server (.stopWaited n)) = some v ∧
        Past v n := by
      refine ⟨_, by simp only [system, step, serverStep, read, Server.step, Server.workerStep, waits,
        cleared, and_self, if_true, Option.map_some]; rfl, ?_⟩
      exact Or.inl (by simp [concluded])
    exact ⟨as ++ (bs ++ [.server (.stopWaited n)]), v, by
      rw [System.run_append, ran, Option.bind_some, System.run_append, drained, Option.bind_some,
        System.run_cons, shut, Option.bind_some]; rfl, past⟩

/-! ## The steps that do not meet the condition -/

def Action.fails : Action → Bool
  | .receiveFails _ | .replyFails _ | .sendFails .. => true
  | _ => false

/-- A worker whose connection has ended in `Authenticate` stays there. -/
theorem stays_of_turn (turn : Turn s k r a u) (stand : r.phase = .authenticating)
    (ended : r.cut = true) : u.phase = .authenticating ∧ u.cut = true := by
  cases turn with
  | readStart | readStop | close | fails => exact ⟨stand, ended⟩
  | cut => exact ⟨stand, rfl⟩
  | authenticated whole | fails_login whole =>
    rw [ended] at whole
    cases whole
  | moves within =>
    rcases within with ⟨_, early, _⟩ | ⟨was, _⟩
    · exact absurd stand early
    · rw [stand] at was
      cases was
  | spawn other | authenticates _ other | refuses _ other | abandon other | skip other | wait _ other
  | shut _ other =>
    rw [stand] at other
    cases other

theorem stays_of_cut {as : List Action} (stand : s.server.workers n = .authenticating)
    (ended : s.cut n = true) (ran : (system maxSub).run s as = some t) :
    t.server.workers n = .authenticating := by
  refine (System.run_keeps (fun s => s.server.workers n = .authenticating ∧ s.cut n = true) ?_
    ⟨stand, ended⟩ ran).1
  rintro s a t ⟨stand, ended⟩ ran
  rcases turn_of_effect (effect_of_step ran) with same | ⟨k, turn, others⟩
  · rw [show t.server.workers n = _ from congrArg Record.phase (same n),
      show t.cut n = _ from congrArg Record.cut (same n)]
    exact ⟨stand, ended⟩
  · by_cases here : n = k
    · subst here
      exact stays_of_turn turn stand ended
    · rw [show t.server.workers n = _ from congrArg Record.phase (others n here),
        show t.cut n = _ from congrArg Record.cut (others n here)]
      exact ⟨stand, ended⟩

/-- The socket of a worker behind its test is the one its `accept` has returned. -/
theorem own_of_holds (sound : Sound s) (owns : ∀ j, Owns (own s j) (record s j))
    (held : holds (s.server.workers k) = true) : own s k = .accepted k := by
  obtain ⟨⟨c, passed, valid⟩, _⟩ := (sound.fits k).passed held
  obtain rfl := (owns k).start passed
  cases mine : own s k with
  | invalid =>
    rw [mine] at valid
    cases valid
  | accepted n => rw [worker_of_own sound.rounds mine]

/-- A worker that gets past its socket without closing it does not own it. -/
theorem leaked (sound : Sound s) (owns : ∀ j, Owns (own s j) (record s j))
    (held : holds (s.server.workers k) = true) (returned : t.returned = s.returned)
    (closes : t.closes = s.closes) (past : Past t k) : ¬Belongs (system maxSub) t := by
  intro belongs
  have mine := own_of_holds sound owns held
  have once : closedTimes t k = 1 := belongs.closed (by rw [own, returned]; exact mine) past
  rw [closedTimes, closes, ← closedTimes, closedTimes_eq sound.rounds owns mine, (owns k).closed]
    at once
  obtain ⟨inside, not_refused, _⟩ := of_holds held
  rw [if_neg, List.length_nil] at once
  · cases once
  · rintro (ended | ⟨refused, _⟩)
    · have same : concluded (s.server.workers k) = true := ended
      rw [inside] at same
      cases same
    · exact not_refused refused

/-- A step on which no call on a socket fails and that does not meet the condition. -/
theorem not_belongs_of_step (sound : Sound s) (owns : ∀ j, Owns (own s j) (record s j))
    (eff : Effect s a t) (works : a.fails = false) (mixed : ¬Apart s a) :
    ¬Belongs (system maxSub) t := by
  cases eff with
  | readStart => exact fun belongs => mixed (belongs.starts (Function.update_self ..))
  | readStop => exact fun belongs => mixed (belongs.stops (Function.update_self ..))
  | @cut k _ _ _ stand =>
    intro belongs
    have mine := own_of_holds sound owns (k := k) (by rw [stand]; rfl)
    obtain ⟨as, u, ran, past⟩ := belongs.finishes mine
    have still : u.server.workers k = .authenticating := by
      refine stays_of_cut ?_ ?_ ran
      · exact stand
      · exact Function.update_self ..
    simp [Past, still, concluded] at past
  | abandon stand _ workers =>
    exact leaked sound owns (by rw [stand]; rfl) rfl rfl
      (Or.inr (Or.inl (by simp [workers])))
  | skip stand _ workers =>
    exact leaked sound owns (by rw [stand]; rfl) rfl rfl (Or.inl (by simp [workers, concluded]))
  | fails _ failing => rcases failing with rfl | rfl | ⟨_, rfl⟩ <;> cases works
  | wait _ _ runs => exact absurd runs mixed
  | @moves _ b _ _ _ _ clean elsewhere =>
    cases b with
    | startSend j => exact absurd (clean j rfl) mixed
    | stop j => exact absurd rfl (elsewhere j)
    | _ => exact absurd trivial mixed
  | @beside b _ _ clean =>
    cases b with
    | startSend j => exact absurd rfl (clean j).1
    | stop j => exact absurd rfl (clean j).2
    | _ => exact absurd trivial mixed
  | _ => exact absurd trivial mixed

/-- **Each accepted socket belongs to its own worker** in the runs that meet the condition; from
such a state, a step on which no call on a socket fails keeps this if and only if it meets it. -/
theorem socket_belongs (reached : (system maxSub).ReachableBy Apart s) :
    Belongs (system maxSub) s ∧ ∀ a t, (system maxSub).step s a = some t → a.fails = false →
      (Belongs (system maxSub) t ↔ Apart s a) := by
  have belongs {s : State} (reached : (system maxSub).ReachableBy Apart s) :
      Belongs (system maxSub) s := by
    have sound := reachable_sound reached.reachable
    have owns := reachable_owns reached
    refine ⟨fun {k _} passed => (owns k).start passed, fun {k _} passed => (owns k).stop passed,
      socket_of_close owns, closedTimes_le sound.rounds owns, closed_of_past sound.rounds owns,
      fun {n} mine => past_attained reached.reachable ?_ (owns n).whole⟩
    by_contra outside
    simp [own, List.getElem?_eq_none (Nat.le_of_not_lt outside)] at mine
  refine ⟨belongs reached, fun a t ran works => ⟨fun kept => ?_, fun met => belongs (.step reached met ran)⟩⟩
  by_contra mixed
  exact not_belongs_of_step (reachable_sound reached.reachable) (reachable_owns reached)
    (effect_of_step ran) works mixed kept

/-- Connection `k` is accepted and its worker reads its socket. -/
def arriving (k : Nat) : List Action := [.loopTest, .accept true, .spawn, .read k]

/-- Connection `k` is authenticated and its session runs. -/
def serving (k : Nat) : List Action :=
  [.test k true, .authenticate k true, .activate k, .startDecode k, .startReceive k,
    .assignReceive k, .startSend k].map .server

/-- The receive thread of connection `k` has left its loop, and its worker calls `StopThread`. -/
def stopping (k : Nat) : List Action :=
  [.server (.receiverClear k), .read k, .server (.stop k), .server (.stopWaited k)]

/-- A session that ends before the next connection arrives. -/
theorem socket_belongs_in_turn : ∃ s, ((s.server.workers 0 = .joining ∧ s.server.workers 1 = .refused) ∧
    s.closes = [⟨0, .accepted 0⟩, ⟨1, .accepted 1⟩]) ∧ Belongs (system 0) s := by
  have found : ∃ s, (system 0).ReachableBy Apart s ∧
      ((s.server.workers 0 = .joining ∧ s.server.workers 1 = .refused) ∧
        s.closes = [⟨0, .accepted 0⟩, ⟨1, .accepted 1⟩]) :=
    System.exists_reachableBy_of_replay (s := start 0) rfl
      (arriving 0 ++ serving 0 ++ [.server (.receiverTest 0), .server (.disconnect 0)] ++ stopping 0 ++
        arriving 1 ++ [.server (.test 1 true), .close 1]) (by decide +kernel)
  obtain ⟨s, reached, seen⟩ := found
  exact ⟨s, seen, (socket_belongs reached).1⟩

/-- **A socket can be closed by another connection's worker, and its own left open.** A second
connection is refused while a session runs, and the session's worker closes the second one's socket
again instead of its own. A single connection that is reset is closed twice. -/
theorem socket_of_another :
    (∃ s, (system 0).Reachable s ∧ s.stops 0 = some (.accepted 1) ∧ closedTimes s 1 = 2 ∧
      s.server.workers 0 = .joining ∧ closedTimes s 0 = 0 ∧ ¬Belongs (system 0) s) ∧
    ∃ s, (system 0).Reachable s ∧ s.returned = [.accepted 0] ∧ closedTimes s 0 = 2 ∧
      ¬Belongs (system 0) s := by
  have refused : ∃ s, (system 0).Reachable s ∧ (s.stops 0 = some (.accepted 1) ∧
      closedTimes s 1 = 2 ∧ s.server.workers 0 = .joining ∧ closedTimes s 0 = 0) :=
    System.exists_reachable_of_replay (s := start 0) rfl
      (arriving 0 ++ serving 0 ++ arriving 1 ++ [.server (.test 1 true), .close 1,
        .server (.receiverTest 0), .server (.disconnect 0)] ++ stopping 0) (by decide +kernel)
  have reset : ∃ s, (system 0).Reachable s ∧ (s.returned = [.accepted 0] ∧ closedTimes s 0 = 2) :=
    System.exists_reachable_of_replay (s := start 0) rfl
      (arriving 0 ++ serving 0 ++ [.server (.receiverTest 0), .receiveFails 0] ++ stopping 0)
      (by decide +kernel)
  obtain ⟨s, reached, passed, again, gone, open_still⟩ := refused
  obtain ⟨u, broke, one, twice⟩ := reset
  refine ⟨⟨s, reached, passed, again, gone, open_still, fun belongs => ?_⟩,
    u, broke, one, twice, fun belongs => ?_⟩
  · have once := belongs.once 1
    omega
  · have once := belongs.once 0
    omega

end DCScan.Accept
