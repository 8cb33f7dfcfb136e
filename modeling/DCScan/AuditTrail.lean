import DCScan.AuditLog

/-!
What the rows of EVENTS about connections and deletions say.

`Kept` is the invariant: how far each worker has got in writing down, whose name is set meanwhile,
and the visits that the log consists of. A visit can only grow while it is the last one: whoever writes
a row that counts owns the server (`Ordered.one`).
-/

namespace DCScan.Audit

open Lib RDB
open Server (WorkerPhase DecoderPhase)

/-- Not written by `LogEventSystem` for somebody else. -/
def Entry.audited (e : Entry) : Bool := e.writer != .other

/-- What a user deletes after the row that says that he has left. -/
structure Departure where
  /-- In the user's name. -/
  named : List (List UInt8)
  /-- In no name. -/
  nameless : List (List UInt8)

/-- What EVENTS says of one connection. -/
structure Visit where
  connection : Nat
  user : List UInt8
  deleted : List (List UInt8)
  /-- There is none while the user is connected. -/
  left : Option Departure

def connectedRow (k : Nat) (user : List UInt8) : Entry :=
  ⟨⟨ascii "System", .NETWORK, connectedText user⟩, .worker k⟩

def disconnectedRow (k : Nat) (user : List UInt8) : Entry :=
  ⟨⟨ascii "System", .NETWORK, disconnectedText user⟩, .worker k⟩

def deletionRow (k : Nat) (user what : List UInt8) : Entry := ⟨⟨user, .VAR_DELETE, what⟩, .user k⟩

def Departure.rows (d : Departure) (k : Nat) (user : List UInt8) : List Entry :=
  disconnectedRow k user :: d.named.map (deletionRow k user) ++ d.nameless.map (deletionRow k [])

def Visit.rows (v : Visit) : List Entry :=
  connectedRow v.connection v.user :: v.deleted.map (deletionRow v.connection v.user) ++
    match v.left with
    | some d => d.rows v.connection v.user
    | none => []

/-! ## The invariant -/

/-- What a worker has written down, given where it stands. -/
def Noted (r : Record) : WorkerPhase → Prop
  | .absent | .accepted | .authenticating | .refused => r = .absent
  | .authenticated => r = .absent ∨ r = .named ∨ r = .connected
  | .activated | .decoding | .launching | .receiving | .stopping | .waiting | .abandoned =>
    r = .connected
  | .joining => r = .connected ∨ r = .disconnected ∨ r = .cleared
  | .stoppingSend | .joiningSend | .closed => r = .cleared

/-- The worker has written the row that says that the user is connected. -/
def Record.logged : Record → Bool
  | .absent | .named => false
  | _ => true

/-- The name of the user is set. -/
def Record.naming : Record → Bool
  | .named | .connected | .disconnected => true
  | _ => false

/-- How far the visit is, given what its worker has written down. -/
def Visit.At (v : Visit) : Record → Prop
  | .connected => v.left = none
  | .disconnected => ∃ named, v.left = some ⟨named, []⟩
  | .cleared => v.left ≠ none
  | _ => False

/-- The log consists of these visits, and the owner's is the last one. -/
structure Told (s : State) (visits : List Visit) : Prop where
  rows : s.log.filter Entry.audited = visits.flatMap Visit.rows
  once : (visits.map Visit.connection).Nodup
  users : ∀ v ∈ visits, v.user = s.users v.connection ∧ (s.records v.connection).logged = true
  present : ∀ v ∈ visits, v.left = none → s.records v.connection = .connected
  ended : ∀ v ∈ visits.dropLast, v.left ≠ none
  last : ∀ k, owns (s.server.workers k) = true → (s.records k).logged = true →
    ∃ v, visits.getLast? = some v ∧ v.connection = k ∧ v.At (s.records k)

structure Kept (s : State) : Prop where
  ordered : Ordered s.server
  noted : ∀ k, Noted (s.records k) (s.server.workers k)
  name : ∀ k, (s.records k).naming = true → s.tables.authenticatedUsername = s.users k
  nameless : ∀ k, s.records k = .cleared → s.server.workers k = .joining →
    s.tables.authenticatedUsername = []
  deleting : ∀ k name, s.deleting k = some name → executes (s.server.decoders k) = true
  events : s.log.map Entry.row = s.tables.EVENTS
  told : ∃ visits, Told s visits

variable {maxSub : UInt8} {sql : Sqlite} {sha : Digest} {server next : Server.State}
variable {b : Server.Action} {s t : State} {a : Action} {j k : Nat} {visits : List Visit}

/-- A user whose name is set owns the server. -/
theorem owns_of_naming {r : Record} {p : WorkerPhase} (noted : Noted r p) (naming : r.naming = true) :
    owns p = true := by
  cases p <;> first
    | rfl
    | (rw [show r = _ from noted] at naming; cases naming)

/-- From the start of its session on an owner has written down at least that the user is connected. -/
theorem logged_of_owner {r : Record} {p : WorkerPhase} (noted : Noted r p) (own : owns p = true)
    (further : Inbound.granted p = true ∧ p ≠ .authenticated) :
    r.logged = true ∧ (r = .cleared → p = .joining) := by
  cases p with
  | activated | decoding | launching | receiving | stopping | waiting | abandoned =>
    obtain rfl : r = .connected := noted
    exact ⟨rfl, nofun⟩
  | joining => exact ⟨by rcases noted with rfl | rfl | rfl <;> rfl, fun _ => rfl⟩
  | authenticated => exact absurd rfl further.2
  | absent | accepted | authenticating | refused => cases further.1
  | stoppingSend | joiningSend | closed => cases own

/-- The name is set, and no row is written, only at the end of `Authenticate`. -/
theorem stand_of_named {p : WorkerPhase} (noted : Noted .named p) : p = .authenticated := by
  cases p with
  | authenticated => rfl
  | joining => simp [Noted] at noted
  | _ => cases noted

theorem stand_of_disconnected {p : WorkerPhase} (noted : Noted .disconnected p) : p = .joining := by
  cases p with
  | joining => rfl
  | authenticated => simp [Noted] at noted
  | _ => cases noted

/-- Nothing is written down before `Authenticate` lets the worker on. -/
theorem absent_of_early {r : Record} {p : WorkerPhase} (noted : Noted r p)
    (early : Inbound.granted p = false) : r = .absent := by
  cases p <;> first
    | exact noted
    | cases early

/-- Where a worker stands whose decode thread executes a function. -/
theorem paced_executing {running : Bool} {r : Server.ReceiverPhase} {d : DecoderPhase}
    {p : WorkerPhase} (paced : Inbound.Paced running r d p) (executing : executes d = true) :
    Inbound.granted p = true ∧ p ≠ .authenticated ∧ (p = .decoding ∨ r.alive = true) := by
  have there : d ≠ .absent := fun gone => by rw [gone] at executing; cases executing
  have going : d ≠ .finished := fun gone => by rw [gone] at executing; cases executing
  cases p with
  | absent | accepted | authenticating | authenticated | refused => exact absurd paced.2 there
  | activated => exact absurd paced.2.2 there
  | decoding => exact ⟨rfl, by simp, Or.inl rfl⟩
  | _ =>
    refine ⟨rfl, by simp, Or.inr ?_⟩
    cases r with
    | absent => exact paced.elim
    | finished => exact absurd paced going
    | _ => rfl

/-- A decode thread that executes a function belongs to the connection that owns the server, and its
worker has written down at least that the user is connected. -/
theorem Kept.executing (kept : Kept s) (executing : executes (s.server.decoders k) = true) :
    owns (s.server.workers k) = true ∧ (s.records k).logged = true ∧
      (s.records k = .cleared → s.server.workers k = .joining) := by
  obtain ⟨passed, further, runs⟩ := paced_executing (kept.ordered.control.paced k) executing
  have own : owns (s.server.workers k) = true := by
    rcases runs with decoding | alive
    · rw [decoding]
      rfl
    · rcases kept.ordered.guarded.alive alive with pointed | launching
      · rw [owns, (kept.ordered.kept k).mp pointed, Bool.or_true]
      · rw [launching]
        rfl
  exact ⟨own, logged_of_owner (kept.noted k) own ⟨passed, further⟩⟩

/-! ## The steps of the server's threads -/

/-- How the worker of connection `k` moves in an ordered server. -/
inductive Follows (k : Nat) : Server.Action → WorkerPhase → WorkerPhase → Prop
  | accept : Follows k (.accept k) .absent .accepted
  | pass {valid : Bool} : Follows k (.test k valid) .accepted .authenticating
  | reject {valid : Bool} : Follows k (.test k valid) .accepted .refused
  | grant : Follows k (.authenticate k true) .authenticating .authenticated
  | refuse : Follows k (.authenticate k false) .authenticating .refused
  | activate : Follows k (.activate k) .authenticated .activated
  | startDecode : Follows k (.startDecode k) .activated .decoding
  | startReceive : Follows k (.startReceive k) .decoding .launching
  | assignReceive : Follows k (.assignReceive k) .launching .receiving
  | startSend : Follows k (.startSend k) .receiving .stopping
  | abandon : Follows k (.startSend k) .receiving .abandoned
  | stop : Follows k (.stop k) .stopping .waiting
  | stopWaited : Follows k (.stopWaited k) .waiting .joining
  | joinReceive : Follows k (.joinReceive k) .joining .stoppingSend
  | stopSend : Follows k (.stopSend k) .stoppingSend .joiningSend
  | close : Follows k (.stopSend k) .stoppingSend .closed
  | joinSend : Follows k (.joinSend k) .joiningSend .closed

theorem follows_of_workerStep (ordered : Ordered server)
    (ran : Server.workerStep server b = some next) :
    next.workers k = server.workers k ∨ Follows k b (server.workers k) (next.workers k) := by
  have moved {j : Nat} {p : WorkerPhase}
      (workers : next.workers = Function.update server.workers j p)
      (follows : Follows j b (server.workers j) p) :
      next.workers k = server.workers k ∨ Follows k b (server.workers k) (next.workers k) := by
    by_cases here : k = j
    · subst here
      exact Or.inr (by rw [workers, Function.update_self]; exact follows)
    · exact Or.inl (by rw [workers, Function.update_of_ne here])
  cases Server.worker_turn ran with
  | accept stand => exact moved rfl (stand ▸ .accept)
  | test stand => exact moved rfl (by rw [stand]; split <;> constructor)
  | @authenticate _ ok stand => exact moved rfl (by rw [stand]; cases ok <;> constructor)
  | activate stand => exact moved rfl (stand ▸ .activate)
  | startDecode stand => exact moved rfl (stand ▸ .startDecode)
  | startReceive stand => exact moved rfl (stand ▸ .startReceive)
  | assignReceive stand => exact moved rfl (stand ▸ .assignReceive)
  | startSend stand => exact moved rfl (stand ▸ .startSend)
  | abandon stand => exact moved rfl (stand ▸ .abandon)
  | @stop j stand =>
    have own : server.receiveThread = some j := (ordered.kept j).mpr (by rw [stand]; rfl)
    exact moved rfl (by rw [stand, own]; exact .stop)
  | stopWaited stand => exact moved rfl (stand ▸ .stopWaited)
  | joinReceive stand => exact moved rfl (stand ▸ .joinReceive)
  | stopSend stand => exact moved rfl (stand ▸ .stopSend)
  | close stand => exact moved rfl (stand ▸ .close)
  | joinSend stand => exact moved rfl (stand ▸ .joinSend)

theorem follows_of_step (ordered : Ordered server) (ran : Server.step maxSub server b = some next) :
    next.workers k = server.workers k ∨ Follows k b (server.workers k) (next.workers k) := by
  rcases Server.thread_of_step ran with ran | ran | ran | ran | ran | ran
  · exact follows_of_workerStep ordered ran
  · rw [Server.receiverStep_frame ran]
    exact Or.inl rfl
  · rw [Server.decoderStep_frame ran]
    exact Or.inl rfl
  · rw [Server.senderStep_frame ran]
    exact Or.inl rfl
  · rw [Server.emitStep_frame ran]
    exact Or.inl rfl
  · rw [Server.clientStep_frame ran]
    exact Or.inl rfl

/-- A decode thread that executes a function goes on when it has been executed. -/
theorem decoder_of_step (ordered : Ordered server) (executing : executes (server.decoders k) = true)
    (unfinished : ∀ r mem, b ≠ .act k r mem) (ran : Server.step maxSub server b = some next) :
    next.decoders k = server.decoders k := by
  have elsewhere {j : Nat} {d d' : DecoderPhase} (decoders : next.decoders = Function.update server.decoders j d')
      (stand : server.decoders j = d) (calm : executes d = false) :
      next.decoders k = server.decoders k := by
    rw [decoders, Function.update_of_ne]
    rintro rfl
    rw [stand, calm] at executing
    cases executing
  rcases Server.thread_of_step ran with ran | ran | ran | ran | ran | ran
  · rcases (Server.threads_of_workerStep ran).2.1 with same | ⟨j, stand, started⟩
    · rw [same]
    · have paced := ordered.control.paced j
      rw [stand] at paced
      exact elsewhere started paced.2.2 rfl
  · rw [Server.receiverStep_frame ran]
  · cases Server.decoder_turn ran with
    | decoderTest stand | unblocked stand | fetch stand | restart stand =>
      exact elsewhere rfl stand rfl
    | @act j r mem =>
      refine Function.update_of_ne ?_ _ _
      rintro rfl
      exact unfinished r mem rfl
  · rw [Server.senderStep_frame ran]
  · rw [Server.emitStep_frame ran]
  · rw [Server.clientStep_frame ran]

/-- What is written down stays in step with the workers. -/
theorem Noted.follows {r : Record} {p q : WorkerPhase} (noted : Noted r p) (moves : Follows k b p q)
    (activates : b = .activate k → r = .connected) (joins : b = .joinReceive k → r = .cleared) :
    Noted r q := by
  cases moves with
  | grant => exact Or.inl noted
  | activate => exact activates rfl
  | stopWaited => exact Or.inl noted
  | joinReceive => exact joins rfl
  | _ => exact noted

/-- A worker that has logged its user does not come to own the server. -/
theorem owns_of_follows {r : Record} {p q : WorkerPhase} (noted : Noted r p)
    (moves : p = q ∨ Follows k b p q) (logged : r.logged = true) (own : owns q = true) :
    owns p = true := by
  rcases moves with rfl | moves
  · exact own
  · cases moves with
    | pass =>
      rw [show r = .absent from noted] at logged
      cases logged
    | accept | reject | refuse | joinReceive | stopSend | close | joinSend => cases own
    | _ => rfl

/-- The worker that clears the name has stopped waiting. -/
theorem joining_of_follows {r : Record} {p : WorkerPhase} (noted : Noted r p)
    (moves : p = .joining ∨ Follows k b p .joining) (cleared : r = .cleared) : p = .joining := by
  rcases moves with same | moves
  · exact same
  · cases moves
    rw [show r = .connected from noted] at cleared
    cases cleared

/-! ## What keeps the visits -/

/-- A step that writes nothing that counts, and moves on no worker that has logged its user. -/
theorem Told.keep (told : Told s visits)
    (log : t.log.filter Entry.audited = s.log.filter Entry.audited)
    (same : ∀ k, (s.records k).logged = true → t.users k = s.users k ∧ t.records k = s.records k)
    (owner : ∀ k, owns (t.server.workers k) = true → (t.records k).logged = true →
      owns (s.server.workers k) = true ∧ (s.records k).logged = true) : Told t visits where
  rows := log.trans told.rows
  once := told.once
  users v member := by
    obtain ⟨user, logged⟩ := told.users v member
    obtain ⟨users, records⟩ := same _ logged
    exact ⟨user.trans users.symm, records ▸ logged⟩
  present v member here := (same _ (told.users v member).2).2.trans (told.present v member here)
  ended := told.ended
  last k own logged := by
    obtain ⟨own, logged⟩ := owner k own logged
    rw [(same k logged).2]
    exact told.last k own logged

theorem Visit.At.connected {v : Visit} {r : Record} (stands : v.At r) (here : v.left = none) :
    r = .connected := by
  cases r with
  | connected => rfl
  | disconnected =>
    obtain ⟨named, gone⟩ := stands
    rw [here] at gone
    cases gone
  | cleared => exact absurd here stands
  | absent | named => exact stands.elim

/-- The owner's visit grows. -/
theorem Told.grow {v : Visit} (told : Told s visits) (v' : Visit) (written : List Entry)
    (found : visits.getLast? = some v) (named : v.connection = k)
    (one : ∀ j, owns (s.server.workers j) = true → j = k)
    (frame : t.server = s.server ∧ t.users = s.users ∧ ∀ j, j ≠ k → t.records j = s.records j)
    (logged : (t.records k).logged = true) (log : t.log = s.log ++ written)
    (counts : written.filter Entry.audited = written) (rows : v'.rows = v.rows ++ written)
    (same : v'.connection = v.connection ∧ v'.user = v.user) (stands : v'.At (t.records k)) :
    Told t (visits.dropLast ++ [v']) := by
  obtain ⟨server, users, records⟩ := frame
  have whole : visits.dropLast ++ [v] = visits :=
    List.dropLast_append_getLast? v (Option.mem_def.mpr found)
  have apart : k ∉ visits.dropLast.map Visit.connection := by
    have once := told.once
    rw [← whole, List.map_append, List.map_singleton, List.nodup_append] at once
    exact fun early => once.2.2 k early v.connection (by simp) named.symm
  have other {w : Visit} (early : w ∈ visits.dropLast) : w.connection ≠ k := fun same =>
    apart (List.mem_map.mpr ⟨w, early, same⟩)
  refine ⟨?_, ?_, fun w member => ?_, fun w member here => ?_, fun w member => ?_, fun j own _ => ?_⟩
  · rw [log, List.filter_append, told.rows, counts, ← whole, List.flatMap_append, List.flatMap_append]
    simp [rows]
  · rw [List.map_append, List.map_singleton, same.1, ← List.map_singleton, ← List.map_append, whole]
    exact told.once
  · rcases List.mem_append.mp member with early | new
    · rw [users, records _ (other early)]
      exact told.users w (List.dropLast_subset _ early)
    · obtain rfl := List.mem_singleton.mp new
      rw [same.1, same.2, users, named]
      refine ⟨?_, logged⟩
      rw [← named]
      exact (told.users v (List.mem_of_getLast? found)).1
  · rcases List.mem_append.mp member with early | new
    · exact absurd here (told.ended w early)
    · obtain rfl := List.mem_singleton.mp new
      rw [same.1, named]
      exact stands.connected here
  · rw [List.dropLast_concat] at member
    exact told.ended w member
  · rw [server] at own
    obtain rfl := one j own
    exact ⟨v', List.getLast?_concat, same.1.trans named, stands⟩

/-- A visit begins. -/
theorem Told.begin (told : Told s visits) (unlogged : (s.records k).logged = false)
    (one : ∀ j, owns (s.server.workers j) = true → j = k)
    (noted : ∀ j, Noted (s.records j) (s.server.workers j))
    (frame : t.server = s.server ∧ t.users = s.users ∧ ∀ j, j ≠ k → t.records j = s.records j)
    (logged : t.records k = .connected) (log : t.log = s.log ++ [connectedRow k (s.users k)]) :
    Told t (visits ++ [⟨k, s.users k, [], none⟩]) := by
  obtain ⟨server, users, records⟩ := frame
  have other {w : Visit} (early : w ∈ visits) : w.connection ≠ k := fun same => by
    have before := (told.users w early).2
    rw [same, unlogged] at before
    cases before
  have gone {w : Visit} (early : w ∈ visits) : w.left ≠ none := fun here => by
    have present := told.present w early here
    exact other early (one _ (owns_of_naming (noted w.connection) (by rw [present]; rfl)))
  refine ⟨?_, ?_, fun w member => ?_, fun w member here => ?_, fun w member => ?_, fun j own _ => ?_⟩
  · rw [log, List.filter_append, told.rows, List.flatMap_append]
    rfl
  · rw [List.map_append, List.nodup_append]
    refine ⟨told.once, List.nodup_singleton _, fun j early j' new same => ?_⟩
    obtain ⟨w, member, rfl⟩ := List.mem_map.mp early
    rw [List.map_singleton, List.mem_singleton] at new
    exact other member (same.trans new)
  · rcases List.mem_append.mp member with early | new
    · rw [users, records _ (other early)]
      exact told.users w early
    · obtain rfl := List.mem_singleton.mp new
      exact ⟨by rw [users], by rw [logged]; rfl⟩
  · rcases List.mem_append.mp member with early | new
    · exact absurd here (gone early)
    · obtain rfl := List.mem_singleton.mp new
      exact logged
  · rw [List.dropLast_concat] at member
    exact gone member
  · rw [server] at own
    obtain rfl := one j own
    exact ⟨_, List.getLast?_concat, rfl, by rw [logged]; rfl⟩

/-! ## Each step keeps the invariant -/

theorem map_row_wrote (tables : Tables) (w : Writer) {rows : List EventRow}
    (events : s.log.map Entry.row = s.tables.EVENTS) (added : tables.EVENTS = s.tables.EVENTS ++ rows) :
    (s.wrote tables w).log = s.log ++ rows.map (fun row => ⟨row, w⟩) ∧
      (s.wrote tables w).log.map Entry.row = tables.EVENTS := by
  have log : (s.wrote tables w).log = s.log ++ rows.map (fun row => ⟨row, w⟩) := by
    rw [State.wrote, added, List.drop_left]
  refine ⟨log, ?_⟩
  rw [log, List.map_append, events, added, List.map_map]
  simp [Function.comp_def]

/-- A step of one of the server's threads that what is written down allows, and `Authenticate`, which
keeps the name of the user that it has found. -/
theorem Kept.server_step (kept : Kept s) (met : Server.TestsAlone s.server b)
    (ran : Server.step maxSub s.server b = some next)
    (activates : ∀ k, b = .activate k → s.records k = .connected)
    (joins : ∀ k, b = .joinReceive k → s.records k = .cleared)
    (acts : ∀ k r mem, b = .act k r mem → s.deleting k = none)
    {users : Nat → List UInt8} (same : ∀ k, s.records k ≠ .absent → users k = s.users k) :
    Kept { s with server := next, users } := by
  have follows (k : Nat) := follows_of_step (k := k) kept.ordered ran
  have moves (k : Nat) : s.server.workers k = next.workers k ∨
      Follows k b (s.server.workers k) (next.workers k) := (follows k).imp_left Eq.symm
  have there {k : Nat} (logged : (s.records k).logged = true) : s.records k ≠ .absent := fun gone => by
    rw [gone] at logged
    cases logged
  refine ⟨ordered_step kept.ordered met ran, fun k => ?_, fun k naming => ?_,
    fun k cleared joining => ?_, fun k name pending => ?_, kept.events, ?_⟩
  · rcases follows k with stays | follows
    · exact stays ▸ kept.noted k
    · exact (kept.noted k).follows follows (activates k) (joins k)
  · have naming : (s.records k).naming = true := naming
    rw [show s.tables.authenticatedUsername = s.users k from kept.name k naming]
    refine (same k fun gone => ?_).symm
    rw [gone] at naming
    cases naming
  · have joining : next.workers k = .joining := joining
    have moved := moves k
    rw [joining] at moved
    exact kept.nameless k cleared (joining_of_follows (kept.noted k) moved cleared)
  · have executing := kept.deleting k name pending
    have unfinished : ∀ r mem, b ≠ .act k r mem := fun r mem acting => by
      have none_pending := acts k r mem acting
      rw [show s.deleting k = some name from pending] at none_pending
      cases none_pending
    exact decoder_of_step kept.ordered executing unfinished ran ▸ executing
  · obtain ⟨visits, told⟩ := kept.told
    refine ⟨visits, told.keep rfl (fun k logged => ⟨same k (there logged), rfl⟩)
      fun k own logged => ⟨?_, logged⟩⟩
    exact owns_of_follows (kept.noted k) (moves k) logged own

/-- `SetAuthenticatedUser(&user)`. -/
theorem Kept.setUser (kept : Kept s) (stand : s.server.workers k = .authenticated)
    (record : s.records k = .absent) :
    Kept { s with
      tables := s.tables.SetAuthenticatedUser (some (s.users k))
      records := Function.update s.records k .named } := by
  have own : owns (s.server.workers k) = true := by rw [stand]; rfl
  have only {j : Nat} (other : j ≠ k) (naming : (s.records j).naming = true) : False :=
    other (kept.ordered.one (owns_of_naming (kept.noted j) naming) own)
  refine ⟨kept.ordered, fun j => ?_, fun j naming => ?_, fun j cleared joining => ?_, kept.deleting,
    kept.events, ?_⟩
  · by_cases here : j = k
    · subst here
      simp [stand, Noted]
    · simpa [here] using kept.noted j
  · by_cases here : j = k
    · subst here
      rfl
    · exact (only here (by simpa [here] using naming)).elim
  · exfalso
    by_cases here : j = k
    · subst here
      rw [stand] at joining
      cases joining
    · refine here (kept.ordered.one ?_ own)
      rw [show s.server.workers j = .joining from joining]
      rfl
  · obtain ⟨visits, told⟩ := kept.told
    refine ⟨visits, told.keep rfl (fun j logged => ⟨rfl, ?_⟩) fun j own logged => ⟨own, ?_⟩⟩
    · refine Function.update_of_ne ?_ _ _
      rintro rfl
      rw [record] at logged
      cases logged
    · by_cases here : j = k
      · subst here
        simp [Record.logged] at logged
      · simpa [here] using logged

/-- What the records of the other connections allow when one record moves. -/
theorem Kept.records_frame (kept : Kept s) {r : Record} (tables : Tables)
    (own : owns (s.server.workers k) = true) (noted : Noted r (s.server.workers k))
    (name : r.naming = true → tables.authenticatedUsername = s.users k)
    (nameless : r = .cleared → tables.authenticatedUsername = []) :
    (∀ j, Noted (Function.update s.records k r j) (s.server.workers j)) ∧
    (∀ j, (Function.update s.records k r j).naming = true → tables.authenticatedUsername = s.users j) ∧
    ∀ j, Function.update s.records k r j = .cleared → s.server.workers j = .joining →
      tables.authenticatedUsername = [] := by
  have other {j : Nat} (apart : j ≠ k) : Function.update s.records k r j = s.records j :=
    Function.update_of_ne apart _ _
  refine ⟨fun j => ?_, fun j naming => ?_, fun j cleared joining => ?_⟩ <;> by_cases here : j = k
  · subst here
    rwa [Function.update_self]
  · rw [other here]
    exact kept.noted j
  · subst here
    rw [Function.update_self] at naming
    exact name naming
  · rw [other here] at naming
    exact absurd (kept.ordered.one (owns_of_naming (kept.noted j) naming) own) here
  · subst here
    rw [Function.update_self] at cleared
    exact nameless cleared
  · exact absurd (kept.ordered.one (by rw [joining]; rfl) own) here

/-- The row that says that the user is connected. -/
theorem Kept.logConnected (kept : Kept s) (record : s.records k = .named) :
    Kept ({ s with records := Function.update s.records k .connected }.wrote
      (s.tables.LogEventSystem .NETWORK (connectedText (s.users k))) (.worker k)) := by
  have naming : (s.records k).naming = true := by rw [record]; rfl
  have own := owns_of_naming (kept.noted k) naming
  have noted : Noted .connected (s.server.workers k) := by
    have noted := kept.noted k
    rw [record] at noted
    rw [stand_of_named noted]
    exact Or.inr (Or.inr rfl)
  obtain ⟨noted, name, nameless⟩ := kept.records_frame
    (s.tables.LogEventSystem .NETWORK (connectedText (s.users k))) own noted
    (fun _ => kept.name k naming) nofun
  obtain ⟨log, events⟩ := map_row_wrote (s := { s with records := Function.update s.records k .connected })
    (s.tables.LogEventSystem .NETWORK (connectedText (s.users k))) (.worker k) kept.events rfl
  obtain ⟨visits, told⟩ := kept.told
  refine ⟨kept.ordered, noted, name, nameless, kept.deleting, events, _, told.begin (by rw [record]; rfl)
    (fun j owner => kept.ordered.one owner own) kept.noted ⟨rfl, rfl, fun j other => ?_⟩ ?_ log⟩
  · exact Function.update_of_ne other _ _
  · exact Function.update_self ..

/-- The row that says that the user has left. -/
theorem Kept.logDisconnected (kept : Kept s) (stand : s.server.workers k = .joining)
    (record : s.records k = .connected) :
    Kept ({ s with records := Function.update s.records k .disconnected }.wrote
      (s.tables.LogEventSystem .NETWORK (disconnectedText s.tables.authenticatedUsername))
      (.worker k)) := by
  have naming : (s.records k).naming = true := by rw [record]; rfl
  have own := owns_of_naming (kept.noted k) naming
  have user := kept.name k naming
  obtain ⟨noted, name, nameless⟩ := kept.records_frame (r := .disconnected)
    (s.tables.LogEventSystem .NETWORK (disconnectedText s.tables.authenticatedUsername)) own
    (by rw [stand]; exact Or.inr (Or.inl rfl)) (fun _ => user) nofun
  obtain ⟨log, events⟩ := map_row_wrote (s := { s with records := Function.update s.records k .disconnected })
    (s.tables.LogEventSystem .NETWORK (disconnectedText s.tables.authenticatedUsername)) (.worker k)
    kept.events rfl
  obtain ⟨visits, told⟩ := kept.told
  obtain ⟨v, found, connection, here⟩ := told.last k own (by rw [record]; rfl)
  have now : Function.update s.records k .disconnected k = .disconnected := Function.update_self ..
  rw [record] at here
  have same : v.user = s.users k := by
    rw [← connection]
    exact (told.users v (List.mem_of_getLast? found)).1
  refine ⟨kept.ordered, noted, name, nameless, kept.deleting, events, _, told.grow
    { v with left := some ⟨[], []⟩ } _ found connection (fun j owner => kept.ordered.one owner own)
    ⟨rfl, rfl, fun j other => Function.update_of_ne other _ _⟩ ?_ log rfl ?_ ⟨rfl, rfl⟩ ?_⟩
  · exact (congrArg Record.logged now).trans rfl
  · rw [user]
    simp [Visit.rows, show v.left = none from here, Departure.rows, disconnectedRow, connection, same]
  · change Visit.At _ (Function.update s.records k .disconnected k)
    rw [now]
    exact ⟨[], rfl⟩

/-- `SetAuthenticatedUser(nullptr)`. -/
theorem Kept.clearUser (kept : Kept s) (record : s.records k = .disconnected) :
    Kept { s with
      tables := s.tables.SetAuthenticatedUser none
      records := Function.update s.records k .cleared } := by
  have own := owns_of_naming (kept.noted k) (by rw [record]; rfl)
  have stand : s.server.workers k = .joining := by
    have noted := kept.noted k
    rw [record] at noted
    exact stand_of_disconnected noted
  obtain ⟨noted, name, nameless⟩ := kept.records_frame (r := .cleared)
    (s.tables.SetAuthenticatedUser none) own (by rw [stand]; exact Or.inr (Or.inr rfl)) nofun fun _ => rfl
  obtain ⟨visits, told⟩ := kept.told
  obtain ⟨v, found, connection, here⟩ := told.last k own (by rw [record]; rfl)
  have now : Function.update s.records k .cleared k = .cleared := Function.update_self ..
  rw [record] at here
  obtain ⟨named, gone⟩ := here
  refine ⟨kept.ordered, noted, name, nameless, kept.deleting, kept.events, _, told.grow v []
    found connection (fun j owner => kept.ordered.one owner own)
    ⟨rfl, rfl, fun j other => Function.update_of_ne other _ _⟩ ?_ ?_ rfl ?_ ⟨rfl, rfl⟩ ?_⟩
  · exact (congrArg Record.logged now).trans rfl
  · exact (List.append_nil _).symm
  · exact (List.append_nil _).symm
  · change Visit.At _ (Function.update s.records k .cleared k)
    rw [now, Visit.At, gone]
    exact Option.some_ne_none _

/-- A call on the tables extends EVENTS, and sets no name. -/
theorem of_call {db : Tables} {tables : Tables} {c : TableCall}
    (ran : db.call sql sha c = some tables) :
    (∃ rows, tables.EVENTS = db.EVENTS ++ rows) ∧
      tables.authenticatedUsername = db.authenticatedUsername := by
  cases wrote_of_call ran with
  | nothing => exact ⟨⟨[], (List.append_nil _).symm⟩, rfl⟩
  | added | removed | written | deleted | deletedSys => exact ⟨⟨_, rfl⟩, rfl⟩
  | writtenSys => exact ⟨⟨[], (List.append_nil _).symm⟩, rfl⟩

theorem Kept.call (kept : Kept s) {tables : Tables} {c : TableCall}
    (ran : s.tables.call sql sha c = some tables) : Kept (s.wrote tables .other) := by
  obtain ⟨⟨rows, added⟩, name⟩ := of_call ran
  obtain ⟨log, events⟩ := map_row_wrote tables .other kept.events added
  refine ⟨kept.ordered, kept.noted, fun j naming => name.trans (kept.name j naming),
    fun j cleared joining => name.trans (kept.nameless j cleared joining), kept.deleting, events, ?_⟩
  obtain ⟨visits, told⟩ := kept.told
  refine ⟨visits, told.keep ?_ (fun _ _ => ⟨rfl, rfl⟩) fun _ own logged => ⟨own, logged⟩⟩
  rw [log, List.filter_append]
  simp [List.filter_map, Function.comp_def, Entry.audited]

/-- A row goes that a decode thread is to log. -/
theorem Kept.deleteRow (kept : Kept s) {tables : Tables} {name : CString}
    (executing : executes (s.server.decoders k) = true)
    (ran : DeleteVariableInternal sql s.tables name = some (true, tables)) :
    Kept { s with tables, deleting := Function.update s.deleting k (some name) } := by
  rcases of_deleteVariableInternal ran with ⟨⟨⟩, _⟩ | ⟨_, meets, _, rfl⟩
  obtain ⟨visits, told⟩ := kept.told
  refine ⟨kept.ordered, kept.noted, kept.name, kept.nameless, fun j what pending => ?_, kept.events,
    visits, told.keep rfl (fun _ _ => ⟨rfl, rfl⟩) fun _ own logged => ⟨own, logged⟩⟩
  by_cases here : j = k
  · rw [here]
    exact executing
  · exact kept.deleting j what (by simpa [here] using pending)

/-- The visit in whose course a deletion is logged: the user is named until the name is cleared. -/
theorem Visit.At.grown {v : Visit} {r : Record} {name : List UInt8} (what : List UInt8)
    (stands : v.At r)
    (named : r.naming = true → name = v.user) (nameless : r = .cleared → name = []) :
    ∃ v' : Visit, v'.rows = v.rows ++ [deletionRow v.connection name what] ∧
      (v'.connection = v.connection ∧ v'.user = v.user) ∧ v'.At r := by
  cases r with
  | absent | named => exact stands.elim
  | connected =>
    refine ⟨{ v with deleted := v.deleted ++ [what] }, ?_, ⟨rfl, rfl⟩, stands⟩
    have here : v.left = none := stands
    simp [Visit.rows, here, named rfl]
  | disconnected =>
    obtain ⟨before, gone⟩ := stands
    refine ⟨{ v with left := some ⟨before ++ [what], []⟩ }, ?_, ⟨rfl, rfl⟩, _, rfl⟩
    simp [Visit.rows, gone, Departure.rows, named rfl]
  | cleared =>
    obtain ⟨d, gone⟩ := Option.ne_none_iff_exists'.mp stands
    refine ⟨{ v with left := some { d with nameless := d.nameless ++ [what] } }, ?_, ⟨rfl, rfl⟩,
      Option.some_ne_none _⟩
    simp [Visit.rows, gone, Departure.rows, nameless rfl]

theorem Kept.logDeletion (kept : Kept s) {name : CString} (pending : s.deleting k = some name) :
    Kept ({ s with deleting := Function.update s.deleting k none }.wrote
      (s.tables.LogEventUser .VAR_DELETE name.bytes) (.user k)) := by
  obtain ⟨own, logged, joins⟩ := kept.executing (kept.deleting k name pending)
  obtain ⟨log, events⟩ := map_row_wrote (s := { s with deleting := Function.update s.deleting k none })
    (s.tables.LogEventUser .VAR_DELETE name.bytes) (.user k) kept.events rfl
  obtain ⟨visits, told⟩ := kept.told
  obtain ⟨v, found, connection, here⟩ := told.last k own logged
  have same : v.user = s.users k := by
    rw [← connection]
    exact (told.users v (List.mem_of_getLast? found)).1
  obtain ⟨v', rows, frame, stands⟩ := Visit.At.grown name.bytes here
    (fun naming => (kept.name k naming).trans same.symm)
    fun cleared => kept.nameless k cleared (joins cleared)
  rw [connection] at rows
  refine ⟨kept.ordered, kept.noted, kept.name, kept.nameless, fun j what pending => ?_, events, _,
    told.grow v' _ found connection (fun j owner => kept.ordered.one owner own) ⟨rfl, rfl, fun _ _ => rfl⟩
      logged log rfl rows frame stands⟩
  obtain ⟨_, ⟨⟩⟩ | ⟨_, before⟩ := update_cases pending
  exact kept.deleting j what before

/-- What a step is, with the lemma that says that it keeps the invariant. -/
theorem Kept.step (kept : Kept s) (met : TestsAlone s a) (ran : Audit.step maxSub sql sha s a = some t) :
    Kept t := by
  cases a with
  | server b =>
    simp only [Audit.step, Option.ite_none_right_eq_some] at ran
    obtain ⟨permits, ran⟩ := ran
    obtain ⟨next, moved, rfl⟩ := Option.map_eq_some_iff.mp ran
    refine kept.server_step met moved ?_ ?_ ?_ fun _ _ => rfl
    · rintro k rfl
      exact of_decide_eq_true permits
    · rintro k rfl
      exact of_decide_eq_true permits
    · rintro k r mem rfl
      exact of_decide_eq_true permits
  | login k username =>
    obtain ⟨user, _, ran⟩ := Option.bind_eq_some_iff.mp ran
    split at ran
    · cases ran
    · obtain ⟨next, moved, ⟨⟩⟩ := Option.bind_eq_some_iff.mp ran
      refine kept.server_step (b := .authenticate k true) trivial moved nofun nofun nofun fun j there => ?_
      refine Function.update_of_ne ?_ _ _
      rintro rfl
      simp only [Server.step, Server.workerStep, Option.ite_none_right_eq_some] at moved
      exact there (absent_of_early (kept.noted j) (by rw [moved.1]; rfl))
  | setUser k =>
    obtain ⟨⟨stand, record⟩, ⟨⟩⟩ := Option.ite_none_right_eq_some.mp ran
    exact kept.setUser stand record
  | logConnected k =>
    obtain ⟨record, ⟨⟩⟩ := Option.ite_none_right_eq_some.mp ran
    exact kept.logConnected record
  | logDisconnected k =>
    obtain ⟨⟨stand, record⟩, ⟨⟩⟩ := Option.ite_none_right_eq_some.mp ran
    exact kept.logDisconnected stand record
  | clearUser k =>
    obtain ⟨record, ⟨⟩⟩ := Option.ite_none_right_eq_some.mp ran
    exact kept.clearUser record
  | call c =>
    obtain ⟨tables, called, rfl⟩ := Option.map_eq_some_iff.mp ran
    exact kept.call called
  | deleteRow k name =>
    obtain ⟨⟨executing, _⟩, ran⟩ := Option.ite_none_right_eq_some.mp ran
    split at ran
    · rename_i tables deleted
      cases ran
      exact kept.deleteRow executing deleted
    · cases ran
  | logDeletion k =>
    simp only [Audit.step] at ran
    split at ran
    · rename_i name pending
      cases ran
      exact kept.logDeletion pending
    · cases ran

theorem start_kept (maxSub : UInt8) : Kept (start maxSub) where
  ordered := {
    guarded := Server.start_guarded maxSub
    control := {
      paced := fun _ => ⟨rfl, rfl⟩
      single := fun live => by
        rcases live with activated | decoding | alive
        · cases activated
        · cases decoding
        · cases alive }
    kept := fun _ => by simp [start, Server.start, keeps] }
  noted _ := rfl
  name _ naming := by cases naming
  nameless _ cleared := by cases cleared
  deleting _ _ pending := by cases pending
  events := rfl
  told := ⟨[], rfl, List.nodup_nil, nofun, nofun, nofun, fun _ _ logged => by cases logged⟩

theorem reachable_kept (reached : (system maxSub sql sha).ReachableBy TestsAlone s) : Kept s :=
  reached.invariant (by rintro _ rfl; exact start_kept maxSub) fun _ _ _ kept met ran => kept.step met ran

/-- **EVENTS is a list of visits.** While each test of `server_receive_thread` is made alone, the rows
that the workers and `LogEventUser` have written are those of one connection after the other: that
its user is connected, what he deletes, that he has left, and what is deleted meanwhile, at first in his
name and then in none. Every connection but the last has been left. -/
theorem events_of_visits (reached : (system maxSub sql sha).ReachableBy TestsAlone s) :
    s.log.map Entry.row = s.tables.EVENTS ∧
    ∃ visits : List Visit, s.log.filter Entry.audited = visits.flatMap Visit.rows ∧
      (visits.map Visit.connection).Nodup ∧ (∀ v ∈ visits, v.user = s.users v.connection) ∧
      ∀ v ∈ visits.dropLast, v.left ≠ none := by
  have kept := reachable_kept reached
  obtain ⟨visits, told⟩ := kept.told
  exact ⟨kept.events, visits, told.rows, told.once, fun v member => (told.users v member).1, told.ended⟩

/-! ## The users are registered -/

/-- What `AddUser` writes down. -/
def createdRow (user : List UInt8) : EventRow := ⟨ascii "System", .USR_CREATE, user⟩

/-- Every user in the table, and every user found by `Authenticate`, was registered before, and so
before each row that its connection has written. -/
structure Backed (s : State) : Prop where
  rows : ∀ r ∈ s.tables.USERS, 0 ∉ r.username ∧ createdRow r.username ∈ s.tables.EVENTS
  users : ∀ k, Inbound.granted (s.server.workers k) = true → createdRow (s.users k) ∈ s.tables.EVENTS
  before : ∀ k before e after, s.log = before ++ e :: after →
    e.writer = .worker k ∨ e.writer = .user k → createdRow (s.users k) ∈ before.map Entry.row

/-- What the thread of a connection has written belongs to its visit. -/
theorem Told.written (told : Told s visits) {e : Entry} (member : e ∈ s.log)
    (author : e.writer = .worker k ∨ e.writer = .user k) : (s.records k).logged = true := by
  have audited : e ∈ s.log.filter Entry.audited := by
    refine List.mem_filter.mpr ⟨member, ?_⟩
    rcases author with written | written <;> rw [Entry.audited, written] <;> rfl
  rw [told.rows] at audited
  obtain ⟨v, there, row⟩ := List.mem_flatMap.mp audited
  have own : e.writer = .worker v.connection ∨ e.writer = .user v.connection := by
    rw [Visit.rows, List.mem_append, List.mem_cons, List.mem_map] at row
    rcases row with (rfl | ⟨_, _, rfl⟩) | row
    · exact Or.inl rfl
    · exact Or.inr rfl
    · cases gone : v.left with
      | none =>
        rw [gone] at row
        cases row
      | some d =>
        rw [gone] at row
        simp only [Departure.rows, List.mem_append, List.mem_cons, List.mem_map] at row
        rcases row with (rfl | ⟨_, _, rfl⟩) | ⟨_, _, rfl⟩
        · exact Or.inl rfl
        · exact Or.inr rfl
        · exact Or.inr rfl
  have same : v.connection = k := by
    rcases author with written | written <;> rw [written] at own <;> rcases own with same | same <;>
      cases same <;> rfl
  rw [← same]
  exact (told.users v there).2

/-- Rows are added to the log: at least the rows before were there. -/
theorem split_append {log : List Entry} {rows : List EventRow} {w : Writer} {before after : List Entry}
    {e : Entry} (split : log ++ rows.map (fun row => ⟨row, w⟩) = before ++ e :: after) :
    (∃ rest, log = before ++ e :: rest) ∨ (e.writer = w ∧ log <+: before) := by
  rcases List.append_eq_append_iff.mp split with ⟨more, rfl, later⟩ | ⟨more, early, later⟩
  · refine Or.inr ⟨?_, List.prefix_append _ _⟩
    have member : e ∈ rows.map (fun row => (⟨row, w⟩ : Entry)) := by
      rw [later]
      simp
    obtain ⟨_, _, rfl⟩ := List.mem_map.mp member
    rfl
  · cases more with
    | nil =>
      rw [List.nil_append] at later
      rw [List.append_nil] at early
      have member : e ∈ rows.map (fun row => (⟨row, w⟩ : Entry)) := by
        rw [← later]
        exact List.mem_cons_self ..
      obtain ⟨_, _, rfl⟩ := List.mem_map.mp member
      exact Or.inr ⟨rfl, early ▸ List.prefix_refl _⟩
    | cons first rest =>
      rw [List.cons_append, List.cons.injEq] at later
      exact Or.inl ⟨rest, by rw [early, later.1]⟩

/-- A thread writes rows down. -/
theorem Backed.wrote (backed : Backed s) {tables : Tables} {rows : List EventRow} {w : Writer}
    (events : s.log.map Entry.row = s.tables.EVENTS) (added : tables.EVENTS = s.tables.EVENTS ++ rows)
    (users : ∀ r ∈ tables.USERS, r ∈ s.tables.USERS ∨
      (0 ∉ r.username ∧ createdRow r.username ∈ tables.EVENTS))
    (own : ∀ k, w = .worker k ∨ w = .user k → Inbound.granted (s.server.workers k) = true) :
    Backed (s.wrote tables w) := by
  have kept {row : EventRow} (member : row ∈ s.tables.EVENTS) : row ∈ tables.EVENTS := by
    rw [added]
    exact List.mem_append_left _ member
  refine ⟨fun r member => ?_, fun k passed => kept (backed.users k passed),
    fun k before e after split author => ?_⟩
  · rcases users r member with there | new
    · exact ⟨(backed.rows r there).1, kept (backed.rows r there).2⟩
    · exact new
  · rw [(map_row_wrote tables w events added).1] at split
    rcases split_append split with ⟨rest, inside⟩ | ⟨rfl, front⟩
    · exact backed.before k before e rest inside author
    · have created := backed.users k (own k author)
      rw [← events] at created
      exact (front.map Entry.row).subset created

/-- What `GetUser` returns is the name of a row, or says that there is none. -/
theorem of_getUser {db : Tables} {username : CString} {user : User}
    (ran : GetUser sql db username = some user) (valid : user.u ≠ invalidUser) :
    ∃ r ∈ db.USERS, user.u = cStr r.username := by
  obtain ⟨names, queried, ran⟩ := Option.bind_eq_some_iff.mp ran
  have found : ∀ name ∈ names, ∃ r ∈ db.USERS, name = cStr r.username := by
    unfold QueryEntries at queried
    split at queried
    · cases queried
      nofun
    · rename_i r only
      cases queried
      intro name member
      have inside : r ∈ selected (sql.ofUsers (whereUser username)) db.USERS := by rw [only]; simp
      refine ⟨r, ?_, List.mem_singleton.mp member⟩
      unfold selected at inside
      split at inside
      · exact List.mem_of_mem_filter inside
      · cases inside
    · cases queried
  split at ran
  · cases ran
    exact absurd rfl valid
  · rename_i name rest
    split at ran
    · obtain ⟨hash, _, copied⟩ := Option.bind_eq_some_iff.mp ran
      split at copied
      · cases copied
      · split at copied <;> cases copied
        exact found name (List.mem_cons_self ..)
    · cases ran

/-- A call adds a user together with the row that says so. -/
theorem users_of_call {db tables : Tables} {c : TableCall} (ran : db.call sql sha c = some tables) :
    ∀ r ∈ tables.USERS, r ∈ db.USERS ∨ (0 ∉ r.username ∧ createdRow r.username ∈ tables.EVENTS) := by
  intro r member
  cases wrote_of_call ran with
  | @added username password =>
    rcases mem_upsert.mp member with ⟨old, _⟩ | rfl
    · exact Or.inl old
    · exact Or.inr ⟨username.nul_free, List.mem_append_right _ (List.mem_singleton_self _)⟩
  | removed => exact Or.inl (List.mem_of_mem_filter member)
  | nothing | written | writtenSys | deleted | deletedSys => exact Or.inl member

theorem Backed.server_step (backed : Backed s)
    (passed : ∀ k, Inbound.granted (next.workers k) = true → Inbound.granted (s.server.workers k) = true) :
    Backed { s with server := next } :=
  ⟨backed.rows, fun k granted => backed.users k (passed k granted), backed.before⟩

/-- `Authenticate` has found the user in the table. -/
theorem Backed.login (backed : Backed s) (kept : Kept s) {username : CString} {user : User}
    (found : GetUser sql s.tables username = some user) (valid : user.u ≠ invalidUser)
    (ran : Server.step maxSub s.server (.authenticate k true) = some next) :
    Backed { s with server := next, users := Function.update s.users k user.u } := by
  obtain ⟨r, member, named⟩ := of_getUser found valid
  obtain ⟨nul_free, created⟩ := backed.rows r member
  have name : user.u = r.username := named.trans (CString.cStr_bytes ⟨r.username, nul_free⟩)
  have stand : s.server.workers k = .authenticating := by
    simp only [Server.step, Server.workerStep, Option.ite_none_right_eq_some] at ran
    exact ran.1
  have silent : s.records k = .absent := absent_of_early (kept.noted k) (by rw [stand]; rfl)
  refine ⟨backed.rows, fun j passed => ?_, fun j before e after split author => ?_⟩
  · change createdRow (Function.update s.users k user.u j) ∈ s.tables.EVENTS
    by_cases here : j = k
    · subst here
      rw [Function.update_self, name]
      exact created
    · rw [Function.update_of_ne here]
      refine backed.users j ((Inbound.granted_of_step ran passed).resolve_right ?_)
      rintro ⟨⟩
      exact here rfl
  · have other : j ≠ k := by
      rintro rfl
      obtain ⟨visits, told⟩ := kept.told
      have written := told.written (e := e) (by rw [split]; simp) author
      rw [silent] at written
      cases written
    change createdRow (Function.update s.users k user.u j) ∈ _
    rw [Function.update_of_ne other]
    exact backed.before j before e after split author

theorem Backed.step (backed : Backed s) (kept : Kept s)
    (ran : Audit.step maxSub sql sha s a = some t) : Backed t := by
  have granted_of_record {j : Nat} (record : s.records j ≠ .absent) :
      Inbound.granted (s.server.workers j) = true := by
    by_contra early
    exact record (absent_of_early (kept.noted j) (by simpa using early))
  cases a with
  | server b =>
    simp only [Audit.step, Option.ite_none_right_eq_some] at ran
    obtain ⟨permits, ran⟩ := ran
    obtain ⟨next, moved, rfl⟩ := Option.map_eq_some_iff.mp ran
    refine backed.server_step fun k passed => (Inbound.granted_of_step moved passed).resolve_right ?_
    rintro rfl
    cases permits
  | login k username =>
    obtain ⟨user, found, ran⟩ := Option.bind_eq_some_iff.mp ran
    split at ran
    · cases ran
    · rename_i valid
      obtain ⟨next, moved, ⟨⟩⟩ := Option.bind_eq_some_iff.mp ran
      exact backed.login kept found valid moved
  | setUser k =>
    obtain ⟨_, ⟨⟩⟩ := Option.ite_none_right_eq_some.mp ran
    exact ⟨backed.rows, backed.users, backed.before⟩
  | logConnected k =>
    obtain ⟨record, ⟨⟩⟩ := Option.ite_none_right_eq_some.mp ran
    have backed : Backed { s with records := Function.update s.records k .connected } :=
      ⟨backed.rows, backed.users, backed.before⟩
    refine backed.wrote kept.events rfl (fun r there => Or.inl there) fun j own => ?_
    obtain rfl : k = j := by rcases own with ⟨⟨⟩⟩ | ⟨⟨⟩⟩; rfl
    exact granted_of_record (by rw [record]; simp)
  | logDisconnected k =>
    obtain ⟨⟨_, record⟩, ⟨⟩⟩ := Option.ite_none_right_eq_some.mp ran
    have backed : Backed { s with records := Function.update s.records k .disconnected } :=
      ⟨backed.rows, backed.users, backed.before⟩
    refine backed.wrote kept.events rfl (fun r there => Or.inl there) fun j own => ?_
    obtain rfl : k = j := by rcases own with ⟨⟨⟩⟩ | ⟨⟨⟩⟩; rfl
    exact granted_of_record (by rw [record]; simp)
  | clearUser k =>
    obtain ⟨_, ⟨⟩⟩ := Option.ite_none_right_eq_some.mp ran
    exact ⟨backed.rows, backed.users, backed.before⟩
  | call c =>
    obtain ⟨tables, called, rfl⟩ := Option.map_eq_some_iff.mp ran
    obtain ⟨⟨rows, added⟩, _⟩ := of_call called
    refine backed.wrote kept.events added (users_of_call called) fun j own => ?_
    exact own.elim nofun nofun
  | deleteRow k name =>
    obtain ⟨_, ran⟩ := Option.ite_none_right_eq_some.mp ran
    split at ran
    · rename_i tables deleted
      cases ran
      rcases of_deleteVariableInternal deleted with ⟨⟨⟩, _⟩ | ⟨_, meets, _, rfl⟩
      exact ⟨backed.rows, backed.users, backed.before⟩
    · cases ran
  | logDeletion k =>
    simp only [Audit.step] at ran
    split at ran
    · rename_i name pending
      cases ran
      have backed : Backed { s with deleting := Function.update s.deleting k none } :=
        ⟨backed.rows, backed.users, backed.before⟩
      refine backed.wrote kept.events rfl (fun r there => Or.inl there) fun j own => ?_
      obtain rfl : k = j := by rcases own with ⟨⟨⟩⟩ | ⟨⟨⟩⟩; rfl
      have executing := kept.deleting k name pending
      exact (paced_executing (kept.ordered.control.paced k) executing).1
    · cases ran

theorem start_backed (maxSub : UInt8) : Backed (start maxSub) where
  rows _ member := by cases member
  users _ passed := by cases passed
  before _ _ _ _ split := absurd split.symm (List.append_ne_nil_of_right_ne_nil _ (List.cons_ne_nil _ _))

/-- **Whoever EVENTS names was registered.** Before each row that a connection has written, that its
user is connected, has left or has deleted something, stands the row that says that he was created. -/
theorem users_registered (reached : (system maxSub sql sha).ReachableBy TestsAlone s) (k : Nat)
    (before after : List Entry) (e : Entry) (split : s.log = before ++ e :: after)
    (author : e.writer = .worker k ∨ e.writer = .user k) :
    createdRow (s.users k) ∈ before.map Entry.row := by
  have backed : Backed s := reached.invariant_from (fun _ => reachable_kept)
    (by rintro _ rfl; exact start_backed maxSub) fun _ _ _ kept backed _ ran => backed.step kept ran
  exact backed.before k before e after split author

/-! ## Runs -/

def request : DefaultMessage := ⟨InternalOperation.SYNC_REQUEST.code, 1, some [0]⟩

/-- A connection's worker, from its acceptance to the start of its session, after its test. -/
def opens (k : Nat) (username : CString) : List Action :=
  [.login k username, .setUser k, .logConnected k, .server (.activate k), .server (.startDecode k),
    .server (.startReceive k), .server (.assignReceive k), .server (.startSend k)]

/-- A client's request is received and fetched. -/
def requests (k : Nat) : List Action :=
  [.server (.clientSend k request), .server (.receiverTest k), .server (.receive k),
    .server (.decoderTest k), .server (.fetch k)]

/-- The client goes, and the worker writes down that the user has left. -/
def leaves (k : Nat) : List Action :=
  [.server (.receiverTest k), .server (.disconnect k), .server (.receiverClear k), .server (.stop k),
    .server (.stopWaited k), .logDisconnected k, .clearUser k]

def rootSystem : System State Action := system 0 Sqlite.byText firstBytes

/-- A user and two variables. -/
def prepares : List Action :=
  [.call (.AddUser root pass1), .call (.WriteVariableSys speed pass1 none),
    .call (.WriteVariableSys fast pass1 none)]

/-- While the decode thread deletes two variables for a request, the client goes: the second row names
nobody. -/
def rootRun : List Action :=
  prepares ++ opens 0 root ++ requests 0 ++ [.deleteRow 0 speed, .logDeletion 0] ++ leaves 0 ++
    [.deleteRow 0 fast, .logDeletion 0]

/-- Steps other than a test that finds `server_receive_thread` null. -/
def testsNothing (s : State) : Action → Bool
  | .server (.test ..) => s.server.receiveThread.isSome
  | _ => true

theorem rootRun_reached : ∃ s, rootSystem.ReachableBy TestsAlone s ∧
    s.log.map Entry.writer = [.other, .worker 0, .user 0, .worker 0, .user 0] ∧
    s.log.getLast?.map Entry.row = some ⟨[], .VAR_DELETE, fast.bytes⟩ := by
  let accepted : State := { start 0 with
    server := { Server.start 0 with workers := Function.update (Server.start 0).workers 0 .accepted } }
  have arrived : rootSystem.ReachableBy TestsAlone accepted :=
    (System.ReachableBy.init rfl).step (a := Action.server (.accept 0)) trivial rfl
  have tested : rootSystem.ReachableBy TestsAlone { accepted with
      server := { accepted.server with
        workers := Function.update accepted.server.workers 0 .authenticating } } := by
    refine arrived.step (a := Action.server (.test 0 true)) (fun _ _ j => ?_) rfl
    by_cases first : j = 0 <;> simp [accepted, Server.start, first, WorkerPhase.opening]
  exact tested.exists_replay (fun s a (met : testsNothing s a = true) => by
    cases a with
    | server b =>
      cases b with
      | test => exact fun _ null => by simp [testsNothing, null] at met
      | _ => trivial
    | _ => trivial) rootRun (by decide +kernel)

/-- A user is connected, deletes a variable and leaves, and a variable is deleted in no name. -/
theorem events_of_visits_root : ∃ s : State,
    s.log.map Entry.writer = [.other, .worker 0, .user 0, .worker 0, .user 0] ∧
    s.log.map Entry.row = s.tables.EVENTS ∧
    ∃ visits : List Visit, s.log.filter Entry.audited = visits.flatMap Visit.rows ∧
      (visits.map Visit.connection).Nodup ∧ (∀ v ∈ visits, v.user = s.users v.connection) ∧
      ∀ v ∈ visits.dropLast, v.left ≠ none := by
  obtain ⟨s, reached, writers, _⟩ := rootRun_reached
  exact ⟨s, writers, events_of_visits reached⟩

/-- Before the deletion by the user of connection 0 stands the row that says that he was created. -/
theorem users_registered_root : ∃ (s : State) (before after : List Entry) (e : Entry),
    s.log = before ++ e :: after ∧ e.writer = .user 0 ∧
      createdRow (s.users 0) ∈ before.map Entry.row := by
  obtain ⟨s, reached, writers, _⟩ := rootRun_reached
  obtain ⟨created, rest, split, _, later⟩ := List.map_eq_cons_iff.mp writers
  obtain ⟨connected, rest', split', _, later'⟩ := List.map_eq_cons_iff.mp later
  obtain ⟨deleted, rest'', split'', author, _⟩ := List.map_eq_cons_iff.mp later'
  have parts : s.log = [created, connected] ++ deleted :: rest'' := by
    rw [split, split', split'']
    rfl
  exact ⟨s, [created, connected], rest'', deleted, parts, author,
    users_registered reached 0 _ _ _ parts (Or.inr author)⟩

/-- **The condition is needed.** Two workers pass the test together, and what the user of one deletes is
put down to the user of the other. -/
theorem deletion_of_other_user : ∃ s, rootSystem.Reachable s ∧
    s.log.getLast? = some (deletionRow 0 other2.bytes speed.bytes) ∧ s.users 0 = root.bytes :=
  System.exists_reachable_of_replay (s := start 0) rfl
    ([.server (.accept 0), .server (.accept 1), .server (.test 0 true), .server (.test 1 true)] ++
      prepares ++ [.call (.AddUser other2 pass1)] ++ opens 0 root ++ requests 0 ++
      [.login 1 other2, .setUser 1, .deleteRow 0 speed, .logDeletion 0]) (by decide +kernel)

end DCScan.Audit
