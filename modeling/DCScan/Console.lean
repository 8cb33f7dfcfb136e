import DCScan.Credentials
import DCScan.Lib.System
import DCScan.Queries
import DCScan.Suggestions

/-!
The console of the server: the loop of `CLI::Spin`, the commands it runs, and what is typed.

One action is one turn of the loop. Words are read with `std::cin >>`, which leaves its string alone
when the input has ended: the loop then runs the last command again and again, and what a command reads
is empty. Other threads write to the tables between the turns, but not to the table of the users.
-/

namespace DCScan.CLI

open Lib RDB
open Credentials (nameIn Cipher LetsIn accounts Matches)

inductive CommandName where
  | addusr | delusr | help | lstusr | stop | uptime
  deriving DecidableEq, Repr

/-- `cmd_name`. -/
def CommandName.cmd_name : CommandName → List UInt8
  | addusr => ascii "addusr"
  | delusr => ascii "delusr"
  | help => ascii "help"
  | lstusr => ascii "lstusr"
  | stop => ascii "stop"
  | uptime => ascii "uptime"

/-- `cmd_reg`, in the order of its keys. -/
def cmd_reg : List CommandName := [.addusr, .delusr, .help, .lstusr, .stop, .uptime]

/-- `Command::Get`. -/
def Get (name : List UInt8) : Option CommandName := cmd_reg.find? (·.cmd_name = name)

structure Console where
  /-- The words that are still to be typed; then the input ends. -/
  stdin : List (List UInt8)
  cmd_str : List UInt8
  /-- `SetStdinEcho`. -/
  echo : Bool
  brk : Bool
  db : Tables
  /-- Every word that was read, and whether it was echoed. -/
  typed : List (List UInt8 × Bool)
  /-- The calls that change the users. -/
  calls : List UserCall

namespace Console

/-- `std::cin >> s`, with what `s` holds before. -/
def read (c : Console) (s : List UInt8) : List UInt8 × Console :=
  match c.stdin with
  | word :: rest => (word, { c with stdin := rest, typed := c.typed ++ [(word, c.echo)] })
  | [] => (s, c)

def SetStdinEcho (c : Console) (enable : Bool) : Console := { c with echo := enable }

/-- What the console sees of the server. -/
structure Server where
  IsRunning : Bool
  /-- `GetConnectedClient() != INVALID_SOCKET`. -/
  connected : Bool

section

variable (sql : Sqlite) (sha : Digest)

def call (c : Console) (call : UserCall) : Option Console :=
  (c.db.userCall sql sha call).map fun db => { c with db := db, calls := c.calls ++ [call] }

def stop (c : Console) (server : Server) : Console :=
  if server.IsRunning then
    if server.connected then
      let (s, c) := c.read []
      -- `s[0]` of an empty string is its terminator
      if s.head? = some 121 then { c with brk := true } else c
    else c
  else { c with brk := true }

def addusr (c : Console) : Option Console :=
  let (username, c) := c.read []
  let (password, c) := (c.SetStdinEcho false).read []
  let (password_v, c) := c.read []
  let c := c.SetStdinEcho true
  if password ≠ password_v then some c
  else c.call sql sha (.AddUser (nameIn username) (nameIn password))

def delusr (c : Console) : Option Console :=
  let (username, c) := c.read []
  (GetUser sql c.db (nameIn username)).bind fun u =>
    if u.u = invalidUser then some c else c.call sql sha (.RemoveUser (nameIn username))

def Run (server : Server) (c : Console) : CommandName → Option Console
  | .addusr => c.addusr sql sha
  | .delusr => c.delusr sql sha
  | .lstusr => (Queries.GetAllUsers c.db).map fun _ => c
  | .stop => some (c.stop server)
  | .help | .uptime => some c

end

end Console

inductive Action where
  /-- A turn of the loop of `Spin`; `memory` is what each comparison of a suggestion depends on. -/
  | turn (server : Console.Server) (memory : Nat → Memory)
  /-- What other threads write. -/
  | others (VARIABLES : List VariableRow) (EVENTS : List EventRow) (authenticated : List UInt8)

section

variable (sql : Sqlite) (sha : Digest)

/-- `none` is also undefined behaviour: of a command, or of the suggestion when there is none. -/
def step (c : Console) : Action → Option Console
  | .turn server memory =>
    if c.brk then none else
    let (cmd_str, c) := c.read c.cmd_str
    let c := { c with cmd_str := cmd_str }
    match Get cmd_str with
    | some cmd => c.Run sql sha server cmd
    | none =>
      ((Closest memory (cmd_reg.map CommandName.cmd_name) cmd_str).bind id).map fun _ => c
  | .others VARIABLES EVENTS authenticated =>
    some { c with db := { c.db with
      VARIABLES := VARIABLES, EVENTS := EVENTS, authenticatedUsername := authenticated } }

/-- `Spin` on a new database. -/
def Spin (words : List (List UInt8)) : System Console Action where
  init c := c = ⟨words, [], true, false, CreateTables, [], []⟩
  step := step sql sha

end

/-- The name was typed and seen, then the password twice and unseen. -/
def Typed (typed : List (List UInt8 × Bool)) (username password : CString) : Prop :=
  ∃ u p, nameIn u = username ∧ nameIn p = password ∧ [(u, true), (p, false), (p, false)] <:+: typed

variable {sql : Sqlite} {sha : Digest} {words : List (List UInt8)} {c t : Console} {a : Action}
variable {calls : List UserCall} {k : List UInt8} {username password : CString}

/-! ## Passwords that stand -/

/-- A password that stands is that of an accepted registration. -/
theorem registered_of_passwordsOf (there : passwordsOf calls k = some password) :
    ∃ username : CString, username.bytes = k ∧ .AddUser username password ∈ calls ∧
      Acceptable username password := by
  induction calls using List.reverseRecOn with
  | nil => cases there
  | append_singleton calls call ih =>
    have older (before : passwordsOf calls k = some password) :
        ∃ username : CString, username.bytes = k ∧ .AddUser username password ∈ calls ++ [call] ∧
          Acceptable username password := by
      obtain ⟨username, same, member, acceptable⟩ := ih before
      exact ⟨username, same, List.mem_append_left _ member, acceptable⟩
    rw [passwordsOf_concat] at there
    cases call with
    | AddUser username password' =>
      simp only [Passwords.call] at there
      split at there
      · rename_i acceptable
        by_cases known : passwordsOf calls k = none ∧ k = username.bytes
        · obtain ⟨absent, rfl⟩ := known
          rw [emplace_self, absent] at there
          cases there
          exact ⟨username, rfl, by simp, acceptable⟩
        · apply older
          by_cases named : k = username.bytes
          · obtain ⟨old, before⟩ : ∃ old, passwordsOf calls k = some old :=
              Option.ne_none_iff_exists'.mp fun absent => known ⟨absent, named⟩
            subst named
            rw [emplace_self, before] at there
            rw [before]
            exact there
          · rwa [emplace_other named] at there
      · exact older there
    | RemoveUser username =>
      simp only [Passwords.call] at there
      by_cases named : k = username.bytes
      · rw [named, erase_self] at there
        cases there
      · rw [erase_other named] at there
        exact older there

/-! ## What a turn reads -/

/-- What reading a word does. -/
structure Reads (c t : Console) : Prop where
  left : t.stdin <:+ c.stdin
  typed : c.typed <+: t.typed
  db : t.db = c.db
  calls : t.calls = c.calls
  echo : t.echo = c.echo
  brk : t.brk = c.brk

theorem reads_read (c : Console) (s : List UInt8) : Reads c (c.read s).2 := by
  unfold Console.read
  split
  · rename_i word rest there
    exact ⟨⟨[word], by simp [there]⟩, List.prefix_append _ _, rfl, rfl, rfl, rfl⟩
  · exact ⟨List.suffix_rfl, List.prefix_rfl, rfl, rfl, rfl, rfl⟩

/-- A word that was read, or what was there before. -/
theorem read_cases (c : Console) (s : List UInt8) :
    (∃ rest, c.stdin = (c.read s).1 :: rest ∧ (c.read s).2.stdin = rest ∧
      (c.read s).2.typed = c.typed ++ [((c.read s).1, c.echo)]) ∨
    (c.stdin = [] ∧ (c.read s).1 = s ∧ (c.read s).2 = c) := by
  unfold Console.read
  split
  · rename_i word rest there
    exact .inl ⟨rest, there, rfl, rfl⟩
  · rename_i ended
    exact .inr ⟨ended, rfl, rfl⟩

theorem Typed.mono {typed later : List (List UInt8 × Bool)} (was : Typed typed username password)
    (more : typed <+: later) : Typed later username password := by
  obtain ⟨u, p, name, word, there⟩ := was
  exact ⟨u, p, name, word, there.trans more.isInfix⟩

/-! ## What the turns keep -/

/-- The table of the users is that of the calls. -/
def Users (sha : Digest) (db : Tables) (calls : List UserCall) : Prop :=
  ∃ m, Registered sha db m ∧ ∀ k ≠ invalidUser, m k = passwordsOf calls k

structure Inv (sha : Digest) (words : List (List UInt8)) (c : Console) : Prop where
  echo : c.echo = true
  left : c.stdin <:+ words
  users : Users sha c.db c.calls
  typed : ∀ username password, .AddUser username password ∈ c.calls →
    Acceptable username password → Typed c.typed username password

/-- What is read is of the input, or empty. -/
theorem Inv.read_mem (inv : Inv sha words c) : (c.read []).1 ∈ [] :: words := by
  rcases read_cases c [] with ⟨rest, there, _⟩ | ⟨_, nothing, _⟩
  · exact List.mem_cons_of_mem _ (inv.left.mem (by rw [there]; exact List.mem_cons_self))
  · rw [nothing]
    exact List.mem_cons_self

/-- A command that only reads. -/
theorem Inv.of_reads (inv : Inv sha words c) (reads : Reads c t) : Inv sha words t where
  echo := reads.echo.trans inv.echo
  left := reads.left.trans inv.left
  users := by
    rw [reads.db, reads.calls]
    exact inv.users
  typed username password member acceptable :=
    (inv.typed username password (reads.calls ▸ member) acceptable).mono reads.typed

theorem Inv.call (inv : Inv sha words c) {call : UserCall} (exact : sql.SelectsUser call.username)
    (typed : ∀ username password, call = .AddUser username password →
      Acceptable username password → Typed c.typed username password)
    (ran : c.call sql sha call = some t) : Inv sha words t := by
  obtain ⟨db, stepped, rfl⟩ := Option.map_eq_some_iff.mp ran
  obtain ⟨m, held, agree⟩ := inv.users
  obtain ⟨db', stepped', after⟩ := Credentials.registered_act held exact
  cases stepped.symm.trans stepped'
  refine ⟨inv.echo, inv.left, ⟨_, after, fun k other => ?_⟩, fun username password member acceptable => ?_⟩
  · rw [passwordsOf_concat]
    exact Credentials.act_agrees agree other
  · rcases List.mem_append.mp member with before | new
    · exact inv.typed username password before acceptable
    · exact typed username password (List.mem_singleton.mp new).symm acceptable

/-- What `addusr` reads, behind which it echoes again. -/
theorem reads_addusr (inv : Inv sha words c) : Reads c
    (((((c.read []).2.SetStdinEcho false).read []).2.read []).2.SetStdinEcho true) := by
  have name := reads_read c []
  have first := reads_read ((c.read []).2.SetStdinEcho false) []
  have second := reads_read (((c.read []).2.SetStdinEcho false).read []).2 []
  exact ⟨(second.left.trans first.left).trans name.left,
    (name.typed.trans first.typed).trans second.typed, (second.db.trans first.db).trans name.db,
    (second.calls.trans first.calls).trans name.calls, inv.echo.symm,
    (second.brk.trans first.brk).trans name.brk⟩

/-- A password that was not typed twice is empty. -/
theorem typed_addusr (echo : c.echo = true) {username password password_v : List UInt8}
    {c1 c2 c3 : Console} (name : c.read [] = (username, c1))
    (first : (c1.SetStdinEcho false).read [] = (password, c2))
    (second : c2.read [] = (password_v, c3)) (same : password = password_v) :
    password = [] ∨ [(username, true), (password, false), (password, false)] <:+ c3.typed := by
  subst same
  have echo1 : c1.echo = true := by
    have kept := (reads_read c []).echo
    rw [name] at kept
    exact kept.trans echo
  have echo2 : c2.echo = false := by
    have kept := (reads_read (c1.SetStdinEcho false) []).echo
    rwa [first] at kept
  rcases read_cases c2 [] with ⟨rest, there, _, typed⟩ | ⟨_, nothing, _⟩
  · -- there was a word for the last read, so there was one for each before it
    right
    rcases read_cases (c1.SetStdinEcho false) [] with ⟨rest', there', _, typed'⟩ | ⟨ended, _, same⟩
    · rcases read_cases c [] with ⟨_, _, _, typed''⟩ | ⟨ended, _, same⟩
      · rw [name] at typed''
        rw [first] at typed'
        rw [second] at typed
        refine ⟨c.typed, ?_⟩
        rw [typed, typed', show (c1.SetStdinEcho false).typed = c1.typed from rfl, typed'', echo, echo2]
        simp [Console.SetStdinEcho]
      · rw [name] at same
        subst same
        rw [show (c1.SetStdinEcho false).stdin = c1.stdin from rfl, ended] at there'
        cases there'
    · rw [first] at same
      subst same
      rw [ended] at there
      cases there
  · rw [second] at nothing
    exact .inl nothing

/-- A command keeps what it is to keep. -/
theorem Inv.addusr (inv : Inv sha words c) (exact : ∀ word ∈ [] :: words, sql.SelectsUser (nameIn word))
    (ran : c.addusr sql sha = some t) : Inv sha words t := by
  have reads := reads_addusr inv
  have known := exact _ inv.read_mem
  unfold Console.addusr at ran
  rcases name : c.read [] with ⟨username, c1⟩
  rcases first : (c1.SetStdinEcho false).read [] with ⟨password, c2⟩
  rcases second : c2.read [] with ⟨password_v, c3⟩
  simp only [name, first, second] at ran reads known
  have after := inv.of_reads reads
  split at ran
  · cases ran
    exact after
  · rename_i same
    rw [ne_eq, not_not] at same
    refine after.call known (fun name' word made acceptable => ?_) ran
    cases made
    rcases typed_addusr inv.echo name first second same with empty | typed
    · rw [empty] at acceptable
      exact absurd acceptable.2.2.2.1 (by simp [nameIn, cStr])
    · exact ⟨username, password, rfl, rfl, typed.isInfix⟩

theorem Inv.delusr (inv : Inv sha words c) (exact : ∀ word ∈ [] :: words, sql.SelectsUser (nameIn word))
    (ran : c.delusr sql sha = some t) : Inv sha words t := by
  have after := inv.of_reads (reads_read c [])
  have known := exact _ inv.read_mem
  unfold Console.delusr at ran
  obtain ⟨u, _, ran⟩ := Option.bind_eq_some_iff.mp ran
  split at ran
  · cases ran
    exact after
  · exact after.call known (fun _ _ made => by cases made) ran

theorem Inv.stop (inv : Inv sha words c) (server : Console.Server) : Inv sha words (c.stop server) := by
  have reads := inv.of_reads (reads_read c [])
  unfold Console.stop
  split
  · split
    · dsimp only
      split
      · exact ⟨reads.echo, reads.left, reads.users, reads.typed⟩
      · exact reads
    · exact inv
  · exact ⟨inv.echo, inv.left, inv.users, inv.typed⟩

theorem Inv.run (inv : Inv sha words c) (exact : ∀ word ∈ [] :: words, sql.SelectsUser (nameIn word))
    {server : Console.Server} {cmd : CommandName} (ran : c.Run sql sha server cmd = some t) :
    Inv sha words t := by
  cases cmd with
  | addusr => exact inv.addusr exact ran
  | delusr => exact inv.delusr exact ran
  | lstusr =>
    obtain ⟨_, _, rfl⟩ := Option.map_eq_some_iff.mp ran
    exact inv
  | stop =>
    cases ran
    exact inv.stop server
  | help | uptime =>
    cases ran
    exact inv

theorem inv_step (inv : Inv sha words c) (exact : ∀ word ∈ [] :: words, sql.SelectsUser (nameIn word))
    (ran : step sql sha c a = some t) : Inv sha words t := by
  cases a with
  | turn server memory =>
    simp only [step] at ran
    split at ran
    · cases ran
    · have read := inv.of_reads (reads_read c c.cmd_str)
      have named : Inv sha words { (c.read c.cmd_str).2 with cmd_str := (c.read c.cmd_str).1 } :=
        ⟨read.echo, read.left, read.users, read.typed⟩
      split at ran
      · exact named.run exact ran
      · obtain ⟨_, _, rfl⟩ := Option.map_eq_some_iff.mp ran
        exact named
  | others VARIABLES EVENTS authenticated =>
    cases ran
    obtain ⟨m, held, agree⟩ := inv.users
    exact ⟨inv.echo, inv.left, ⟨m, ⟨held.unique, held.agrees, held.names, held.ids⟩, agree⟩, inv.typed⟩

theorem reachable_inv (exact : ∀ word ∈ [] :: words, sql.SelectsUser (nameIn word))
    (reached : (Spin sql sha words).Reachable c) : Inv sha words c := by
  refine reached.invariant ?_ fun _ _ _ inv ran => inv_step inv exact ran
  rintro _ rfl
  exact ⟨rfl, List.suffix_rfl, ⟨_, registered_createTables, fun _ _ => rfl⟩, fun _ _ member => by cases member⟩

/-- **Who is let in was typed at the console.** However the commands and their words follow each other,
and whatever other threads write, the console echoes at every prompt, and a peer is let in exactly with
the name and the password of a registration that stands: the name was typed at the console, and then
the password twice and unseen. -/
theorem console_login (cipher : Cipher)
    (exact : ∀ word ∈ [] :: words, sql.SelectsUser (nameIn word))
    (reached : (Spin sql sha words).Reachable c) :
    c.echo = true ∧ LetsIn sql sha cipher c.calls c.db ∧
      ∀ challenge received username, received.length = 80 → 0 ∈ received.take 32 →
        cStr (received.take 32) = username.bytes → sql.SelectsUser username →
        (accounts sql sha cipher c.db).Authenticate challenge received = .accepted →
        ∃ password, Typed c.typed username password ∧
          cipher.result challenge.r (sha.SHA256Str password.bytes) challenge.iv =
            (received.drop 32).take 32 := by
  have inv := reachable_inv exact reached
  obtain ⟨m, held, agree⟩ := inv.users
  have lets : LetsIn sql sha cipher c.calls c.db := Credentials.letsIn_of_registered held agree
  refine ⟨inv.echo, lets, fun challenge received username whole ends named exactly accepted => ?_⟩
  obtain ⟨_, password, there, same⟩ :=
    (lets.peer challenge received username whole ends named exactly).mp accepted
  obtain ⟨name, bytes, member, acceptable⟩ := registered_of_passwordsOf there
  have only : name = username := by
    cases name
    cases username
    simpa using bytes
  subst only
  exact ⟨password, inv.typed name password member acceptable, same⟩

/-- A user is added, and then looked for. -/
theorem console_login_root : ∃ c : Console, c.calls = [.AddUser root pass1] ∧ c.echo = true ∧
    LetsIn Sqlite.byText firstBytes Credentials.adding c.calls c.db ∧
      ∀ challenge received username, received.length = 80 → 0 ∈ received.take 32 →
        cStr (received.take 32) = username.bytes → Sqlite.byText.SelectsUser username →
        (accounts Sqlite.byText firstBytes Credentials.adding c.db).Authenticate challenge received =
          .accepted →
        ∃ password, Typed c.typed username password ∧
          Credentials.adding.result challenge.r (firstBytes.SHA256Str password.bytes) challenge.iv =
            (received.drop 32).take 32 := by
  let words : List (List UInt8) := [ascii "addusr", root.bytes, pass1.bytes, pass1.bytes,
    ascii "delusr", ascii "nobody"]
  let server : Console.Server := ⟨false, false⟩
  let memory : Nat → Memory := fun _ => ⟨true, fun _ _ => 0, fun _ => 0, fun _ => 0⟩
  have added : ∃ c, (Spin Sqlite.byText firstBytes words).Reachable c ∧
      c.calls = [.AddUser root pass1] :=
    System.exists_reachable_of_replay rfl [.turn server memory, .turn server memory] (by decide +kernel)
  obtain ⟨c, reached, calls⟩ := added
  exact ⟨c, calls, console_login Credentials.adding (fun _ _ => byText_selectsUser _) reached⟩

end DCScan.CLI
