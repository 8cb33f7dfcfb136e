import DCScan.Login

/-!
The receive loops of the handshake: `sz += ReceiveData(s, &buf[sz], n - sz)` until the buffer is full.

A result of zero or less enters the sum like any other. `Handshake` and `Inbound` take the bytes as they
come; here is the loop that asks for them, and what becomes of it when the peer closes or resets.
-/

namespace DCScan.Receiving

open Lib

/-- What `recv` comes to. -/
inductive Recv where
  | data (bytes : List UInt8)
  /-- The peer has closed. -/
  | closed
  | failed
  deriving DecidableEq, Repr

/-- The bytes that it has written. -/
def Recv.bytes : Recv → List UInt8
  | data bytes => bytes
  | closed => []
  | failed => []

/-- What `ReceiveData` returns. -/
def ReceiveData : Recv → Int
  | .data bytes => bytes.length
  | .closed => 0
  | .failed => -1

/-- The four loops, by their buffers. -/
inductive Buffer where
  | username_buff
  | aes_buff
  | r
  | iv
  deriving DecidableEq, Repr

/-- How many bytes each takes. -/
def Buffer.size : Buffer → Nat
  | username_buff => 32
  | aes_buff => 48
  | r => 32
  | iv => 16

/-- A loop's variables. -/
structure Loop where
  buff : List UInt8
  /-- `username_buff_size` and its like, an `i32`. -/
  sz : Int
  deriving DecidableEq, Repr

/-- The length that the loop's next call asks for. -/
def Loop.asked (l : Loop) (n : Nat) : Int := signed 32 (n - l.sz)

/-- One turn; `none` when bytes are written outside the buffer. -/
def Loop.turn (l : Loop) (got : Recv) : Option Loop :=
  let sz := signed 32 (l.sz + ReceiveData got)
  if got.bytes = [] then some ⟨l.buff, sz⟩
  else (store l.buff l.sz got.bytes).map fun buff => ⟨buff, sz⟩

/-- The loop after the first `k` results, or after as many of them as it has asked for. -/
def loopAfter (n : Nat) (buff : List UInt8) (results : Nat → Recv) : Nat → Option Loop
  | 0 => some ⟨buff, 0⟩
  | k + 1 => (loopAfter n buff results k).bind fun l => if l.sz < n then l.turn (results k) else some l

/-- What `recv` can return: no more than was asked for, and what ends a connection again and again. -/
structure Allowed (n : Nat) (buff : List UInt8) (results : Nat → Recv) : Prop where
  data : ∀ k l bytes, loopAfter n buff results k = some l → l.sz < n → results k = .data bytes →
    0 < bytes.length ∧ (bytes.length : Int) ≤ l.asked n
  closed : ∀ k, results k = .closed → results (k + 1) = .closed
  failed : ∀ k, results k = .failed → results (k + 1) = .failed

/-- The bytes of the first `k` results. -/
def received (results : Nat → Recv) : Nat → List UInt8
  | 0 => []
  | k + 1 => received results k ++ (results k).bytes

variable {n k m : Nat} {buff rcv bytes : List UInt8} {results : Nat → Recv} {l : Loop}

/-! ## A turn -/

/-- The loop holds these bytes at the front of its buffer. -/
structure Loop.Holds (l : Loop) (n : Nat) (rcv : List UInt8) : Prop where
  sz : l.sz = rcv.length
  block : l.buff.length = n
  front : l.buff.take rcv.length = rcv

theorem Loop.Holds.fits (holds : l.Holds n rcv) : rcv.length ≤ n := by
  have := congrArg List.length holds.front
  rw [List.length_take, holds.block] at this
  omega

theorem holds_start (block : buff.length = n) : Loop.Holds ⟨buff, 0⟩ n [] := by
  constructor
  · rfl
  · exact block
  · rfl

/-- What a loop that holds bytes asks for is what is left of its buffer. -/
theorem Loop.Holds.asked (holds : l.Holds n rcv) (small : n < 2 ^ 31) : l.asked n = n - rcv.length := by
  have fits := holds.fits
  rw [Loop.asked, holds.sz, signed_of_range] <;> omega

/-- Bytes that were asked for are appended. -/
theorem turn_data (small : n < 2 ^ 31) (holds : l.Holds n rcv) (some' : 0 < bytes.length)
    (few : (bytes.length : Int) ≤ l.asked n) :
    ∃ next, l.turn (.data bytes) = some next ∧ next.Holds n (rcv ++ bytes) := by
  rw [holds.asked small] at few
  have fits : rcv.length + bytes.length ≤ l.buff.length := by
    rw [holds.block]
    omega
  obtain ⟨written, stored, length, front⟩ := store_append l.buff bytes rcv.length fits
  have nonempty : bytes ≠ [] := List.ne_nil_of_length_pos some'
  have sum : signed 32 (l.sz + bytes.length) = (rcv ++ bytes).length := by
    rw [holds.block] at fits
    rw [holds.sz, List.length_append, signed_of_range] <;> push_cast <;> omega
  refine ⟨⟨written, (rcv ++ bytes).length⟩, ?_, rfl, length.trans holds.block, ?_⟩
  · rw [Loop.turn, ReceiveData, sum]
    rw [← holds.sz] at stored
    simp [Recv.bytes, nonempty, stored]
  · rw [List.length_append, front, holds.front]

/-- A turn without bytes leaves the buffer. -/
theorem turn_end {got : Recv} (ended : ReceiveData got ≤ 0) :
    l.turn got = some ⟨l.buff, signed 32 (l.sz + ReceiveData got)⟩ := by
  have none : got.bytes = [] := by
    cases got with
    | data bytes => simpa [ReceiveData, Recv.bytes] using ended
    | closed => rfl
    | failed => rfl
  rw [Loop.turn]
  simp [none]

theorem receiveData_end {got : Recv} (empty : ∀ bytes, got ≠ .data bytes) : ReceiveData got ≤ 0 := by
  cases got with
  | data bytes => exact absurd rfl (empty bytes)
  | closed => exact le_rfl
  | failed => exact by decide

/-! ## The whole loop -/

theorem loopAfter_succ (state : loopAfter n buff results k = some l) :
    loopAfter n buff results (k + 1) = if l.sz < n then l.turn (results k) else some l := by
  rw [loopAfter, state, Option.bind_some]

/-- While bytes come and there is room, they are appended. -/
theorem loopAfter_data (small : n < 2 ^ 31) (block : buff.length = n)
    (allowed : Allowed n buff results)
    (come : ∀ j < k, 0 < ReceiveData (results j) ∧ (received results j).length < n) :
    ∃ l, loopAfter n buff results k = some l ∧ l.Holds n (received results k) := by
  induction k with
  | zero => exact ⟨_, rfl, holds_start block⟩
  | succ k ih =>
    obtain ⟨l, state, holds⟩ := ih fun j before => come j (by omega)
    obtain ⟨positive, room⟩ := come k (by omega)
    have open' : l.sz < n := by
      rw [holds.sz]
      exact_mod_cast room
    cases result : results k with
    | closed => simp [result, ReceiveData] at positive
    | failed => simp [result, ReceiveData] at positive
    | data bytes =>
      obtain ⟨some', few⟩ := allowed.data k l bytes state open' result
      obtain ⟨next, turned, holds'⟩ := turn_data small holds some' few
      refine ⟨next, ?_, ?_⟩
      · rw [loopAfter_succ state, if_pos open', result, turned]
      · rwa [received, result]

/-- What ends a connection stays. -/
theorem Allowed.stays (allowed : Allowed n buff results) (empty : ∀ bytes, results m ≠ .data bytes)
    (later : m ≤ k) : results k = results m := by
  induction k, later using Nat.le_induction with
  | base => rfl
  | succ k _ ih =>
    cases first : results m with
    | data bytes => exact absurd first (empty bytes)
    | closed => exact allowed.closed k (ih.trans first)
    | failed => exact allowed.failed k (ih.trans first)

/-- An open loop gets bytes, or the connection has ended. -/
theorem Allowed.not_data (allowed : Allowed n buff results)
    (state : loopAfter n buff results m = some l) (open' : l.sz < n)
    (ended : ReceiveData (results m) ≤ 0) (bytes : List UInt8) : results m ≠ .data bytes := by
  intro data
  have positive := (allowed.data m l bytes state open' data).1
  rw [data, ReceiveData] at ended
  omega

/-- Either the loop holds what has come, or the connection has ended. -/
theorem loopAfter_inside (small : n < 2 ^ 31) (block : buff.length = n)
    (allowed : Allowed n buff results) (k : Nat) :
    ∃ l, loopAfter n buff results k = some l ∧
      ((∃ rcv, l.Holds n rcv) ∨ ∃ m < k, ∀ bytes, results m ≠ .data bytes) := by
  induction k with
  | zero => exact ⟨_, rfl, .inl ⟨[], holds_start block⟩⟩
  | succ k ih =>
    obtain ⟨l, state, known⟩ := ih
    rw [loopAfter_succ state]
    by_cases open' : l.sz < n
    · rw [if_pos open']
      by_cases ended : ReceiveData (results k) ≤ 0
      · exact ⟨_, turn_end ended, .inr ⟨k, by omega, allowed.not_data state open' ended⟩⟩
      · rcases known with ⟨rcv, holds⟩ | ⟨m, before, empty⟩
        · cases result : results k with
          | closed => simp [result, ReceiveData] at ended
          | failed => simp [result, ReceiveData] at ended
          | data bytes =>
            obtain ⟨some', few⟩ := allowed.data k l bytes state open' result
            obtain ⟨next, turned, holds'⟩ := turn_data small holds some' few
            exact ⟨next, turned, .inl ⟨_, holds'⟩⟩
        · rw [allowed.stays empty (by omega)] at ended
          exact absurd (receiveData_end empty) ended
    · rw [if_neg open']
      refine ⟨l, rfl, known.imp id ?_⟩
      rintro ⟨m, before, empty⟩
      exact ⟨m, by omega, empty⟩

/-! ## Bounded and ending -/

/-- The loop writes inside its buffer and stops: with a full buffer, or with the first result that is
not positive. -/
structure Bounded (n : Nat) (buff : List UInt8) (results : Nat → Recv) : Prop where
  inside : ∀ k, (loopAfter n buff results k).isSome
  ends : ∃ k l, loopAfter n buff results k = some l ∧ (n : Int) ≤ l.sz ∧
    ∀ j, j + 1 < k → 0 < ReceiveData (results j)

/-- The bytes that fill the buffer come before the connection ends. -/
def Fills (n : Nat) (results : Nat → Recv) : Prop :=
  ∃ k, (∀ j < k, 0 < ReceiveData (results j)) ∧ n ≤ (received results k).length

/-- A filled buffer holds the first `n` bytes. -/
theorem loopAfter_full (small : n < 2 ^ 31) (block : buff.length = n)
    (allowed : Allowed n buff results) (fills : Fills n results) :
    ∃ k, (∀ j < k, 0 < ReceiveData (results j)) ∧ (received results k).length = n ∧
      loopAfter n buff results k = some ⟨received results k, n⟩ := by
  classical
  obtain ⟨first, ⟨come, full⟩, least⟩ : ∃ first, ((∀ j < first, 0 < ReceiveData (results j)) ∧
      n ≤ (received results first).length) ∧
      ∀ j < first, ¬ ((∀ i < j, 0 < ReceiveData (results i)) ∧ n ≤ (received results j).length) :=
    ⟨Nat.find fills, Nat.find_spec fills, fun _ => Nat.find_min fills⟩
  have room (j : Nat) (before : j < first) : (received results j).length < n := by
    by_contra filled
    exact least j before ⟨fun i earlier => come i (by omega), by omega⟩
  obtain ⟨⟨buff', sz⟩, state, holds⟩ :=
    loopAfter_data small block allowed fun j before => ⟨come j before, room j before⟩
  have exactly : (received results first).length = n := Nat.le_antisymm holds.fits full
  have front := holds.front
  have held : buff'.length = n := holds.block
  rw [exactly, ← held, List.take_length] at front
  have total : sz = n := by rw [← exactly]; exact holds.sz
  exact ⟨first, come, exactly, by rw [state, total, ← front]⟩

/-- A loop of the handshake is bounded and ends when its buffer is filled before the connection ends,
and only then. -/
theorem bounded_iff (positive : 0 < n) (small : n < 2 ^ 31) (block : buff.length = n)
    (allowed : Allowed n buff results) : Bounded n buff results ↔ Fills n results := by
  constructor
  · rintro ⟨-, k, l, state, full, come⟩
    by_contra short
    have room {j : Nat} (first : ∀ i < j, 0 < ReceiveData (results i)) :
        (received results j).length < n := by
      by_contra filled
      exact short ⟨j, first, by omega⟩
    cases k with
    | zero =>
      obtain rfl := Option.some.inj state
      simp only at full
      omega
    | succ k =>
      have come' (j : Nat) (before : j < k) : 0 < ReceiveData (results j) := come j (by omega)
      obtain ⟨l', state', holds⟩ := loopAfter_data small block allowed fun j before =>
        ⟨come' j before, room fun i earlier => come' i (by omega)⟩
      have rest := room come'
      have open' : l'.sz < n := by
        rw [holds.sz]
        exact_mod_cast rest
      rw [loopAfter_succ state', if_pos open'] at state
      by_cases ended : ReceiveData (results k) ≤ 0
      · -- The result of zero or less leaves the sum below `n`, so the loop goes on.
        rw [turn_end ended] at state
        obtain rfl := Option.some.inj state
        have least : -1 ≤ ReceiveData (results k) := by
          unfold ReceiveData
          split <;> omega
        simp only at full
        rw [holds.sz, signed_of_range] at full <;> omega
      · have all (j : Nat) (before : j < k + 1) : 0 < ReceiveData (results j) := by
          rcases Nat.lt_succ_iff_lt_or_eq.mp before with earlier | rfl
          · exact come' j earlier
          · omega
        obtain ⟨l'', state'', holds'⟩ := loopAfter_data small block allowed fun j before =>
          ⟨all j before, room fun i earlier => all i (by omega)⟩
        rw [loopAfter_succ state', if_pos open', state] at state''
        obtain rfl := Option.some.inj state''
        rw [holds'.sz] at full
        have := room all
        omega
  · intro fills
    refine ⟨fun k => ?_, ?_⟩
    · obtain ⟨l, state, -⟩ := loopAfter_inside small block allowed k
      rw [state, Option.isSome_some]
    · obtain ⟨k, come, -, state⟩ := loopAfter_full small block allowed fills
      exact ⟨k, _, state, le_rfl, fun j before => come j (by omega)⟩

/-! ## What happens instead -/

/-- After an orderly close the loop turns without moving. -/
theorem closed_stuck (small : n < 2 ^ 31) (allowed : Allowed n buff results)
    (state : loopAfter n buff results m = some l) (holds : l.Holds n rcv) (open' : l.sz < n)
    (closed : results m = .closed) (later : m ≤ k) : loopAfter n buff results k = some l := by
  induction k, later using Nat.le_induction with
  | base => exact state
  | succ k later ih =>
    have again : results k = .closed := (allowed.stays (by simp [closed]) later).trans closed
    have fits := holds.fits
    have same : signed 32 (l.sz + 0) = l.sz := by
      rw [holds.sz, signed_of_range] <;> omega
    rw [loopAfter_succ ih, if_pos open', again, turn_end le_rfl, ReceiveData, same]

/-- After an error the loop goes back a byte with each turn, and soon asks for bytes in front of its
buffer. -/
theorem failed_sinks (small : n < 2 ^ 31) (allowed : Allowed n buff results)
    (state : loopAfter n buff results m = some l) (holds : l.Holds n rcv) (open' : l.sz < n)
    (failed : results m = .failed) (turns : k ≤ rcv.length + 2 ^ 31) :
    loopAfter n buff results (m + k) = some ⟨l.buff, rcv.length - k⟩ := by
  have fits := holds.fits
  rw [holds.sz] at open'
  induction k with
  | zero =>
    rw [Nat.add_zero, state, ← holds.sz]
    simp
  | succ k ih =>
    have again : results (m + k) = .failed := (allowed.stays (by simp [failed]) (by omega)).trans failed
    have still : (rcv.length : Int) - k < n := by omega
    have down : signed 32 ((rcv.length : Int) - k + -1) = rcv.length - (k + 1 : Nat) := by
      rw [signed_of_range] <;> push_cast <;> omega
    rw [← Nat.add_assoc, loopAfter_succ (ih (by omega)), if_pos still, again, turn_end (by decide),
      ReceiveData, down]

/-! ## In the login -/

/-- What the first loop of the server asks for is what its `Authenticate` wants. -/
theorem username_wants (accounts : Accounts) (c : Challenge)
    (holds : l.Holds Buffer.username_buff.size rcv) (open' : l.sz < Buffer.username_buff.size) :
    accounts.Authenticate c rcv = .wants (l.asked Buffer.username_buff.size).toNat := by
  have fits := holds.fits
  rw [holds.asked (by decide)]
  rw [holds.sz] at open'
  simp only [Buffer.size] at *
  rw [Accounts.Authenticate, if_pos (by omega)]
  congr 1
  omega

/-- And so is what the second asks for, for a user there is. -/
theorem aes_wants (accounts : Accounts) (c : Challenge) {username p : List UInt8}
    (length : username.length = Buffer.username_buff.size)
    (user : accounts.GetUser username = some p)
    (holds : l.Holds Buffer.aes_buff.size rcv) (open' : l.sz < Buffer.aes_buff.size) :
    accounts.Authenticate c (username ++ rcv) =
      .wants (l.asked Buffer.aes_buff.size).toNat := by
  have fits := holds.fits
  rw [holds.asked (by decide)]
  rw [holds.sz] at open'
  simp only [Buffer.size] at *
  rw [Accounts.Authenticate, if_neg (by simp; omega), List.take_left' length, user]
  simp only [List.length_append]
  rw [if_pos (by omega)]
  congr 1
  omega

/-- The four loops of the handshake. -/
theorem handshake_bounded_iff (loop : Buffer) (block : buff.length = loop.size)
    (allowed : Allowed loop.size buff results) :
    Bounded loop.size buff results ↔ Fills loop.size results := by
  cases loop <;> exact bounded_iff (by decide) (by decide) block allowed

/-- A client that leaves after all but the last byte of its name. -/
def leaves (k : Nat) : Recv := if k = 0 then .data (.replicate 31 97) else .closed

theorem leaves_allowed : Allowed Buffer.username_buff.size (.replicate 32 0) leaves := by
  constructor
  · intro k l bytes state _ data
    cases k with
    | zero =>
      obtain rfl := Option.some.inj state
      obtain rfl := Recv.data.inj data
      decide
    | succ k => cases data
  · intro k _
    rfl
  · intro k failed
    unfold leaves at failed
    split at failed <;> cases failed

/-- The server waits for the byte forever, and does not wait: `ReceiveData` returns 0 at once. -/
theorem leaves_never_ends : ¬ Bounded Buffer.username_buff.size (.replicate 32 0) leaves := by
  have block : (List.replicate 32 (0 : UInt8)).length = Buffer.username_buff.size :=
    List.length_replicate
  rw [bounded_iff (by decide) (by decide) block leaves_allowed]
  rintro ⟨k, come, full⟩
  match k with
  | 0 => exact absurd full (by decide)
  | 1 => exact absurd full (by decide)
  | k + 2 => exact absurd (come 1 (by omega)) (by decide)

theorem handshake_bounded_iff_leaves :
    Bounded Buffer.username_buff.size (.replicate 32 0) leaves ↔
      Fills Buffer.username_buff.size leaves :=
  handshake_bounded_iff .username_buff List.length_replicate leaves_allowed

end DCScan.Receiving
