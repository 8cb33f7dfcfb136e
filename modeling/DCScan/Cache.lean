import DCScan.Lib.System
import DCScan.Lib.Table
import DCScan.Variables

/-!
`db_var_cache` under calls from several threads.

The database is a map from names to values. An access to it and an access to the cache are one step
each; between them any other thread may take its own. A read looks the name up, reads the database
when it finds nothing, fills the cache and reads the value back out of it; a change changes the
database, looks the name up and erases what it found.
-/

namespace DCScan.Cache

open Lib Database

abbrev Name := List UInt8

/-- What the database stores: a text, also for a number. -/
abbrev Value := List UInt8

/-- An entry of the cache; `node` is the node of the hash map that holds it. -/
structure Entry where
  node : Nat
  value : Value
  deriving DecidableEq

inductive Call where
  | ReadValuef64 (name : Name)
  | ReadValueString (name : Name)
  /-- The value is the text of `std::to_string`. -/
  | WriteValuef64 (auth : Authority) (name : Name) (value : Value)
  | WriteValueString (auth : Authority) (name : Name) (value : Value)
  | DeleteValue (auth : Authority) (name : Name)
  | InvalidateCache
  deriving DecidableEq

/-- A read in progress. -/
structure Read where
  name : Name
  /-- `ReadValueString`, which uses the entry twice. -/
  twice : Bool
  /-- How many values of the name had been replaced by calls that had returned when it began. -/
  since : Nat
  deriving DecidableEq

/-- Where a thread is; each phase but the first is about to take the access it is named for. -/
inductive Phase where
  | idle
  /-- `db_var_cache.find(variable.buffer)`. -/
  | find (read : Read)
  /-- `RDB::ReadVariable`. -/
  | query (read : Read)
  /-- `db_var_cache[variable.buffer] = value`. -/
  | fill (read : Read) (value : Value)
  /-- `db_var_cache[variable.buffer].c_str()`. -/
  | use (read : Read)
  /-- `db_var_cache[variable.buffer].size()`, when the text is in the entry. -/
  | useAgain (read : Read) (entry : Entry)
  /-- `RDB::ReadVariable`, before a change; `none` deletes. -/
  | check (name : Name) (change : Option Value)
  /-- The INSERT OR REPLACE or the DELETE. -/
  | change (name : Name) (change : Option Value)
  /-- `find`, after a change; `replaced` counts the values the change has replaced. -/
  | forget (name : Name) (replaced : Nat)
  /-- `erase(it)`; `it` is at the node. -/
  | erase (name : Name) (node : Nat) (replaced : Nat)
  /-- `db_var_cache.clear()`. -/
  | clear
  deriving DecidableEq

/-- A read that has returned a value. -/
structure Returned where
  read : Read
  value : Value
  deriving DecidableEq

structure State (ι : Type) where
  db : Name → Option Value
  /-- The values that a name had before, the oldest first. -/
  replaced : Name → List (Option Value)
  /-- How many of them were replaced by changes that have returned, or before one that has. -/
  settled : Name → Nat
  cache : Name → Option Entry
  /-- The next node of the hash map. -/
  nodes : Nat
  /-- An iterator or a text of an entry that is gone was used. -/
  undefined : Bool
  phase : ι → Phase
  returned : List Returned

/-- A database and no calls yet. -/
def start {ι : Type} (db : Name → Option Value) : State ι :=
  ⟨db, fun _ => [], fun _ => 0, fun _ => none, 0, false, fun _ => .idle, []⟩

inductive Act (ι : Type) where
  | call (thread : ι) (call : Call)
  | step (thread : ι)
  deriving DecidableEq

section

variable {ι : Type} [DecidableEq ι]

namespace State

/-- Every value that a name has had, the oldest first. -/
def values (s : State ι) (name : Name) : List (Option Value) := s.replaced name ++ [s.db name]

def enter (s : State ι) (t : ι) (phase : Phase) : State ι :=
  { s with phase := Function.update s.phase t phase }

/-- `operator[]` of the hash map: an entry, with an empty text when there was none. -/
def index (s : State ι) (name : Name) : State ι × Entry :=
  match s.cache name with
  | some entry => (s, entry)
  | none =>
    ({ s with cache := Function.update s.cache name (some ⟨s.nodes, []⟩), nodes := s.nodes + 1 },
      ⟨s.nodes, []⟩)

/-- An assignment to the entry. -/
def assign (s : State ι) (name : Name) (value : Value) : State ι :=
  let (s, entry) := s.index name
  { s with cache := Function.update s.cache name (some { entry with value }) }

/-- A read returns. -/
def answer (s : State ι) (t : ι) (read : Read) (value : Value) : State ι :=
  { s.enter t .idle with returned := s.returned ++ [⟨read, value⟩] }

/-- The database changes. -/
def store (s : State ι) (name : Name) (change : Option Value) : State ι :=
  { s with
    db := Function.update s.db name change
    replaced := Function.update s.replaced name (s.values name) }

def drop (s : State ι) (name : Name) : State ι := { s with cache := Lib.erase s.cache name }

/-- A change returns. -/
def settle (s : State ι) (t : ι) (name : Name) (replaced : Nat) : State ι :=
  { s.enter t .idle with
    settled := Function.update s.settled name (max (s.settled name) replaced) }

/-- The first access of a call. -/
def begin (s : State ι) : Call → Phase
  | .ReadValuef64 name => .find ⟨name, false, s.settled name⟩
  | .ReadValueString name => .find ⟨name, true, s.settled name⟩
  | .WriteValuef64 .SYS name value => .change name (some value)
  | .WriteValuef64 .USER name value => .check name (some value)
  | .WriteValueString .SYS name value => .change name (some value)
  | .WriteValueString .USER name value => .check name (some value)
  | .DeleteValue _ name => .check name none
  | .InvalidateCache => .clear

/-- `ReadVariable`: the empty text when there is no such variable. -/
def ReadVariable (s : State ι) (name : Name) : Value := (s.db name).getD []

end State

/-- One access of a thread. -/
def access (s : State ι) (t : ι) : Phase → Option (State ι)
  | .idle => none
  | .find read => some (s.enter t (if s.cache read.name = none then .query read else .use read))
  | .query read =>
    if s.ReadVariable read.name = [] then some (s.answer t read [])
    else some (s.enter t (.fill read (s.ReadVariable read.name)))
  | .fill read value => some ((s.assign read.name value).enter t (.use read))
  | .use read =>
    let (s, entry) := s.index read.name
    if read.twice then some (s.enter t (.useAgain read entry))
    else some (s.answer t read entry.value)
  | .useAgain read entry =>
    let (s, again) := s.index read.name
    if again = entry then some (s.answer t read entry.value)
    else some { s.enter t .idle with undefined := true }
  | .check name change =>
    -- `DeleteVariableInternal` deletes no variable that it has read the empty text of
    if change = none ∧ s.ReadVariable name = [] then some (s.enter t (.forget name 0))
    else some (s.enter t (.change name change))
  | .change name change =>
    some ((s.store name change).enter t (.forget name ((s.replaced name).length + 1)))
  | .forget name replaced =>
    match s.cache name with
    | some entry => some (s.enter t (.erase name entry.node replaced))
    | none => some (s.settle t name replaced)
  | .erase name node replaced =>
    if (s.cache name).map Entry.node = some node then some ((s.drop name).settle t name replaced)
    else some { s.enter t .idle with undefined := true }
  | .clear => some { s.enter t .idle with cache := fun _ => none }

def cacheSystem : System (State ι) (Act ι) where
  init s := ∃ db, s = start db
  step s
    | .call t call => if s.phase t = .idle then some (s.enter t (s.begin call)) else none
    | .step t => access s t (s.phase t)

/-- A read fills the cache only with a value that no change that has returned has replaced, and an
entry that a call has found is there when the call uses it. -/
def InTime (s : State ι) (t : ι) : Prop :=
  match s.phase t with
  | .fill read value => some value ∈ (s.values read.name).drop (s.settled read.name)
  | .use read => s.cache read.name ≠ none
  | .useAgain read entry => s.cache read.name = some entry
  | .erase name node _ => (s.cache name).map Entry.node = some node
  | _ => True

def inTime (s : State ι) : Act ι → Prop
  | .call _ _ => True
  | .step t => InTime s t

/-- When no call is in progress, what is cached is what is stored. -/
def Coherent (s : State ι) : Prop :=
  (∀ t, s.phase t = .idle) → ∀ name entry, s.cache name = some entry → s.db name = some entry.value

/-- No read has returned a value that a change had replaced which had returned when the read began;
of a variable that there is not, a read returns the empty text. -/
def NothingStale (s : State ι) : Prop :=
  ∀ r ∈ s.returned, ∃ value ∈ (s.values r.read.name).drop r.read.since, value.getD [] = r.value

end

/-! ## The invariant -/

/-- The change in progress that a thread has made, and how many values it has replaced. -/
def Phase.made : Phase → Option (Name × Nat)
  | .forget name replaced => some (name, replaced)
  | .erase name _ replaced => some (name, replaced)
  | _ => none

def Phase.reading : Phase → Option Read
  | .find read => some read
  | .query read => some read
  | .fill read _ => some read
  | .use read => some read
  | .useAgain read _ => some read
  | _ => none

section

variable {ι : Type}

structure Inv (s : State ι) : Prop where
  defined : s.undefined = false
  settled_le : ∀ name, s.settled name ≤ (s.replaced name).length
  made_le : ∀ t name n, (s.phase t).made = some (name, n) → n ≤ (s.replaced name).length
  /-- Who made the last change has not yet returned, or all is settled. -/
  open_change : ∀ name, s.settled name = (s.replaced name).length ∨
    ∃ t, (s.phase t).made = some (name, (s.replaced name).length)
  /-- What is cached has not been replaced by a change that has returned. -/
  cached : ∀ name entry, s.cache name = some entry →
    some entry.value ∈ (s.values name).drop (s.settled name)
  since_le : ∀ t read, (s.phase t).reading = some read → read.since ≤ s.settled read.name
  fresh : NothingStale s

variable {s : State ι} {t : ι} {name : Name} {n : Nat}

theorem inv_start (db : Name → Option Value) : Inv (start db : State ι) where
  defined := rfl
  settled_le _ := Nat.le_refl _
  made_le _ _ _ made := by cases made
  open_change _ := Or.inl rfl
  cached _ _ found := by cases found
  since_le _ _ reading := by cases reading
  fresh _ member := by cases member

/-- What a name has now is among the values since any count of replaced ones. -/
theorem current_mem (le : n ≤ (s.replaced name).length) : s.db name ∈ (s.values name).drop n := by
  rw [State.values, List.drop_append_of_le_length le]
  exact List.mem_append_right _ (List.mem_singleton_self _)

theorem drop_mono {α : Type} {l : List α} {m k : Nat} {x : α} (le : m ≤ k) (inside : x ∈ l.drop k) :
    x ∈ l.drop m := by
  rw [← Nat.add_sub_of_le le, ← List.drop_drop] at inside
  exact List.mem_of_mem_drop inside

/-- The values since a count are still there after the next one. -/
theorem values_store (change : Option Value) {x : Option Value} {other : Name}
    (inside : x ∈ (s.values other).drop n) : x ∈ ((s.store name change).values other).drop n := by
  by_cases same : other = name
  · subst same
    have longer : (s.store other change).values other = s.values other ++ [change] := by
      simp [State.values, State.store]
    have position : n ≤ (s.values other).length := by
      by_contra outside
      rw [List.drop_eq_nil_of_le (by omega)] at inside
      cases inside
    rw [longer, List.drop_append_of_le_length position]
    exact List.mem_append_left _ inside
  · have kept : (s.store name change).values other = s.values other := by
      simp [State.values, State.store, same]
    rwa [kept]

theorem length_replaced_store (change : Option Value) (other : Name) :
    (s.replaced other).length ≤ ((s.store name change).replaced other).length := by
  by_cases same : other = name
  · subst same
    simp [State.store, State.values]
  · simp [State.store, same]

/-- A value that is not stale is put into the cache. -/
theorem Inv.assign (inv : Inv s) {value : Value}
    (fresh : some value ∈ (s.values name).drop (s.settled name)) : Inv (s.assign name value) := by
  have cached : ∀ node, ∀ other entry,
      Function.update s.cache name (some ⟨node, value⟩) other = some entry →
      some entry.value ∈ (s.values other).drop (s.settled other) := by
    intro node other entry found
    rcases update_cases found with ⟨rfl, ⟨⟩⟩ | ⟨_, old⟩
    · exact fresh
    · exact inv.cached other entry old
  unfold State.assign State.index
  cases s.cache name with
  | some entry => exact { inv with cached := cached entry.node }
  | none =>
    refine { inv with cached := fun other entry found => ?_ }
    simp only [Function.update_idem] at found
    exact cached s.nodes other entry found

end

/-! ## One access -/

section

variable {ι : Type} [DecidableEq ι] {s : State ι} {t u : ι} {name : Name} {n : Nat}

@[simp] theorem enter_phase_self {phase : Phase} : (s.enter t phase).phase t = phase :=
  Function.update_self _ _ _

@[simp] theorem enter_phase_other {phase : Phase} (other : u ≠ t) :
    (s.enter t phase).phase u = s.phase u :=
  Function.update_of_ne other _ _

@[simp] theorem enter_replaced {phase : Phase} : (s.enter t phase).replaced = s.replaced := rfl

@[simp] theorem enter_settled {phase : Phase} : (s.enter t phase).settled = s.settled := rfl

omit [DecidableEq ι] in
@[simp] theorem store_phase {change : Option Value} : (s.store name change).phase = s.phase := rfl

@[simp] theorem settle_phase : (s.settle t name n).phase = (s.enter t .idle).phase := rfl

@[simp] theorem settle_replaced : (s.settle t name n).replaced = s.replaced := rfl

/-- A thread moves on, and what it has made or reads is known. -/
theorem Inv.enter (inv : Inv s) {phase : Phase}
    (made : ∀ name n, phase.made = some (name, n) → n ≤ (s.replaced name).length)
    (keeps : ∀ name, (s.phase t).made = some (name, (s.replaced name).length) →
      s.settled name = (s.replaced name).length ∨
        phase.made = some (name, (s.replaced name).length))
    (reads : ∀ read, phase.reading = some read → read.since ≤ s.settled read.name) :
    Inv (s.enter t phase) where
  defined := inv.defined
  settled_le := inv.settled_le
  made_le u name n found := by
    by_cases own : u = t
    · subst own
      exact made name n (by simpa using found)
    · exact inv.made_le u name n (by simpa [own] using found)
  open_change name := by
    rcases inv.open_change name with settled | ⟨u, found⟩
    · exact Or.inl settled
    · by_cases own : u = t
      · subst own
        rcases keeps name found with settled | still
        · exact Or.inl settled
        · exact Or.inr ⟨u, by simpa using still⟩
      · exact Or.inr ⟨u, by simpa [own] using found⟩
  cached := inv.cached
  since_le u read found := by
    by_cases own : u = t
    · subst own
      exact reads read (by simpa using found)
    · exact inv.since_le u read (by simpa [own] using found)
  fresh := inv.fresh

/-- A thread that has made no change moves on to a phase of the same read, or of none. -/
theorem Inv.enter_read (inv : Inv s) {phase : Phase} (none_made : (s.phase t).made = none)
    (makes_none : phase.made = none)
    (same : ∀ read, phase.reading = some read → (s.phase t).reading = some read) :
    Inv (s.enter t phase) := by
  apply inv.enter
  · intro name n made
    rw [makes_none] at made
    cases made
  · intro name made
    rw [none_made] at made
    cases made
  · exact fun read reading => inv.since_le t read (same read reading)

theorem Inv.begin (inv : Inv s) (idle : s.phase t = .idle) (call : Call) :
    Inv (s.enter t (s.begin call)) := by
  apply inv.enter
  · intro name n made
    cases call with
    | WriteValuef64 auth name value => cases auth <;> cases made
    | WriteValueString auth name value => cases auth <;> cases made
    | _ => cases made
  · intro name made
    rw [idle] at made
    cases made
  · intro read reading
    cases call with
    | ReadValuef64 name => cases reading; exact Nat.le_refl _
    | ReadValueString name => cases reading; exact Nat.le_refl _
    | WriteValuef64 auth name value => cases auth <;> cases reading
    | WriteValueString auth name value => cases auth <;> cases reading
    | _ => cases reading

/-- A read returns a value that is not stale. -/
theorem Inv.answer (inv : Inv s) {read : Read} {value : Value}
    (reading : (s.phase t).reading = some read) (none_made : (s.phase t).made = none)
    {found : Option Value} (there : found ∈ (s.values read.name).drop (s.settled read.name))
    (text : found.getD [] = value) : Inv (s.answer t read value) := by
  have moved : Inv (s.enter t .idle) := inv.enter_read none_made rfl (by rintro _ ⟨⟩)
  refine { moved with fresh := fun r member => ?_ }
  rcases List.mem_append.mp member with old | last
  · exact inv.fresh r old
  · obtain rfl := List.mem_singleton.mp last
    exact ⟨found, drop_mono (inv.since_le t read reading) there, text⟩

/-- The database changes, and the thread that has changed it has still to look the name up. -/
theorem Inv.store (inv : Inv s) {change : Option Value} (none_made : (s.phase t).made = none) :
    Inv ((s.store name change).enter t (.forget name ((s.replaced name).length + 1))) where
  defined := inv.defined
  settled_le other := (inv.settled_le other).trans (length_replaced_store change other)
  made_le u other n found := by
    by_cases own : u = t
    · subst own
      have found : some (name, (s.replaced name).length + 1) = some (other, n) := by
        simpa [Phase.made] using found
      cases found
      simp [State.store, State.values]
    · exact (inv.made_le u other n (by simpa [own] using found)).trans
        (length_replaced_store change other)
  open_change other := by
    by_cases same : other = name
    · subst same
      exact Or.inr ⟨t, by simp [State.store, State.values, Phase.made]⟩
    · have kept : (s.store name change).replaced other = s.replaced other := by
        simp [State.store, same]
      rcases inv.open_change other with settled | ⟨u, found⟩
      · exact Or.inl (settled.trans (congrArg List.length kept.symm))
      · have different : u ≠ t := by
          rintro rfl
          rw [none_made] at found
          cases found
        exact Or.inr ⟨u, by simpa [different, kept] using found⟩
  cached other entry found := values_store change (inv.cached other entry found)
  since_le u read found := by
    by_cases own : u = t
    · subst own
      simp [Phase.reading] at found
    · exact inv.since_le u read (by simpa [own] using found)
  fresh r member := by
    obtain ⟨value, inside, text⟩ := inv.fresh r member
    exact ⟨value, values_store change inside, text⟩

/-- A change returns when the name is not cached. -/
theorem Inv.settle (inv : Inv s) (made : (s.phase t).made = some (name, n))
    (uncached : s.cache name = none) : Inv (s.settle t name n) where
  defined := inv.defined
  settled_le other := by
    by_cases same : other = name
    · subst same
      have bound := inv.made_le t other n made
      have le := inv.settled_le other
      simp only [State.settle, Function.update_self]
      exact Nat.max_le.mpr ⟨le, bound⟩
    · simpa [State.settle, same] using inv.settled_le other
  made_le u other m found := by
    by_cases own : u = t
    · subst own
      simp [Phase.made] at found
    · exact inv.made_le u other m (by simpa [own] using found)
  open_change other := by
    have bound := inv.made_le t name n made
    rcases inv.open_change other with settled | ⟨u, found⟩
    · left
      by_cases same : other = name
      · subst same
        simp only [State.settle, Function.update_self, enter_replaced]
        omega
      · simpa [State.settle, same] using settled
    · by_cases own : u = t
      · subst own
        obtain ⟨rfl, rfl⟩ := Prod.mk.inj (Option.some.inj (made.symm.trans found))
        left
        have le := inv.settled_le name
        simp only [State.settle, Function.update_self, enter_replaced]
        omega
      · exact Or.inr ⟨u, by simpa [own] using found⟩
  cached other entry found := by
    have different : other ≠ name := by
      rintro rfl
      rw [show s.cache other = some entry from found] at uncached
      cases uncached
    simpa [State.settle, State.enter, State.values, different] using inv.cached other entry found
  since_le u read found := by
    have le : ∀ other, s.settled other ≤ (s.settle t name n).settled other := by
      intro other
      by_cases same : other = name
      · subst same
        simp [State.settle]
      · simp [State.settle, same]
    by_cases own : u = t
    · subst own
      simp [Phase.reading] at found
    · exact (inv.since_le u read (by simpa [own] using found)).trans
        (le read.name)
  fresh := inv.fresh

omit [DecidableEq ι] in
theorem Inv.drop (inv : Inv s) : Inv (s.drop name) :=
  { inv with
    cached := fun other entry found => by
      rcases update_cases found with ⟨_, ⟨⟩⟩ | ⟨_, old⟩
      exact inv.cached other entry old }

omit [DecidableEq ι] in
theorem index_of_cached {entry : Entry} (found : s.cache name = some entry) :
    s.index name = (s, entry) := by
  rw [State.index, found]

omit [DecidableEq ι] in
theorem assign_phase {value : Value} : (s.assign name value).phase = s.phase := by
  unfold State.assign State.index
  cases s.cache name <;> rfl

/-- An access in time keeps the invariant. -/
theorem Inv.access (inv : Inv s) (timely : InTime s t) {s' : State ι}
    (ran : access s t (s.phase t) = some s') : Inv s' := by
  unfold InTime at timely
  have current := fun read : Read => current_mem (inv.settled_le read.name)
  cases at_ : s.phase t with
  | idle =>
    rw [at_] at ran
    cases ran
  | find read =>
    rw [at_] at ran
    cases ran
    apply inv.enter_read (by rw [at_]; rfl) (by split <;> rfl)
    intro other reading
    rw [at_]
    split at reading <;> exact reading
  | query read =>
    rw [at_] at ran
    simp only [Cache.access] at ran
    split at ran
    · rename_i empty
      cases ran
      exact inv.answer (by rw [at_]; rfl) (by rw [at_]; rfl) (current read) empty
    · cases ran
      exact inv.enter_read (by rw [at_]; rfl) rfl fun other reading => by rw [at_]; exact reading
  | fill read value =>
    rw [at_] at ran timely
    cases ran
    have filled := inv.assign timely
    apply filled.enter_read
    · rw [assign_phase, at_]
      rfl
    · rfl
    · intro other reading
      rw [assign_phase, at_]
      exact reading
  | use read =>
    rw [at_] at ran timely
    obtain ⟨entry, found⟩ := Option.ne_none_iff_exists'.mp timely
    simp only [Cache.access, index_of_cached found] at ran
    split at ran
    · cases ran
      exact inv.enter_read (by rw [at_]; rfl) rfl fun other reading => by rw [at_]; exact reading
    · cases ran
      exact inv.answer (by rw [at_]; rfl) (by rw [at_]; rfl) (inv.cached _ _ found) rfl
  | useAgain read entry =>
    rw [at_] at ran timely
    simp only [Cache.access, index_of_cached timely, if_true] at ran
    cases ran
    exact inv.answer (by rw [at_]; rfl) (by rw [at_]; rfl) (inv.cached _ _ timely) rfl
  | check name change =>
    rw [at_] at ran
    simp only [Cache.access] at ran
    have none_made : ∀ other, (s.phase t).made = some (other, (s.replaced other).length) → False := by
      intro other made
      rw [at_] at made
      cases made
    split at ran
    · cases ran
      apply inv.enter
      · rintro other n ⟨⟩
        exact Nat.zero_le _
      · exact fun other made => (none_made other made).elim
      · rintro read ⟨⟩
    · cases ran
      exact inv.enter_read (by rw [at_]; rfl) rfl (by rintro _ ⟨⟩)
  | change name change =>
    rw [at_] at ran
    cases ran
    exact inv.store (by rw [at_]; rfl)
  | forget name replaced =>
    rw [at_] at ran
    simp only [Cache.access] at ran
    have own : (s.phase t).made = some (name, replaced) := by rw [at_]; rfl
    split at ran
    · rename_i entry found
      cases ran
      apply inv.enter
      · rintro other n ⟨⟩
        exact inv.made_le t _ _ own
      · intro other made
        exact Or.inr (own.symm.trans made)
      · rintro read ⟨⟩
    · rename_i uncached
      cases ran
      exact inv.settle own uncached
  | erase name node replaced =>
    rw [at_] at ran timely
    simp only [Cache.access] at ran
    rw [if_pos timely] at ran
    cases ran
    have own : ((s.drop name).phase t).made = some (name, replaced) := by
      rw [show (s.drop name).phase = s.phase from rfl, at_]
      rfl
    exact inv.drop.settle own (Function.update_self _ _ _)
  | clear =>
    rw [at_] at ran
    cases ran
    have moved : Inv (s.enter t .idle) :=
      inv.enter_read (by rw [at_]; rfl) rfl (by rintro _ ⟨⟩)
    exact { moved with cached := fun _ _ found => by cases found }

theorem inv_of_reachable (h : cacheSystem.ReachableBy inTime s) : Inv s := by
  apply h.invariant
  · rintro s ⟨db, rfl⟩
    exact inv_start db
  · intro s act s' inv timely ran
    cases act with
    | call t call =>
      simp only [cacheSystem, Option.ite_none_right_eq_some] at ran
      obtain ⟨idle, same⟩ := ran
      cases same
      exact inv.begin idle call
    | step t => exact inv.access timely ran

omit [DecidableEq ι] in
/-- Between calls every value but the one that is stored has been replaced by a call that has
returned. -/
theorem Inv.coherent (inv : Inv s) : Coherent s := by
  intro idle name entry found
  have settled : s.settled name = (s.replaced name).length := by
    rcases inv.open_change name with settled | ⟨t, made⟩
    · exact settled
    · rw [idle t] at made
      cases made
  have inside := inv.cached name entry found
  rw [State.values, settled, List.drop_left, List.mem_singleton] at inside
  exact inside.symm

/-- **The cache is coherent** in every run whose accesses are in time: between calls what is cached is
what is stored, no read has returned a value that a completed change had replaced, and nothing is
used that is gone. -/
theorem cache_coherent (h : cacheSystem.ReachableBy inTime s) :
    Coherent s ∧ NothingStale s ∧ s.undefined = false :=
  have inv := inv_of_reachable h
  ⟨inv.coherent, inv.fresh, inv.defined⟩

end

/-! ## A stale entry -/

/-- The threads that use the database. -/
inductive Caller where
  | remoteCall | encoderLoop | counterCallback
  deriving DecidableEq

instance (s : State Caller) (t : Caller) : Decidable (InTime s t) := by
  unfold InTime
  split <;> infer_instance

instance (s : State Caller) (a : Act Caller) : Decidable (inTime s a) := by
  cases a with
  | call t call => exact .isTrue trivial
  | step t => exact inferInstanceAs (Decidable (InTime s t))

instance (s : State Caller) : Decidable (NothingStale s) :=
  inferInstanceAs (Decidable (∀ r ∈ s.returned, _))

def sampleName : Name := [107]

def oldValue : Value := [49]

def newValue : Value := [50]

/-- A database with one variable. -/
def sampleStart : State Caller := start fun name => if name = sampleName then some oldValue else none

/-- A read that fills the cache, a write beside one that finds its entry, and a read of what was
written. -/
def timelyRun : List (Act Caller) :=
  [.call .remoteCall (.ReadValueString sampleName), .step .remoteCall, .step .remoteCall,
    .step .remoteCall, .call .encoderLoop (.WriteValuef64 .SYS sampleName newValue),
    .step .encoderLoop, .step .remoteCall, .step .remoteCall, .step .encoderLoop,
    .step .encoderLoop, .call .counterCallback (.ReadValuef64 sampleName), .step .counterCallback,
    .step .counterCallback, .step .counterCallback, .step .counterCallback]

theorem cache_coherent_timely :
    ∃ s : State Caller, (s.returned.map Returned.value = [oldValue, newValue] ∧
      s.cache sampleName = some ⟨1, newValue⟩) ∧
      Coherent s ∧ NothingStale s ∧ s.undefined = false := by
  have replayed : ∃ s : State Caller, cacheSystem.ReachableBy inTime s ∧
      s.returned.map Returned.value = [oldValue, newValue] ∧
      s.cache sampleName = some ⟨1, newValue⟩ :=
    System.exists_reachableBy_of_replay (s := sampleStart) ⟨_, rfl⟩ timelyRun (by decide +kernel)
  obtain ⟨s, reached, seen⟩ := replayed
  exact ⟨s, seen, cache_coherent reached⟩

/-- The remote call reads the database, the encoder loop changes it and finds nothing to erase, and
the remote call fills the cache. -/
def lateRun : List (Act Caller) :=
  [.call .remoteCall (.ReadValuef64 sampleName), .step .remoteCall, .step .remoteCall,
    .call .encoderLoop (.WriteValuef64 .SYS sampleName newValue), .step .encoderLoop,
    .step .encoderLoop, .step .remoteCall, .step .remoteCall,
    .call .counterCallback (.ReadValuef64 sampleName), .step .counterCallback,
    .step .counterCallback]

theorem stale_entry :
    ∃ s : State Caller, cacheSystem.Reachable s ∧ ¬ Coherent s ∧ ¬ NothingStale s := by
  have replayed : ∃ s : State Caller, cacheSystem.Reachable s ∧
      (s.phase .remoteCall = .idle ∧ s.phase .encoderLoop = .idle ∧
        s.phase .counterCallback = .idle) ∧
      s.cache sampleName = some ⟨0, oldValue⟩ ∧ s.db sampleName = some newValue ∧
      ¬ NothingStale s :=
    System.exists_reachable_of_replay (s := sampleStart) ⟨_, rfl⟩ lateRun (by decide +kernel)
  obtain ⟨s, reached, idle, cached, stored, stale⟩ := replayed
  refine ⟨s, reached, fun coherent => ?_, stale⟩
  have all_idle : ∀ t, s.phase t = .idle := by
    intro t
    cases t
    · exact idle.1
    · exact idle.2.1
    · exact idle.2.2
  have same := coherent all_idle sampleName _ cached
  rw [stored] at same
  exact absurd same (by decide)

end DCScan.Cache
